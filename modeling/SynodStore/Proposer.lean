import SynodStore.Issuer
import SynodStore.Round

namespace SynodStore

variable {m : Type → Type} [Monad m]

/-- What a proposer works with: the replicas it is wired to, its ballots, and a way to put one request to all
of a list of replicas, whose answers come back in the order of the list. -/
structure Surroundings (m : Type → Type) where
  peers : m (List Nat)
  issue : m (Except Ballot.Fault Ballot)
  broadcast : List Nat → Request → m (List Answer)

namespace Surroundings

def carry (e : Surroundings m) (c : Config) (sender : UInt32) (peers : List Nat) (r : Round) :
    m (Except Failure Vote) := do
  let answers ← e.broadcast peers (r.request sender)
  match _ : r.conclude c answers with
  | .ask s => e.carry c sender peers s
  | .retry =>
    match ← e.issue with
    | .ok ballot => e.carry c sender peers (.second r.action ballot)
    | .error fault => return .error (.fault fault)
  | .finished outcome => return outcome
termination_by r.left
decreasing_by
  · exact Round.left_conclude ‹_›
  · exact Round.left_second _ _ (Round.retried_of_conclude ‹_›)

/-- Runs one round for the action. A proposer without replicas spends no ballot. -/
def round (e : Surroundings m) (c : Config) (sender : UInt32) (action : Action) : m (Except Failure Vote) := do
  let peers ← e.peers
  if peers.isEmpty then return .error .unwired
  match ← e.issue with
  | .ok ballot => e.carry c sender peers (.first action ballot)
  | .error fault => return .error (.fault fault)

def attempts (e : Surroundings m) (c : Config) (sender : UInt32) (action : Action) :
    Nat → m (Except Failure Ballot)
  | 0 => return .error (.exhausted c.maxRounds.toNat)
  | n + 1 => do
    match ← e.round c sender action with
    | .error failure => return .error failure
    | .ok decision =>
      if decision.action = action then return .ok decision.ballot else e.attempts c sender action n

/-- Runs rounds until one commits the action itself rather than a value that it recovered. -/
def propose (e : Surroundings m) (c : Config) (sender : UInt32) (action : Action) : m (Except Failure Ballot) :=
  e.attempts c sender action c.maxRounds.toNat

end Surroundings

inductive Link where
  | direct
  | network
deriving DecidableEq

structure Proposer where
  id : UInt32
  config : Config
  issuer : Issuer
  peers : List Nat
  link : Link

def Proposer.start (id : UInt32) (c : Config) (clock : Int) : Except Misconfiguration Proposer := do
  return ⟨id, c, ← Issuer.atTime id clock, [], .direct⟩

end SynodStore

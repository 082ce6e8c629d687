import SynodStore.Proposer
import SynodStore.Replica
import SynodStore.Service.Access

namespace SynodStore

structure Cluster where
  replicas : List Replica
  proposers : List Proposer

def Config.stream (c : Config) (entropy : UInt64) (id : UInt32) : KeyStream :=
  .ofSeed (c.seed.getD entropy + id.toUInt64)

namespace Cluster

/-- Unwired replicas with the given ids, the one at place `i` with the clock at `clock i`. -/
def ofIds (c : Config) (entropy : UInt64) (clock : Nat → Int) (ids : List UInt32) :
    Except Misconfiguration Cluster := do
  let proposers ← ids.zipIdx.mapM fun (id, place) => do
    c.validate
    Proposer.start id c (clock place)
  return ⟨ids.map fun id => .start id c.crash (c.stream entropy id), proposers⟩

def start (c : Config) (entropy : UInt64) (clock : Nat → Int) : Except Misconfiguration Cluster := do
  c.validate
  ofIds c entropy clock ((List.range c.clusterSize.toNat).map UInt32.ofNat)

def places (c : Cluster) : List Nat :=
  List.range c.replicas.length

def wire (c : Cluster) (link : Link) (place : Nat) (peers : List Nat) : Cluster :=
  { c with proposers := c.proposers.modify place fun p => { p with peers, link } }

def wireAll (c : Cluster) (link : Link) : Cluster :=
  { c with proposers := c.proposers.map fun p => { p with peers := c.places, link } }

def startDirect (c : Config) (entropy : UInt64) (clock : Nat → Int) : Except Misconfiguration Cluster := do
  return (← start c entropy clock).wireAll .direct

def visit {α : Type} (absent : α) (place : Nat) (f : Replica → α × Replica) (c : Cluster) : α × Cluster :=
  match c.replicas[place]? with
  | none => (absent, c)
  | some r =>
    let p := f r
    (p.1, { c with replicas := c.replicas.set place p.2 })

def call (place : Nat) (q : Request) : StateM Cluster Reply :=
  visit q.refusal place (·.answer q)

def issue (place : Nat) : StateM Cluster (Except Ballot.Fault Ballot) := fun c =>
  match c.proposers[place]? with
  | none => (.error .idTooLarge, c)
  | some p =>
    let next := p.issuer.next
    (next.1, { c with proposers := c.proposers.set place { p with issuer := next.2 } })

def peers (c : Cluster) (place : Nat) : List Nat :=
  c.proposers[place]?.elim [] (·.peers)

def link (c : Cluster) (place : Nat) : Link :=
  c.proposers[place]?.elim .direct (·.link)

def read (c : Cluster) (place : Nat) (key : String) : Option String :=
  c.replicas[place]?.bind (·.get? key)

def surroundings (place : Nat) : Surroundings (StateM Cluster) where
  peers := return (← get).peers place
  issue := issue place
  broadcast peers q := peers.mapM fun peer => do return .ok (← call peer q)

variable {m : Type → Type} [Monad m]

def roundIn (e : Surroundings m) (place : Nat) (action : Action) (c : Cluster) : m (Except Failure Vote) :=
  match c.proposers[place]? with
  | none => return .error .unwired
  | some p => e.round p.config p.id action

def proposeIn (e : Surroundings m) (place : Nat) (action : Action) (c : Cluster) : m (Except Failure Ballot) :=
  match c.proposers[place]? with
  | none => return .error .unwired
  | some p => e.propose p.config p.id action

def round (place : Nat) (action : Action) : StateM Cluster (Except Failure Vote) := do
  (← get).roundIn (surroundings place) place action

def propose (place : Nat) (action : Action) : StateM Cluster (Except Failure Ballot) := do
  (← get).proposeIn (surroundings place) place action

def access (place : Nat) (a : Access) : StateM Cluster AccessReply :=
  a.serve (fun key => return (← get).read place key) (propose place)

def values (c : Cluster) (key : String) : List (Option String) :=
  c.replicas.map (·.get? key)

end Cluster

end SynodStore

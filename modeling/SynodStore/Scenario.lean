import SynodStore.Remote
import SynodStore.Replica.Operation
import SynodStore.Snapshot

namespace SynodStore

namespace Scenario

/-- What becomes of a call to a scripted peer. A call that is `lost` is carried out but seems to fail. -/
inductive Fate where
  | pass
  | refuse
  | fail
  | lost
deriving DecidableEq

def Fate.carried : Fate → Bool
  | pass | lost => true
  | refuse | fail => false

mutual

inductive Step where
  | replica (place : Nat) (operation : Replica.Operation)
  | propose (proposer : Nat) (action : Action)
  | round (proposer : Nat) (action : Action)
  | call (place : Nat) (request : Request)
  | wire (proposer : Nat) (peers : List Nat)
  | values (key : String)
  | ids
  | reachable (node : String) (up : Bool)
  | dropping (all : Bool)
  | script (place : Nat) (prepare accept learn : List Directive)

inductive Directive where
  | mk (before : List Step) (fate : Fate)

end

namespace Directive

def pass : Directive := ⟨[], .pass⟩

def before : Directive → List Step
  | mk steps _ => steps

def fate : Directive → Fate
  | mk _ f => f

end Directive

mutual

def Step.size : Step → Nat
  | .script _ prepare accept learn => directivesSize prepare + directivesSize accept + directivesSize learn
  | _ => 0

def Directive.size : Directive → Nat
  | .mk before _ => stepsSize before + 1

def stepsSize : List Step → Nat
  | [] => 0
  | s :: ss => s.size + stepsSize ss

def directivesSize : List Directive → Nat
  | [] => 0
  | d :: ds => d.size + directivesSize ds

end

structure Script where
  prepare : List Directive
  accept : List Directive
  learn : List Directive

namespace Script

def empty : Script := ⟨[], [], []⟩

def append (s : Script) (prepare accept learn : List Directive) : Script :=
  ⟨s.prepare ++ prepare, s.accept ++ accept, s.learn ++ learn⟩

def pop (q : Request) (s : Script) : Directive × Script :=
  match q with
  | .prepare _ => (s.prepare.headD .pass, { s with prepare := s.prepare.tail })
  | .accept _ => (s.accept.headD .pass, { s with accept := s.accept.tail })
  | .learn _ => (s.learn.headD .pass, { s with learn := s.learn.tail })

end Script

inductive Result where
  | done
  | replica (outcome : Replica.Outcome)
  | proposed (outcome : Except Failure Ballot)
  | decided (outcome : Except Failure Vote)
  | answered (answer : Answer)
  | values (values : List (Option String))
  | ids (proposers peers : List UInt32) (nodes : List String)

/-- A call to a peer, whose answer is filled in when it returns, or a step that a directive brought about. -/
inductive Entry where
  | call (peer : Nat) (request : Request) (answer : Option Answer)
  | nested (step : Step) (result : Result)

/-- How proposers reach the replicas. Scripts and traces lie around the peers, which never hear an announcement
if they are deaf; where the first wiring is `bare` it leads to the replicas themselves. -/
structure Setup where
  link : Link
  bare : Bool
  deaf : Bool
  timeout : Nat

structure State where
  remote : Remote
  scripts : List Script
  rewired : List Nat
  trace : Array Entry

structure Start where
  peer : Nat
  entry : Nat
  fate : Fate

abbrev Run := StateM State

namespace Run

def remotely {α : Type} (f : StateM Remote α) : Run α :=
  focus (·.remote) (fun remote s => { s with remote }) f

def log (e : Entry) : Run Unit :=
  modify fun s => { s with trace := s.trace.push e }

def pop (peer : Nat) (q : Request) : Run Directive := fun s =>
  match s.scripts[peer]? with
  | none => (.pass, s)
  | some script =>
    let p := script.pop q
    (p.1, { s with scripts := s.scripts.set peer p.2 })

def deliver (u : Setup) (peers : List Nat) (q : Request) : Run (List Answer) :=
  match u.deaf, q with
  | true, .learn _ => return peers.map fun _ => .ok .learned
  | _, _ => remotely (Remote.callOver u.link u.timeout peers q)

variable (perform : Step → Run Result)

def begin (q : Request) (peer : Nat) : Run Start := do
  let entry := (← get).trace.size
  log (.call peer q none)
  let d ← pop peer q
  for step in d.before do
    log (.nested step (← perform step))
  return ⟨peer, entry, d.fate⟩

def note (entry : Nat) (answer : Answer) : Run Unit :=
  modify fun s => { s with trace := s.trace.modify entry fun
    | .call peer q _ => .call peer q (some answer)
    | e => e }

def conclude (q : Request) : List Start → List Answer → Run (List Answer)
  | [], _ => return []
  | start :: starts, answers => do
    let answer : Answer := match start.fate with
      | .pass => answers.headD (.error .scripted)
      | .refuse => .ok q.refusal
      | .fail | .lost => .error .scripted
    note start.entry answer
    return answer :: (← conclude q starts (if start.fate.carried then answers.tail else answers))

/-- Makes calls to peers, which all start before the first is carried out. -/
def call (u : Setup) (peers : List Nat) (q : Request) : Run (List Answer) := do
  let starts ← peers.mapM (begin perform q)
  let answers ← deliver u ((starts.filter (·.fate.carried)).map (·.peer)) q
  conclude q starts answers

def broadcast (u : Setup) (place : Nat) (peers : List Nat) (q : Request) : Run (List Answer) := do
  if u.bare ∧ place ∉ (← get).rewired then remotely (Remote.callOver .direct u.timeout peers q)
  else
    match u.link with
    | .direct => return (← peers.mapM fun peer => call perform u [peer] q).flatten
    | .network => call perform u peers q

def surroundings (u : Setup) (place : Nat) : Surroundings Run where
  peers := return (← get).remote.services.peers place
  issue := remotely (Remote.inside (Cluster.issue place))
  broadcast := broadcast perform u place

end Run

def cluster : Run Cluster :=
  return (← get).remote.services

/-- Performs a step and the steps nested in the directives that it meets. Each of these is used up by the call
that meets it, so the depth is at most the number of directives. -/
def perform (u : Setup) : Nat → Step → Run Result
  | 0, _ => return .done
  | n + 1, step => do
    let inner := perform u n
    match step with
    | .replica place operation =>
      return .replica (← Run.remotely (Remote.inside (Cluster.visit .done place (Replica.perform operation))))
    | .propose place action => return .proposed (← (← cluster).proposeIn (Run.surroundings inner u place) place action)
    | .round place action => return .decided (← (← cluster).roundIn (Run.surroundings inner u place) place action)
    | .call place q => return .answered ((← Run.call inner u [place] q).headD (.error .scripted))
    | .wire place peers =>
      Run.remotely (Remote.inside (modify fun c => c.wire u.link place peers))
      modify fun s => { s with rewired := place :: s.rewired }
      return .done
    | .values key => return .values ((← cluster).values key)
    | .ids =>
      let c ← cluster
      return .ids (c.proposers.map (·.id)) (c.places.map UInt32.ofNat) (c.places.map fun i => (Host.roles i).name)
    | .reachable node up =>
      Run.remotely (modify (·.setReachable node up))
      return .done
    | .dropping all =>
      Run.remotely (modify (·.setDropping all))
      return .done
    | .script place prepare accept learn =>
      modify fun s => { s with scripts := s.scripts.modify place (·.append prepare accept learn) }
      return .done

def traced (u : Setup) (fuel : Nat) (step : Step) : Run (Result × List Entry) := do
  modify fun s => { s with trace := #[] }
  let result ← perform u fuel step
  return (result, (← get).trace.toList)

def start (c : Cluster) : State :=
  ⟨.ofRoles c, c.places.map fun _ => .empty, [], #[]⟩

def run (u : Setup) (keys : List String) (c : Cluster) (steps : List Step) :
    List ((Result × List Entry) × List (Nat × Snapshot)) :=
  Snapshot.record (·.remote.services.snapshots keys) (traced u (stepsSize steps + 1)) (c.snapshots keys) steps
    (start c)

end Scenario

end SynodStore

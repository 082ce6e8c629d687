import SynodStore.Client
import SynodStore.Replica.Operation
import SynodStore.Snapshot

namespace SynodStore

structure Deployment where
  remote : Remote
  client : Client

namespace Deployment

inductive Step where
  | access (place : Nat) (access : Access)
  | submit (place : Nat) (action : Action)
  | dump (place : Nat)
  | ids
  | client (access : Access)
  | backends
  | stub (place : Nat) (access : Access)
  | raw (place : Nat) (text : String)
  | wire (place : Nat) (peers : List Nat)
  | reachable (node : String) (up : Bool)
  | dropping (all : Bool)
  | replica (place : Nat) (operation : Replica.Operation)

inductive Result where
  | done
  | replied (reply : AccessReply)
  | submitted (outcome : Except Failure Ballot)
  | entries (entries : List (String × String))
  | ids (ids : List UInt32)
  | backends (names : Except CallError (List String))
  | answered (answer : Except CallError AccessReply)
  | response (answer : Except CallError String)
  | replica (outcome : Replica.Outcome)

structure Setup where
  link : Link
  timeout : Nat

abbrev Run := StateM Deployment

def remotely {α : Type} (f : StateM Remote α) : Run α :=
  focus (·.remote) (fun remote s => { s with remote }) f

def cluster : Run Cluster :=
  return (← get).remote.services

def viaClient (u : Setup) (a : Access) : Run (Except CallError AccessReply) := do
  let backends := (← cluster).replicas.length
  if backends = 0 then return .error .noReplica
  let place ← focus (·.client) (fun client s => { s with client }) (Client.pick backends)
  remotely (Remote.accessOver u.link u.timeout place a)

def backendNames (link : Link) (c : Cluster) : Except CallError (List String) :=
  if c.replicas.isEmpty then .error .noReplica
  else
    match link with
    | .direct => .ok (c.replicas.map fun r => toString r.id.toNat)
    | .network => .ok (c.places.map fun place => (Host.front place).name)

def perform (u : Setup) : Step → Run Result
  | .access place a => return .replied (← remotely (Remote.access u.timeout place a))
  | .submit place action => return .submitted (← remotely (Remote.propose u.timeout place action))
  | .dump place => return .entries (((← cluster).replicas[place]?.elim [] (·.dump)))
  | .ids => return .ids ((← cluster).replicas.map (·.id))
  | .client a => return .answered (← viaClient u a)
  | .backends => return .backends (backendNames u.link (← cluster))
  | .stub place a => return .answered (← remotely (Remote.accessOver u.link u.timeout place a))
  | .raw place text => return .response (← remotely (Remote.callFront u.timeout place text))
  | .wire place peers => do
    remotely (Remote.inside (modify fun c => c.wire .direct place peers))
    return .done
  | .reachable node up => do
    remotely (modify (·.setReachable node up))
    return .done
  | .dropping all => do
    remotely (modify (·.setDropping all))
    return .done
  | .replica place operation =>
    return .replica (← remotely (Remote.inside (Cluster.visit .done place (Replica.perform operation))))

def start (c : Cluster) : Deployment :=
  ⟨.ofFronts c, .fresh⟩

def run (u : Setup) (keys : List String) (c : Cluster) (steps : List Step) :
    List (Result × List (Nat × Snapshot)) :=
  Snapshot.record (·.remote.services.snapshots keys) (perform u) (c.snapshots keys) steps (start c)

end Deployment

end SynodStore

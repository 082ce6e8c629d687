import SynodStore.Cluster

namespace SynodStore

structure AcceptorView where
  id : UInt32
  tracked : Nat
  slots : List (String × Slot)
deriving DecidableEq

/-- What can be observed of a replica. There is no acceptor while it is down. -/
structure Snapshot where
  generation : Nat
  acceptor : Option AcceptorView
  store : List (String × String)
  lastApplied : List (String × Ballot)
  applied : Nat
  tracked : Nat
deriving DecidableEq

def Acceptor.view (keys : List String) (a : Acceptor) : AcceptorView :=
  ⟨a.id, a.tracked, a.slots.toList.filter (keys.contains ·.1)⟩

def Replica.snapshot (keys : List String) (r : Replica) : Snapshot where
  generation := r.supervisor.generation
  acceptor := r.supervisor.current?.map (·.view keys)
  store := r.learner.store.toList
  lastApplied := r.learner.applied.toList.filter (keys.contains ·.1)
  applied := r.learner.count
  tracked := r.learner.tracked

def Cluster.snapshots (keys : List String) (c : Cluster) : List Snapshot :=
  c.replicas.map (·.snapshot keys)

def Snapshot.changes (before after : List Snapshot) : List (Nat × Snapshot) :=
  ((before.zip after).zipIdx.filter fun ((b, a), _) => b ≠ a).map fun ((_, a), place) => (place, a)

def Snapshot.record {σ τ ρ : Type} (view : σ → List Snapshot) (step : τ → σ → ρ × σ) :
    List Snapshot → List τ → σ → List (ρ × List (Nat × Snapshot))
  | _, [], _ => []
  | before, t :: ts, s =>
    let p := step t s
    (p.1, changes before (view p.2)) :: record view step (view p.2) ts p.2

end SynodStore

import SynodStore.Replica

namespace SynodStore.Replica

/-- What can be done to a single replica. An operation on its acceptor spends a live check if it is `live`. -/
inductive Operation where
  | check (times : Nat)
  | crash
  | reset
  | acceptor (live : Bool) (operation : Acceptor.Operation)
  | learn (message : Proposal)
  | store (key value : String)

inductive Outcome where
  | done
  | checks (up : List Bool)
  | down
  | acceptor (outcome : Acceptor.Outcome)
deriving DecidableEq

variable {α : Type}

def reach (live : Bool) (f : Acceptor → α × Acceptor) (s : Supervisor) : Option α × Supervisor :=
  if live then s.serve f else s.visit f

def perform : Operation → Replica → Outcome × Replica
  | .check times, r =>
    let p := r.supervisor.checks times
    (.checks p.1, { r with supervisor := p.2 })
  | .crash, r => (.done, { r with supervisor := r.supervisor.crash })
  | .reset, r => (.done, { r with supervisor := r.supervisor.install })
  | .acceptor live operation, r =>
    let p := reach live (·.perform operation) r.supervisor
    (p.1.elim .down .acceptor, { r with supervisor := p.2 })
  | .learn m, r => (.done, r.learn m)
  | .store key value, r =>
    (.done, { r with learner := { r.learner with store := r.learner.store.insert key value } })

end SynodStore.Replica

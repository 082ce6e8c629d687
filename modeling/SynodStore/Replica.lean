import SynodStore.Learner
import SynodStore.Supervisor

namespace SynodStore

structure Replica where
  id : UInt32
  supervisor : Supervisor
  learner : Learner

namespace Replica

def start (id : UInt32) (plan : Option CrashPlan) (stream : KeyStream) : Replica :=
  ⟨id, .start id plan stream, .fresh⟩

/-- Refuses when the live check finds no acceptor. -/
def prepare (r : Replica) (m : Prepare) : Option Promise × Replica :=
  let p := r.supervisor.serve (·.prepare m)
  (p.1.join, { r with supervisor := p.2 })

def accept (r : Replica) (m : Proposal) : Option Vote × Replica :=
  let p := r.supervisor.serve (·.accept m)
  (p.1.join, { r with supervisor := p.2 })

/-- What was decided for the key is final, so the acceptor forgets about it. -/
def learn (r : Replica) (m : Proposal) : Replica :=
  { r with learner := r.learner.learn m, supervisor := r.supervisor.clear m.action.key }

def answer (r : Replica) : Request → Reply × Replica
  | .prepare m =>
    let p := r.prepare m
    (.promise p.1, p.2)
  | .accept m =>
    let p := r.accept m
    (.vote p.1, p.2)
  | .learn m => (.learned, r.learn m)

def get? (r : Replica) (key : String) : Option String :=
  r.learner.store[key]?

def dump (r : Replica) : List (String × String) :=
  r.learner.store.toList

end Replica

end SynodStore

import SynodStore.Message

namespace SynodStore

/-- A replica's map, with the ballot last applied to each key it holds and the number of actions applied. The number
has no bound: a word of 64 bits would do, as one action every nanosecond takes five centuries to go through it. -/
structure Learner where
  store : Store
  applied : Std.ExtTreeMap String Ballot
  count : Nat

namespace Learner

def fresh : Learner := ⟨∅, ∅, 0⟩

def record (applied : Std.ExtTreeMap String Ballot) (b : Ballot) : Action → Std.ExtTreeMap String Ballot
  | .put k _ => applied.insert k b
  | .delete k => applied.erase k

/-- Applies the action, unless its ballot is the last one applied to the key. A deleted key keeps no
ballot behind. -/
def learn (l : Learner) (p : Proposal) : Learner :=
  if l.applied[p.action.key]? = some p.ballot then l
  else ⟨p.action.apply l.store, record l.applied p.ballot p.action, l.count + 1⟩

def lastApplied? (l : Learner) (key : String) : Option Ballot :=
  l.applied[key]?

def tracked (l : Learner) : Nat :=
  l.applied.size

variable {l : Learner} {p : Proposal}

theorem learn_of_applied (h : l.lastApplied? p.action.key = some p.ballot) : l.learn p = l :=
  if_pos h

theorem learn_of_not_applied (h : l.lastApplied? p.action.key ≠ some p.ballot) :
    l.learn p = ⟨p.action.apply l.store, record l.applied p.ballot p.action, l.count + 1⟩ :=
  if_neg h

theorem getElem?_record (m : Std.ExtTreeMap String Ballot) (b : Ballot) (a : Action) (k : String) :
    (record m b a)[k]? = if a.key = k then a.value?.map fun _ => b else m[k]? := by
  by_cases h : a.key = k <;> cases a <;>
    simp_all [record, Action.key, Action.value?, Std.ExtTreeMap.getElem?_insert, Std.ExtTreeMap.getElem?_erase]

theorem store_learn_of_ne {k : String} (h : p.action.key ≠ k) : (l.learn p).store[k]? = l.store[k]? := by
  by_cases hp : l.lastApplied? p.action.key = some p.ballot
  · rw [learn_of_applied hp]
  · rw [learn_of_not_applied hp, Action.getElem?_apply, if_neg h]

theorem lastApplied?_learn_of_ne {k : String} (h : p.action.key ≠ k) :
    (l.learn p).lastApplied? k = l.lastApplied? k := by
  by_cases hp : l.lastApplied? p.action.key = some p.ballot
  · rw [learn_of_applied hp]
  · rw [learn_of_not_applied hp, lastApplied?, getElem?_record, if_neg h, lastApplied?]

end Learner

end SynodStore

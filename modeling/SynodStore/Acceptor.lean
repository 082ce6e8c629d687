import SynodStore.Message

namespace SynodStore

/-- What an acceptor remembers of one key: the highest ballot promised, and the last vote cast. -/
structure Slot where
  promised : Option Ballot
  accepted : Option Vote
deriving DecidableEq

namespace Slot

def fresh : Slot := ⟨none, none⟩

def admitsPrepare (s : Slot) (b : Ballot) : Bool :=
  s.promised.all (· < b)

def admitsAccept (s : Slot) (b : Ballot) : Bool :=
  s.promised.all (· ≤ b)

end Slot

structure Acceptor where
  id : UInt32
  slots : Std.ExtTreeMap String Slot

namespace Acceptor

def fresh (id : UInt32) : Acceptor := ⟨id, ∅⟩

def slot? (a : Acceptor) (key : String) : Option Slot :=
  a.slots[key]?

def slot (a : Acceptor) (key : String) : Slot :=
  (a.slot? key).getD .fresh

def update (a : Acceptor) (key : String) (s : Slot) : Acceptor :=
  { a with slots := a.slots.insert key s }

/-- Promises a ballot above every ballot promised for the key so far. -/
def prepare (a : Acceptor) (m : Prepare) : Option Promise × Acceptor :=
  let s := a.slot m.key
  if s.admitsPrepare m.ballot then
    (some ⟨m.ballot, s.accepted⟩, a.update m.key { s with promised := some m.ballot })
  else (none, a)

/-- Votes for the action unless a higher ballot was promised. A vote leaves the promise as it is. -/
def accept (a : Acceptor) (m : Proposal) : Option Vote × Acceptor :=
  let s := a.slot m.action.key
  if s.admitsAccept m.ballot then
    (some m.vote, a.update m.action.key { s with accepted := some m.vote })
  else (none, a)

def clear (a : Acceptor) (key : String) : Acceptor :=
  { a with slots := a.slots.erase key }

def tracked (a : Acceptor) : Nat :=
  a.slots.size

inductive Operation where
  | prepare (message : Prepare)
  | accept (message : Proposal)
  | clear (key : String)

inductive Outcome where
  | promise (answer : Option Promise)
  | vote (answer : Option Vote)
  | cleared
deriving DecidableEq

def Operation.key : Operation → String
  | prepare m => m.key
  | accept m => m.action.key
  | clear key => key

def perform (a : Acceptor) : Operation → Outcome × Acceptor
  | .prepare m =>
    let p := a.prepare m
    (.promise p.1, p.2)
  | .accept m =>
    let p := a.accept m
    (.vote p.1, p.2)
  | .clear key => (.cleared, a.clear key)

variable {a : Acceptor} {key : String}

theorem slot?_fresh (id : UInt32) : (fresh id).slot? key = none := by
  simp [fresh, slot?]

theorem slot?_update_self (s : Slot) : (a.update key s).slot? key = some s := by
  simp [update, slot?]

theorem slot?_update_of_ne {k : String} (h : key ≠ k) (s : Slot) : (a.update key s).slot? k = a.slot? k := by
  simp [update, slot?, Std.ExtTreeMap.getElem?_insert, h]

theorem slot?_clear_self : (a.clear key).slot? key = none := by
  simp [clear, slot?]

theorem slot?_clear_of_ne {k : String} (h : key ≠ k) : (a.clear key).slot? k = a.slot? k := by
  simp [clear, slot?, Std.ExtTreeMap.getElem?_erase, h]

theorem slot?_prepare_of_ne {m : Prepare} {k : String} (h : m.key ≠ k) : (a.prepare m).2.slot? k = a.slot? k := by
  simp only [prepare]
  split
  · exact slot?_update_of_ne h _
  · rfl

theorem slot?_accept_of_ne {m : Proposal} {k : String} (h : m.action.key ≠ k) :
    (a.accept m).2.slot? k = a.slot? k := by
  simp only [accept]
  split
  · exact slot?_update_of_ne h _
  · rfl

theorem prepare_of_refused {m : Prepare} (h : (a.prepare m).1 = none) : (a.prepare m).2 = a := by
  simp only [prepare] at h ⊢
  split at h <;> simp_all

theorem accept_of_refused {m : Proposal} (h : (a.accept m).1 = none) : (a.accept m).2 = a := by
  simp only [accept] at h ⊢
  split at h <;> simp_all

theorem slot?_perform_of_ne {o : Operation} {k : String} (h : o.key ≠ k) :
    (a.perform o).2.slot? k = a.slot? k := by
  cases o with
  | prepare m => exact slot?_prepare_of_ne h
  | accept m => exact slot?_accept_of_ne h
  | clear key => exact slot?_clear_of_ne h

end Acceptor

end SynodStore

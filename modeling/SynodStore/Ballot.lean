namespace SynodStore

def idBits : Nat := 4

def maxReplicas : Nat := 1 <<< idBits

/-- The number of a round. The counter stands above the replica id, so ballots compare by counter first and
ballots of two replicas never coincide. -/
structure Ballot where
  packed : UInt64
deriving DecidableEq

namespace Ballot

instance : LT Ballot := ⟨fun a b => a.packed < b.packed⟩

instance : LE Ballot := ⟨fun a b => a.packed ≤ b.packed⟩

instance (a b : Ballot) : Decidable (a < b) := inferInstanceAs (Decidable (a.packed < b.packed))

instance (a b : Ballot) : Decidable (a ≤ b) := inferInstanceAs (Decidable (a.packed ≤ b.packed))

instance : Ord Ballot := ⟨fun a b => compare a.packed b.packed⟩

/-- The four highest bits of the counter have no room in the word and are lost. -/
def pack (counter : UInt64) (id : UInt32) : Ballot :=
  ⟨counter <<< 4 ||| id.toUInt64⟩

def counter (b : Ballot) : UInt64 :=
  b.packed >>> 4

def replica (b : Ballot) : UInt32 :=
  (b.packed &&& 15).toUInt32

def text (b : Ballot) : String :=
  "#" ++ toString b.packed.toNat

inductive Fault where
  | idTooLarge
  | counterOverflow
deriving DecidableEq

def Fault.message : Fault → String
  | idTooLarge => "assertion failed: replica_id < MAX_REPLICAS"
  | counterOverflow => "attempt to add with overflow"

def ofParts (counter : UInt64) (id : UInt32) : Except Fault Ballot :=
  if id.toNat < maxReplicas then .ok (pack counter id) else .error .idTooLarge

theorem lt_def (a b : Ballot) : a < b ↔ a.packed < b.packed := Iff.rfl

theorem le_refl (a : Ballot) : a ≤ a := UInt64.le_refl a.packed

theorem not_lt {a b : Ballot} : ¬ a < b ↔ b ≤ a := UInt64.not_lt

theorem not_le {a b : Ballot} : ¬ a ≤ b ↔ b < a := UInt64.not_le

end Ballot

end SynodStore

import Mathlib.Data.UInt
import Mathlib.Order.Basic
import Mathlib.Order.Defs.LinearOrder
import SynodStore.Issuer

namespace SynodStore

namespace Ballot

variable {a b c : Ballot}

theorem lt_iff_toNat : a < b ↔ a.packed.toNat < b.packed.toNat := UInt64.lt_iff_toNat_lt

theorem le_iff_toNat : a ≤ b ↔ a.packed.toNat ≤ b.packed.toNat := UInt64.le_iff_toNat_le

theorem ext_toNat (h : a.packed.toNat = b.packed.toNat) : a = b := by
  cases a; cases b
  exact congrArg mk (UInt64.toNat_inj.1 h)

instance : LinearOrder Ballot where
  le_refl := le_refl
  le_trans a b c h h' := le_iff_toNat.2 ((le_iff_toNat.1 h).trans (le_iff_toNat.1 h'))
  le_antisymm a b h h' := ext_toNat (Nat.le_antisymm (le_iff_toNat.1 h) (le_iff_toNat.1 h'))
  le_total a b := by simp only [le_iff_toNat]; exact Nat.le_total _ _
  lt_iff_le_not_ge a b := by simp only [lt_iff_toNat, le_iff_toNat]; omega
  toDecidableLE := inferInstance
  toDecidableLT := inferInstance
  toDecidableEq := inferInstance
  toOrd := inferInstance
  compare_eq_compareOfLessAndEq a b := by
    cases a; cases b
    simp only [compareOfLessAndEq, mk.injEq]
    rfl

/-- Counters below this bound have room beside the id of a replica. -/
def counterBound : Nat := 2 ^ 60

theorem toNat_pack {counter : UInt64} {id : UInt32} (hc : counter.toNat < counterBound)
    (hi : id.toNat < maxReplicas) : (pack counter id).packed.toNat = counter.toNat * 16 + id.toNat := by
  have hs : counter.toNat <<< 4 % 2 ^ 64 = 2 ^ 4 * counter.toNat := by
    rw [Nat.shiftLeft_eq, Nat.mod_eq_of_lt (by simp only [counterBound] at hc; omega), Nat.mul_comm]
  have hd := Nat.two_pow_add_eq_or_of_lt (i := 4) hi counter.toNat
  simp only [pack, UInt64.toNat_or, UInt64.toNat_shiftLeft, UInt32.toNat_toUInt64]
  rw [show (4 : UInt64).toNat % 64 = 4 from rfl, hs, ← hd]
  omega

theorem pack_inj {c d : UInt64} {i j : UInt32} (hc : c.toNat < counterBound) (hd : d.toNat < counterBound)
    (hi : i.toNat < maxReplicas) (hj : j.toNat < maxReplicas) (h : pack c i = pack d j) : c = d ∧ i = j := by
  have he := congrArg (·.packed.toNat) h
  simp only [toNat_pack hc hi, toNat_pack hd hj] at he
  simp only [maxReplicas, idBits] at hi hj
  exact ⟨UInt64.toNat_inj.1 (by omega), UInt32.toNat_inj.1 (by omega)⟩

end Ballot

namespace Issuer

variable {i j : Issuer} {b : Ballot}

/-- The ballots that may have been issued up to the current counter. -/
def Issued (i : Issuer) (b : Ballot) : Prop :=
  ∃ counter : UInt64, counter.toNat ≤ i.counter.toNat ∧ b = Ballot.pack counter i.id

theorem toNat_advance (h : i.counter.toNat < Ballot.counterBound) :
    i.advance.counter.toNat = i.counter.toNat + 1 := by
  simp only [Ballot.counterBound] at h
  simp only [advance, UInt64.toNat_add]
  exact Nat.mod_eq_of_lt (by simp only [UInt64.toNat_one]; omega)

theorem next_of_lt (h : i.counter.toNat < Ballot.counterBound) :
    i.next = (.ok (Ballot.pack (i.counter + 1) i.id), i.advance) := by
  have ha := toNat_advance h
  have hn : i.counter + 1 ≠ 0 := fun h0 => by
    rw [advance, h0] at ha
    exact Nat.succ_ne_zero _ ha.symm
  rw [next, if_neg hn]

theorem Issued.advance (h : i.counter.toNat < Ballot.counterBound) (hb : i.Issued b) : i.advance.Issued b := by
  obtain ⟨counter, hc, rfl⟩ := hb
  exact ⟨counter, by rw [toNat_advance h]; omega, rfl⟩

theorem issued_advance (i : Issuer) : i.advance.Issued (Ballot.pack (i.counter + 1) i.id) :=
  ⟨i.counter + 1, Nat.le_refl _, rfl⟩

theorem not_issued_next (hi : i.advance.counter.toNat < Ballot.counterBound)
    (hj : j.counter.toNat < Ballot.counterBound) (hid : i.id = j.id → i = j) :
    ¬ j.Issued (Ballot.pack (i.counter + 1) i.id) := by
  rintro ⟨counter, hc, h⟩
  obtain ⟨he, hk⟩ := Ballot.pack_inj hi (hc.trans_lt hj) i.id_lt j.id_lt h
  obtain rfl := hid hk
  rw [← he, toNat_advance hj] at hc
  omega

end Issuer

end SynodStore

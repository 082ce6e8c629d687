import Mathlib.Data.List.Pairwise
import SynodStore.Proofs.Numbering

namespace SynodStore

namespace Ballot

variable {a b : Ballot} {c : UInt64} {id : UInt32}

theorem toNat_counter (b : Ballot) : b.counter.toNat = b.packed.toNat / 16 := by
  rw [counter, UInt64.toNat_shiftRight, show (4 : UInt64).toNat % 64 = 4 from rfl, Nat.shiftRight_eq_div_pow]

theorem toNat_replica (b : Ballot) : b.replica.toNat = b.packed.toNat % 16 := by
  have hm : b.packed.toNat &&& 15 = b.packed.toNat % 16 := Nat.and_two_pow_sub_one_eq_mod _ 4
  rw [replica, UInt64.toNat_toUInt32, UInt64.toNat_and, show (15 : UInt64).toNat = 15 from rfl, hm]
  omega

theorem lt_of_counter_lt (h : a.counter.toNat < b.counter.toNat) : a < b := by
  rw [toNat_counter, toNat_counter] at h
  exact lt_iff_toNat.2 (by omega)

theorem toNat_packed (h : id.toNat < maxReplicas) :
    (pack c id).packed.toNat = c.toNat % counterBound * 16 + id.toNat := by
  have hs : c.toNat <<< 4 % 2 ^ 64 = 2 ^ 4 * (c.toNat % counterBound) := by
    rw [Nat.shiftLeft_eq, counterBound]
    omega
  have hd := Nat.two_pow_add_eq_or_of_lt (i := 4) h (c.toNat % counterBound)
  rw [pack, UInt64.toNat_or, UInt64.toNat_shiftLeft, UInt32.toNat_toUInt64,
    show (4 : UInt64).toNat % 64 = 4 from rfl, hs, ← hd]
  omega

theorem toNat_counter_pack (h : id.toNat < maxReplicas) :
    (pack c id).counter.toNat = c.toNat % counterBound := by
  have hi : id.toNat < 16 := h
  rw [toNat_counter, toNat_packed h]
  omega

theorem counter_pack_iff (h : id.toNat < maxReplicas) : (pack c id).counter = c ↔ c.toNat < counterBound := by
  rw [← UInt64.toNat_inj, toNat_counter_pack h]
  exact Nat.mod_eq_iff_lt (by decide)

theorem replica_pack (h : id.toNat < maxReplicas) : (pack c id).replica = id := by
  have hi : id.toNat < 16 := h
  apply UInt32.toNat_inj.1
  rw [toNat_replica, toNat_packed h]
  omega

end Ballot

namespace Issuer

variable {i : Issuer} {n k : Nat}

/-- What the counter stands at after some calls. It goes back to zero when it overflows. -/
def reading (i : Issuer) (k : Nat) : UInt64 :=
  i.counter + UInt64.ofNat k

theorem toNat_reading (i : Issuer) (k : Nat) : (i.reading k).toNat = (i.counter.toNat + k) % 2 ^ 64 := by
  rw [reading, UInt64.toNat_add, UInt64.toNat_ofNat', Nat.add_mod_mod]

theorem reading_advance (i : Issuer) (k : Nat) : i.advance.reading k = i.reading (k + 1) := by
  rw [← UInt64.toNat_inj, toNat_reading, toNat_reading, advance, UInt64.toNat_add, UInt64.toNat_one,
    Nat.mod_add_mod, Nat.add_assoc, Nat.add_comm 1 k]

theorem length_take (n : Nat) (i : Issuer) : (take n i).length = n := by
  induction n generalizing i with
  | zero => rfl
  | succ n ih => rw [take, List.length_cons, ih]

theorem getElem?_take (h : k < n) : (take n i)[k]? =
    some (if i.reading (k + 1) = 0 then .error .counterOverflow else .ok (.pack (i.reading (k + 1)) i.id)) := by
  induction n generalizing i k with
  | zero => exact absurd h (Nat.not_lt_zero k)
  | succ n ih =>
      rw [take]
      cases k with
      | zero => rfl
      | succ k =>
          rw [List.getElem?_cons_succ, next, ih (Nat.lt_of_succ_lt_succ h), reading_advance]
          rfl

theorem issued_iff {b : Ballot} : (take n i)[k]? = some (.ok b) ↔
    k < n ∧ i.reading (k + 1) ≠ 0 ∧ b = .pack (i.reading (k + 1)) i.id := by
  constructor
  · intro h
    have hk : k < n := length_take n i ▸ (List.getElem?_eq_some_iff.1 h).1
    rw [getElem?_take hk] at h
    split at h
    · cases h
    case isFalse hne => exact ⟨hk, hne, by cases h; rfl⟩
  · rintro ⟨hk, hne, rfl⟩
    rw [getElem?_take hk, if_neg hne]

theorem eq_ok_of_toOption {r : Except Ballot.Fault Ballot} {b : Ballot} (h : r.toOption = some b) : r = .ok b := by
  cases r with
  | error => cases h
  | ok a => exact congrArg Except.ok (Option.some.inj h)

/-- The ballots of the first calls grow, and each tells the counter and the replica it was issued for. -/
structure Ascending (n : Nat) (i : Issuer) : Prop where
  ordered : ((take n i).filterMap Except.toOption).Pairwise (· < ·)
  faithful : ∀ k b, (take n i)[k]? = some (.ok b) → b.counter = i.reading (k + 1) ∧ b.replica = i.id

/-- No call takes the counter to the bound or beyond, save that the first may make it overflow. -/
def Roomy (start : UInt64) (n : Nat) : Prop :=
  start.toNat + n < Ballot.counterBound ∨ start.toNat + 1 = 2 ^ 64 ∧ n ≤ Ballot.counterBound

theorem Roomy.readings (h : Roomy i.counter n) :
    ∃ first, first + n ≤ Ballot.counterBound ∧ ∀ k < n, (i.reading (k + 1)).toNat = first + k := by
  simp only [Roomy, Ballot.counterBound] at h ⊢
  obtain hc | ⟨hc, hn⟩ := h
  · refine ⟨i.counter.toNat + 1, by omega, fun k hk => ?_⟩
    rw [toNat_reading, Nat.mod_eq_of_lt (by omega)]
    omega
  · refine ⟨0, by omega, fun k hk => ?_⟩
    rw [toNat_reading, show i.counter.toNat + (k + 1) = k + 2 ^ 64 by omega, Nat.add_mod_right,
      Nat.mod_eq_of_lt (by omega), Nat.zero_add]

theorem exists_reading_of_not_roomy (hn : n ≠ 0) (h : ¬ Roomy i.counter n) :
    ∃ k < n, Ballot.counterBound ≤ (i.reading (k + 1)).toNat := by
  simp only [Roomy, Ballot.counterBound, not_or, not_and, Nat.not_lt, Nat.not_le] at h ⊢
  obtain ⟨hfull, hover⟩ := h
  have hlt := i.counter.toNat_lt
  by_cases hlast : i.counter.toNat + 1 = 2 ^ 64
  · refine ⟨2 ^ 60, hover hlast, ?_⟩
    rw [toNat_reading, show i.counter.toNat + (2 ^ 60 + 1) = 2 ^ 60 + 2 ^ 64 by omega, Nat.add_mod_right]
    decide
  · refine ⟨2 ^ 60 - 1 - i.counter.toNat, by omega, ?_⟩
    rw [toNat_reading, Nat.mod_eq_of_lt (by omega)]
    omega

theorem Ascending.roomy (h : i.Ascending n) (hn : n ≠ 0) : Roomy i.counter n := by
  by_contra hfull
  obtain ⟨k, hk, hbound⟩ := exists_reading_of_not_roomy hn hfull
  have hne : i.reading (k + 1) ≠ 0 := by
    intro h0
    rw [h0] at hbound
    exact absurd hbound (by decide)
  obtain ⟨hcounter, -⟩ := h.faithful k _ (issued_iff.2 ⟨hk, hne, rfl⟩)
  exact absurd ((Ballot.counter_pack_iff i.id_lt).1 hcounter) (Nat.not_lt.2 hbound)

theorem Roomy.ascending (h : Roomy i.counter n) : i.Ascending n := by
  obtain ⟨first, hfirst, hreading⟩ := h.readings
  have hfaithful : ∀ k b, (take n i)[k]? = some (.ok b) → b.counter = i.reading (k + 1) ∧ b.replica = i.id := by
    intro k b hb
    obtain ⟨hk, -, rfl⟩ := issued_iff.1 hb
    have hlt : (i.reading (k + 1)).toNat < Ballot.counterBound := by rw [hreading k hk]; omega
    exact ⟨(Ballot.counter_pack_iff i.id_lt).2 hlt, Ballot.replica_pack i.id_lt⟩
  refine ⟨?_, hfaithful⟩
  rw [List.pairwise_filterMap, List.pairwise_iff_getElem]
  intro j k hj hk hjk a ha b hb
  have hn : k < n := by rwa [length_take] at hk
  have ha' : (take n i)[j]? = some (.ok a) := by rw [List.getElem?_eq_getElem hj, eq_ok_of_toOption ha]
  have hb' : (take n i)[k]? = some (.ok b) := by rw [List.getElem?_eq_getElem hk, eq_ok_of_toOption hb]
  apply Ballot.lt_of_counter_lt
  rw [(hfaithful j a ha').1, (hfaithful k b hb').1, hreading j (hjk.trans hn), hreading k hn]
  omega

/-- An issuer keeps its promise for just as long as the counters of its calls have room beside the id, or when its
first call overflows and the others stay within the room again. -/
theorem ascending_iff {id : UInt32} (h : id.toNat < maxReplicas) (start : UInt64) :
    ∃ i, starting id start = .ok i ∧ ∀ n, i.Ascending n ↔ n = 0 ∨ start.toNat + n < Ballot.counterBound ∨
      start.toNat + 1 = 2 ^ 64 ∧ n ≤ Ballot.counterBound := by
  refine ⟨⟨id, start, h⟩, dif_pos h, fun n => ⟨fun ha => ?_, ?_⟩⟩
  · by_cases hn : n = 0
    · exact .inl hn
    · exact .inr (ha.roomy hn)
  · rintro (rfl | hroomy)
    · exact ⟨.nil, fun k b hb => by cases hb⟩
    · exact Roomy.ascending hroomy

theorem ascending_iff_three : (3 : UInt32).toNat < maxReplicas ∧
    ∃ i, starting 3 41 = .ok i ∧ ∀ n, i.Ascending n ↔ n = 0 ∨ (41 : UInt64).toNat + n < Ballot.counterBound ∨
      (41 : UInt64).toNat + 1 = 2 ^ 64 ∧ n ≤ Ballot.counterBound :=
  ⟨by decide, ascending_iff (by decide) 41⟩

/-- The second ballot of an issuer is below its first, for the counter no longer fits. -/
theorem not_ascending_wrapped : ∃ (id : UInt32) (start : UInt64) (i : Issuer), id.toNat < maxReplicas ∧
    starting id start = .ok i ∧ take 2 i = [.ok ⟨18446744073709551603⟩, .ok ⟨3⟩] ∧ ¬ i.Ascending 2 := by
  refine ⟨3, 1152921504606846974, ⟨3, 1152921504606846974, by decide⟩, by decide, by decide, by decide, fun h => ?_⟩
  exact absurd h.ordered (by decide)

end Issuer

end SynodStore

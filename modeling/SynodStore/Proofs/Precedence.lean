import SynodStore.Proofs.Issuance

namespace SynodStore.Ballot

variable {a b : Ballot} {i : UInt32}

theorem ofParts_of_lt (c : UInt64) (h : i.toNat < maxReplicas) : ofParts c i = .ok (pack c i) := if_pos h

theorem replica_lt (b : Ballot) : b.replica.toNat < maxReplicas := by
  rw [toNat_replica]
  exact Nat.mod_lt _ (by decide)

theorem counter_lt (b : Ballot) : b.counter.toNat < counterBound := by
  have hb := b.packed.toNat_lt
  rw [toNat_counter, counterBound]
  omega

theorem toNat_parts (b : Ballot) : b.counter.toNat * 16 + b.replica.toNat = b.packed.toNat := by
  rw [toNat_counter, toNat_replica]
  omega

theorem ext_parts (hc : a.counter = b.counter) (hr : a.replica = b.replica) : a = b := by
  refine ext_toNat ?_
  rw [← toNat_parts a, ← toNat_parts b, hc, hr]

/-- The id is too small to make up for a counter, so it decides only between equal ones. -/
theorem lt_iff_parts : a < b ↔ a.counter < b.counter ∨ a.counter = b.counter ∧ a.replica < b.replica := by
  have ha : a.replica.toNat < 16 := replica_lt a
  have hb : b.replica.toNat < 16 := replica_lt b
  rw [lt_iff_toNat, ← toNat_parts a, ← toNat_parts b, UInt64.lt_iff_toNat_lt, ← UInt64.toNat_inj,
    UInt32.lt_iff_toNat_lt]
  omega

theorem eq_iff_parts : a = b ↔ a.counter = b.counter ∧ a.replica = b.replica :=
  ⟨fun h => by rw [h]; exact ⟨rfl, rfl⟩, fun h => ext_parts h.1 h.2⟩

theorem pack_parts (b : Ballot) : pack b.counter b.replica = b :=
  ext_parts ((counter_pack_iff (replica_lt b)).2 (counter_lt b)) (replica_pack (replica_lt b))

/-- Counters and ids within their bounds are read back off the ballot made of them, and such ballots compare as the
pairs do, the counter first. Every word is the ballot made of what is read off it. -/
theorem packed_lexicographic :
    (∀ (c d : UInt64) (i j : UInt32), c.toNat < counterBound → d.toNat < counterBound →
      i.toNat < maxReplicas → j.toNat < maxReplicas →
      ∃ a b, ofParts c i = .ok a ∧ ofParts d j = .ok b ∧ a.counter = c ∧ a.replica = i ∧
        (a < b ↔ c < d ∨ c = d ∧ i < j) ∧ (a = b ↔ c = d ∧ i = j)) ∧
    ∀ b : Ballot, ofParts b.counter b.replica = .ok b := by
  constructor
  · intro c d i j hc hd hi hj
    have hcounter := (counter_pack_iff hi).2 hc
    have hreplica : (pack c i).replica = i := replica_pack hi
    refine ⟨_, _, ofParts_of_lt c hi, ofParts_of_lt d hj, hcounter, hreplica, ?_, ?_⟩
    · rw [lt_iff_parts, hcounter, hreplica, (counter_pack_iff hj).2 hd, replica_pack hj]
    · rw [eq_iff_parts, hcounter, hreplica, (counter_pack_iff hj).2 hd, replica_pack hj]
  · intro b
    rw [ofParts_of_lt _ (replica_lt b), pack_parts]

/-- The highest id under one counter comes right before the lowest under the next, at the end of the range. -/
theorem packed_lexicographic_last :
    let c : UInt64 := 1152921504606846974
    let d : UInt64 := 1152921504606846975
    c.toNat < counterBound ∧ d.toNat < counterBound ∧ (15 : UInt32).toNat < maxReplicas ∧
      (0 : UInt32).toNat < maxReplicas ∧
      ∃ a b, ofParts c 15 = .ok a ∧ ofParts d 0 = .ok b ∧ a.counter = c ∧ a.replica = 15 ∧
        a < b ∧ b.packed = a.packed + 1 := by
  intro c d
  obtain ⟨hparts, -⟩ := packed_lexicographic
  obtain ⟨a, b, ha, hb, hc, hi, hlt, -⟩ := hparts c d 15 0 (by decide) (by decide) (by decide) (by decide)
  refine ⟨by decide, by decide, by decide, by decide, a, b, ha, hb, hc, hi, hlt.2 (.inl (by decide)), ?_⟩
  obtain rfl := Except.ok.inj (ha.symm.trans (ofParts_of_lt c (by decide)))
  obtain rfl := Except.ok.inj (hb.symm.trans (ofParts_of_lt d (by decide)))
  decide

end SynodStore.Ballot

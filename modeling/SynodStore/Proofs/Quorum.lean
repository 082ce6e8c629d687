import Mathlib.Data.List.Perm.Subperm
import SynodStore.Proofs.Numbering
import SynodStore.Round

namespace SynodStore

variable {votes : List Vote} {promises : List Promise} {v : Vote}

theorem mem_of_highestVote (h : highestVote votes = some v) : v ∈ votes := by
  induction votes with
  | nil => cases h
  | cons u votes ih =>
      simp only [highestVote] at h
      cases hw : highestVote votes with
      | none =>
          rw [hw] at h
          exact List.mem_cons.2 (.inl (Option.some.inj h).symm)
      | some w =>
          simp only [hw] at h
          split at h
          · exact List.mem_cons.2 (.inl (Option.some.inj h).symm)
          · exact List.mem_cons_of_mem _ (ih (hw.trans h))

theorem exists_highestVote {u : Vote} (hu : u ∈ votes) : ∃ v, highestVote votes = some v ∧ u.ballot ≤ v.ballot := by
  induction votes with
  | nil => cases hu
  | cons v votes ih =>
      simp only [highestVote]
      cases hw : highestVote votes with
      | none =>
          rcases List.mem_cons.1 hu with rfl | hu
          · exact ⟨u, rfl, Ballot.le_refl _⟩
          · obtain ⟨w, hw', _⟩ := ih hu
            rw [hw] at hw'
            cases hw'
      | some w =>
          have hle : u.ballot ≤ v.ballot ∨ u.ballot ≤ w.ballot := by
            rcases List.mem_cons.1 hu with rfl | hu
            · exact .inl (Ballot.le_refl _)
            · obtain ⟨w', hw', hle⟩ := ih hu
              obtain rfl := Option.some.inj (hw.symm.trans hw')
              exact .inr hle
          by_cases hlt : w.ballot < v.ballot
          · exact ⟨v, if_pos hlt, hle.elim id fun h => h.trans hlt.le⟩
          · exact ⟨w, if_neg hlt, hle.elim (fun h => h.trans (Ballot.not_lt.1 hlt)) id⟩

theorem exists_chooseValue {p : Promise} {u : Vote} (hp : p ∈ promises) (hu : p.accepted = some u) :
    ∃ q ∈ promises, ∃ h, q.accepted = some h ∧ u.ballot ≤ h.ballot ∧ chooseValue promises = some h.action := by
  obtain ⟨h, hh, hle⟩ := exists_highestVote (List.mem_filterMap.2 ⟨p, hp, hu⟩)
  obtain ⟨q, hq, hqh⟩ := List.mem_filterMap.1 (mem_of_highestVote hh)
  exact ⟨q, hq, h, hqh, hle, by rw [chooseValue, hh, Option.map_some]⟩

theorem exists_of_chooseValue {value : Action} (h : chooseValue promises = some value) :
    ∃ p ∈ promises, ∃ u, p.accepted = some u ∧ u.action = value := by
  obtain ⟨u, hu, rfl⟩ := Option.map_eq_some_iff.1 h
  obtain ⟨p, hp, hpu⟩ := List.mem_filterMap.1 (mem_of_highestVote hu)
  exact ⟨p, hp, u, hpu, rfl⟩

theorem chooseValue_eq_none (h : ∀ p ∈ promises, p.accepted = none) : chooseValue promises = none := by
  cases hv : chooseValue promises with
  | none => rfl
  | some value =>
      obtain ⟨p, hp, u, hu, -⟩ := exists_of_chooseValue hv
      rw [h p hp] at hu
      cases hu

theorem chooseValue_spec (promises : List Promise) (action : Action) :
    (∀ p ∈ promises, p.accepted = none) ∧ (chooseValue promises).getD action = action ∨
    ∃ p ∈ promises, ∃ v, p.accepted = some v ∧ v.action = (chooseValue promises).getD action ∧
      ∀ p' ∈ promises, ∀ v', p'.accepted = some v' → v'.ballot ≤ v.ballot := by
  cases hv : highestVote (promises.filterMap (·.accepted)) with
  | none =>
      refine .inl ⟨fun p hp => ?_, by rw [chooseValue, hv]; rfl⟩
      cases ha : p.accepted with
      | none => rfl
      | some v =>
          obtain ⟨w, hw, -⟩ := exists_highestVote (List.mem_filterMap.2 ⟨p, hp, ha⟩)
          rw [hv] at hw
          cases hw
  | some v =>
      obtain ⟨p, hp, ha⟩ := List.mem_filterMap.1 (mem_of_highestVote hv)
      refine .inr ⟨p, hp, v, ha, by rw [chooseValue, hv]; rfl, fun p' hp' v' ha' => ?_⟩
      obtain ⟨w, hw, hle⟩ := exists_highestVote (List.mem_filterMap.2 ⟨p', hp', ha'⟩)
      obtain rfl := Option.some.inj (hv.symm.trans hw)
      exact hle

variable {A B U : List Nat}

theorem length_add_length_le (hA : A.Nodup) (hB : B.Nodup) (hAU : A ⊆ U) (hBU : B ⊆ U) (h : ∀ x ∈ A, x ∉ B) :
    A.length + B.length ≤ U.length := by
  rw [← List.length_append]
  refine (List.subperm_of_subset (List.Nodup.append hA hB fun x hx hx' => h x hx hx') ?_).length_le
  exact List.append_subset.2 ⟨hAU, hBU⟩

/-- Two sets of places that together outnumber all places have one in common. -/
theorem exists_mem_of_length_lt (hA : A.Nodup) (hB : B.Nodup) (hAU : A ⊆ U) (hBU : B ⊆ U)
    (h : U.length < A.length + B.length) : ∃ x ∈ A, x ∈ B := by
  by_contra hd
  push Not at hd
  exact absurd (length_add_length_le hA hB hAU hBU hd) (Nat.not_le.2 h)

theorem length_le_filter_mem (hA : A.Nodup) (hB : B.Nodup) (hAU : A ⊆ U) (hBU : B ⊆ U) :
    A.length + B.length ≤ (A.filter (· ∈ B)).length + U.length := by
  have hd := length_add_length_le (hA.filter (¬ · ∈ B)) hB (fun x hx => hAU (List.mem_filter.1 hx).1) hBU
    fun x hx => by simpa using (List.mem_filter.1 hx).2
  have hs := List.length_eq_length_filter_add (l := A) (· ∈ B)
  simp only [decide_not] at hd
  omega

end SynodStore

import Mathlib.Data.Set.Card
import SynodStore.Proofs.Firmness

namespace SynodStore.Acceptor

/-- The acceptor with an entry for the key, which is empty if there was none. -/
def enter (key : String) (a : Acceptor) : Acceptor :=
  a.update key (a.slot key)

def Tidy (a : Acceptor) : Prop :=
  ∀ k s, a.slot? k = some s → s.promised.isSome ∨ s.accepted.isSome

def Operation.isRequest : Operation → Bool
  | clear _ => false
  | _ => true

variable {a a' : Acceptor} {id : UInt32} {k key : String} {o : Operation} {history earlier : List Operation}

theorem ext_slot? (hid : a.id = a'.id) (h : ∀ k, a.slot? k = a'.slot? k) : a = a' := by
  obtain ⟨id, slots⟩ := a
  obtain ⟨id', slots'⟩ := a'
  obtain rfl : id = id' := hid
  obtain rfl : slots = slots' := Std.ExtTreeMap.ext_getElem? h
  rfl

theorem update_update (s t : Slot) : (a.update key s).update key t = a.update key t := by
  refine ext_slot? rfl fun k => ?_
  by_cases hk : key = k
  · subst k
    rw [slot?_update_self, slot?_update_self]
  · rw [slot?_update_of_ne hk, slot?_update_of_ne hk, slot?_update_of_ne hk]

theorem enter_of_isSome (h : (a.slot? key).isSome) : a.enter key = a := by
  refine ext_slot? rfl fun k => ?_
  by_cases hk : key = k
  · subst k
    obtain ⟨s, hs⟩ := Option.isSome_iff_exists.1 h
    rw [enter, slot?_update_self, slot, hs, Option.getD_some]
  · rw [enter, slot?_update_of_ne hk]

theorem slot_enter (key : String) : (a.enter key).slot key = a.slot key :=
  slot_update_self key _

theorem perform_of_refused (ho : o.isRequest) (h : (a.perform o).1.granted = false) : (a.perform o).2 = a := by
  cases o with
  | prepare m => exact prepare_of_refused (Option.not_isSome_iff_eq_none.1 (Bool.not_eq_true _ ▸ h))
  | accept m => exact accept_of_refused (Option.not_isSome_iff_eq_none.1 (Bool.not_eq_true _ ▸ h))
  | clear key => cases ho

theorem used_of_granted (h : (a.perform o).1.granted) :
    ∃ s, (a.perform o).2.slot? o.key = some s ∧ (s.promised.isSome ∨ s.accepted.isSome) := by
  cases o with
  | prepare m =>
      obtain ⟨p, hp⟩ := Option.isSome_iff_exists.1 h
      exact ⟨_, (slot?_prepare hp).2, .inl rfl⟩
  | accept m =>
      obtain ⟨v, hv⟩ := Option.isSome_iff_exists.1 h
      exact ⟨_, (slot?_accept hv).2, .inr rfl⟩
  | clear key => cases h

theorem granted_of_eq_none (ho : o.isRequest) (h : a.slot? o.key = none) : (a.perform o).1.granted := by
  have hslot : a.slot o.key = .fresh := by rw [slot, h, Option.getD_none]
  cases o with
  | prepare m => simp_all [perform, prepare, Operation.key, Slot.fresh, Slot.admitsPrepare, Outcome.granted]
  | accept m => simp_all [perform, accept, Operation.key, Slot.fresh, Slot.admitsAccept, Outcome.granted]
  | clear key => cases ho

theorem isSome_of_refused (ho : o.isRequest) (h : (a.perform o).1.granted = false) : (a.slot? o.key).isSome := by
  by_contra hnone
  rw [granted_of_eq_none ho (Option.not_isSome_iff_eq_none.1 hnone)] at h
  cases h

/-- It makes no difference whether the entry is made before a request is decided, or only when it is granted. -/
theorem perform_enter (ho : o.isRequest) : (a.enter o.key).perform o = a.perform o := by
  cases h : (a.perform o).1.granted with
  | false => rw [enter_of_isSome (isSome_of_refused ho h)]
  | true =>
      cases o with
      | prepare m =>
          simp only [perform, prepare, Operation.key, slot_enter] at h ⊢
          split
          · rw [enter, update_update]
          · simp_all [Outcome.granted]
      | accept m =>
          simp only [perform, accept, Operation.key, slot_enter] at h ⊢
          split
          · rw [enter, update_update]
          · simp_all [Outcome.granted]
      | clear key => cases ho

theorem Tidy.perform (h : a.Tidy) (o : Operation) : (a.perform o).2.Tidy := by
  intro k s hs
  by_cases hk : o.key = k
  · subst k
    cases ho : o.isRequest with
    | false =>
        cases o with
        | clear key => cases slot?_clear_self.symm.trans hs
        | _ => cases ho
    | true =>
        cases hg : (a.perform o).1.granted with
        | false =>
            rw [perform_of_refused ho hg] at hs
            exact h _ s hs
        | true =>
            obtain ⟨t, ht, hused⟩ := used_of_granted hg
            obtain rfl := Option.some.inj (ht.symm.trans hs)
            exact hused
  · rw [slot?_perform_of_ne hk] at hs
    exact h k s hs

theorem tidy_after (id : UInt32) (history : List Operation) : (after id history).Tidy := by
  induction history with
  | nil =>
      intro k s hs
      cases (slot?_fresh id).symm.trans hs
  | cons o earlier ih => exact ih.perform o

theorem grants_of_ne (h : o.key ≠ k) : grants id k (o :: earlier) = grants id k earlier := by
  cases o <;> simp_all [grants, Operation.key]

theorem grants_request (ho : o.isRequest) :
    grants id o.key (o :: earlier) =
      if ((after id earlier).perform o).1.granted then ((after id earlier).perform o).1 :: grants id o.key earlier
      else grants id o.key earlier := by
  cases o with
  | clear key => cases ho
  | _ => simp [grants]

theorem isSome_slot?_after (id : UInt32) (k : String) (history : List Operation) :
    ((after id history).slot? k).isSome ↔ grants id k history ≠ [] := by
  induction history with
  | nil => simp [after, slot?_fresh, grants]
  | cons o earlier ih =>
      rw [after_cons]
      by_cases hk : o.key = k
      · subst k
        cases ho : o.isRequest with
        | false =>
            cases o with
            | clear key => simp [perform, Operation.key, slot?_clear_self, grants]
            | _ => cases ho
        | true =>
            rw [grants_request ho]
            cases hg : ((after id earlier).perform o).1.granted with
            | false => simpa [perform_of_refused ho hg] using ih
            | true =>
                obtain ⟨s, hs, -⟩ := used_of_granted hg
                simp [hs]
      · rw [slot?_perform_of_ne hk, grants_of_ne hk, ih]

theorem encard_isSome_slot? (a : Acceptor) : {k | (a.slot? k).isSome}.encard = a.tracked := by
  have hkeys : {k | (a.slot? k).isSome} = a.slots.keys.toFinset := by
    rw [List.coe_toFinset]
    exact Set.ext fun k => Std.ExtTreeMap.isSome_getElem?_iff_mem.trans Std.ExtTreeMap.mem_keys.symm
  rw [hkeys, Set.encard_coe_eq_coe_finsetCard, List.toFinset_card_of_nodup Std.ExtTreeMap.nodup_keys,
    Std.ExtTreeMap.length_keys, tracked]

/-- An acceptor has no empty entries, and has one for just the keys for which it granted something since they were last
cleared. A request that it refuses leaves all entries as they were, even if one is made for its key before it is
decided. -/
theorem tracks_granted (id : UInt32) (history : List Operation) :
    let a := after id history
    (∀ k s, a.slot? k = some s → s.promised.isSome ∨ s.accepted.isSome) ∧
    {k | grants id k history ≠ []}.encard = a.tracked ∧
    ∀ o : Operation, o.isRequest → (a.enter o.key).perform o = a.perform o ∧
      ((a.perform o).1.granted = false → (a.perform o).2 = a) := by
  intro a
  refine ⟨tidy_after id history, ?_, fun o ho => ⟨perform_enter ho, perform_of_refused ho⟩⟩
  rw [← encard_isSome_slot?]
  simp only [a, isSome_slot?_after]

/-- Of three keys one was cleared and one was asked for anew after that, so that two have an entry. -/
theorem tracks_granted_cleared :
    let history : List Operation := [.accept ⟨⟨4⟩, 0, .put "i" "v"⟩, .prepare ⟨⟨5⟩, "i", 1⟩, .clear "j", .clear "i",
      .accept ⟨⟨9⟩, 1, .delete "k"⟩, .accept ⟨⟨7⟩, 1, .put "j" "w"⟩, .prepare ⟨⟨8⟩, "i", 0⟩]
    let a := after 0 history
    let late : Operation := .prepare ⟨⟨5⟩, "i", 0⟩
    {k | grants 0 k history ≠ []}.encard = 2 ∧ a.slot? "k" = some ⟨none, some ⟨⟨9⟩, .delete "k"⟩⟩ ∧
      ((none : Option Ballot).isSome ∨ (some (⟨⟨9⟩, .delete "k"⟩ : Vote)).isSome) ∧
      late.isRequest ∧ (a.perform late).1.granted = false ∧ ((a.enter "i").perform late).2 = a := by
  intro history a late
  obtain ⟨hused, hcount, hrequest⟩ := tracks_granted 0 history
  have hslot : a.slot? "k" = some ⟨none, some ⟨⟨9⟩, .delete "k"⟩⟩ := by decide +kernel
  have htracked : a.tracked = 2 := by decide +kernel
  have hrefused : (a.perform late).1.granted = false := by decide +kernel
  obtain ⟨henter, hsame⟩ := hrequest late rfl
  refine ⟨by rw [hcount, htracked]; rfl, hslot, hused "k" _ hslot, rfl, hrefused, ?_⟩
  exact (congrArg Prod.snd henter).trans (hsame hrefused)

end SynodStore.Acceptor

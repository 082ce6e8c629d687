import SynodStore.Proofs.Generations
import SynodStore.Proofs.Lineup

namespace SynodStore.Acceptor

/-- An acceptor that starts empty, after the operations. The latest stands first. -/
def after (id : UInt32) (history : List Operation) : Acceptor :=
  history.foldr (fun o a => (a.perform o).2) (fresh id)

namespace Outcome

def granted : Outcome → Bool
  | promise answer => answer.isSome
  | vote answer => answer.isSome
  | cleared => false

def vote? : Outcome → Option Vote
  | vote answer => answer
  | _ => none

end Outcome

/-- What the acceptor granted for the key since it was last cleared, the latest first. -/
def grants (id : UInt32) (k : String) : List Operation → List Outcome
  | [] => []
  | .clear key :: earlier => if key = k then [] else grants id k earlier
  | o :: earlier =>
    let outcome := ((after id earlier).perform o).1
    if o.key = k ∧ outcome.granted then outcome :: grants id k earlier else grants id k earlier

def votes (id : UInt32) (k : String) (history : List Operation) : List Vote :=
  (grants id k history).filterMap Outcome.vote?

def Excludes (k : String) (b : Ballot) (a : Acceptor) : Prop :=
  (∀ m, m.key = k → m.ballot < b → (a.prepare m).1 = none) ∧
    ∀ m, m.action.key = k → m.ballot < b → (a.accept m).1 = none

/-- The vote that is held is the highest one cast, and no vote cast leaves room for a lower ballot. -/
structure Ascends (id : UInt32) (k : String) (history : List Operation) : Prop where
  highest : ∀ v ∈ votes id k history, ∃ u ∈ ((after id history).slot k).accepted, v.ballot ≤ u.ballot
  excludes : ∀ v ∈ votes id k history, (after id history).Excludes k v.ballot

/-- Each vote for the key was cast under the very ballot promised for it, or under the lowest ballot there is. -/
def Firm (id : UInt32) (k : String) (history : List Operation) : Prop :=
  ∀ m earlier, .accept m :: earlier <:+ history → m.action.key = k → ((after id earlier).accept m).1.isSome →
    m.ballot.packed = 0 ∨ ((after id earlier).slot k).promised = some m.ballot

variable {a : Acceptor} {id : UInt32} {k : String} {b : Ballot} {history earlier : List Operation}

theorem after_cons (o : Operation) : after id (o :: earlier) = ((after id earlier).perform o).2 := rfl

theorem bound_iff : a.Bound k b ↔ ∃ b' ∈ (a.slot k).promised, b ≤ b' := by
  refine ⟨Bound.promised, ?_⟩
  rintro ⟨b', hb', hle⟩
  cases hs : a.slot? k with
  | none =>
      rw [slot, hs] at hb'
      cases hb'
  | some s =>
      rw [slot, hs] at hb'
      exact ⟨s, hs, b', hb', hle⟩

theorem excludes_iff : a.Excludes k b ↔ b.packed = 0 ∨ a.Bound k b := by
  constructor
  · intro h
    by_contra hn
    obtain ⟨hzero, hbound⟩ := not_or.1 hn
    have hlower : ∃ b' < b, (a.slot k).admitsAccept b' := by
      cases hp : (a.slot k).promised with
      | none => exact ⟨⟨0⟩, UInt64.pos_iff_ne_zero.2 hzero, by simp [Slot.admitsAccept, hp]⟩
      | some b' =>
          have hlt : b' < b := Ballot.not_le.1 fun hle => hbound (bound_iff.2 ⟨b', hp, hle⟩)
          exact ⟨b', hlt, by simp [Slot.admitsAccept, hp]⟩
    obtain ⟨b', hlt, ha⟩ := hlower
    have hgranted : (a.accept ⟨b', 0, .delete k⟩).1 = some ⟨b', .delete k⟩ :=
      (reply_accept _).trans (congrArg Prod.fst (if_pos ha))
    cases hgranted.symm.trans (h.2 ⟨b', 0, .delete k⟩ rfl hlt)
  · rintro (hzero | hbound)
    · have hnone {b' : Ballot} : ¬ b' < b := by
        rw [Ballot.lt_def, hzero]
        exact UInt64.not_lt_zero
      exact ⟨fun _ _ hlt => absurd hlt hnone, fun _ _ hlt => absurd hlt hnone⟩
    · constructor
      · rintro m rfl hlt
        exact hbound.refuses_prepare hlt.le
      · rintro m rfl hlt
        exact hbound.refuses_accept hlt

theorem slot_of_slot? {a' : Acceptor} (h : a'.slot? k = a.slot? k) : a'.slot k = a.slot k := by
  rw [slot, h, slot]

theorem accepted_prepare (m : Prepare) (k : String) : ((a.prepare m).2.slot k).accepted = (a.slot k).accepted := by
  by_cases hk : m.key = k
  · subst k
    rw [slot_prepare, Slot.prepare]
    split <;> rfl
  · rw [slot_of_slot? (slot?_prepare_of_ne hk)]

theorem promised_accept (m : Proposal) :
    ((a.accept m).2.slot m.action.key).promised = (a.slot m.action.key).promised := by
  rw [slot_accept, Slot.accept]
  split <;> rfl

theorem votes_of_ne {o : Operation} (h : o.key ≠ k) : votes id k (o :: earlier) = votes id k earlier := by
  cases o <;> simp_all [votes, grants, Operation.key]

theorem votes_clear : votes id k (.clear k :: earlier) = [] := by
  simp [votes, grants]

theorem votes_prepare (m : Prepare) : votes id k (.prepare m :: earlier) = votes id k earlier := by
  simp only [votes, grants]
  rw [apply_ite (List.filterMap Outcome.vote?), List.filterMap_cons_none rfl, ite_self]

theorem votes_accept (m : Proposal) :
    votes id m.action.key (.accept m :: earlier) =
      ((after id earlier).accept m).1.toList ++ votes id m.action.key earlier := by
  cases hv : ((after id earlier).accept m).1 <;>
    simp [votes, grants, Operation.key, perform, Outcome.granted, Outcome.vote?, hv]

theorem accepted_after (id : UInt32) (k : String) (history : List Operation) :
    ((after id history).slot k).accepted = (votes id k history).head? := by
  induction history with
  | nil => rfl
  | cons o earlier ih =>
      by_cases hk : o.key = k
      · subst k
        cases o with
        | prepare m => rw [votes_prepare, ← ih, after_cons, perform, accepted_prepare]
        | accept m =>
            rw [Operation.key, votes_accept, after_cons, perform, slot_accept, reply_accept, Slot.accept]
            split
            · rfl
            · exact ih
        | clear key => rw [Operation.key, votes_clear, after_cons, perform, slot_clear_self]; rfl
      · rw [votes_of_ne hk, ← ih, after_cons, slot_of_slot? (slot?_perform_of_ne hk)]

namespace Firm

variable {o : Operation}

theorem tail (h : Firm id k (o :: earlier)) : Firm id k earlier :=
  fun m e he => h m e (he.trans (List.suffix_cons o earlier))

theorem bound (h : Firm id k history) :
    ∀ v ∈ votes id k history, v.ballot.packed = 0 ∨ (after id history).Bound k v.ballot := by
  induction history with
  | nil => exact fun v hv => absurd hv List.not_mem_nil
  | cons o earlier ih =>
      intro v hv
      by_cases hk : o.key = k
      · subst k
        cases o with
        | prepare m =>
            rw [votes_prepare] at hv
            exact (ih h.tail v hv).imp_right (·.prepare m)
        | accept m =>
            rw [Operation.key, votes_accept, List.mem_append, Option.mem_toList] at hv
            rcases hv with hv | hv
            · obtain ⟨rfl, -⟩ := slot?_accept hv
              refine (h m earlier List.suffix_rfl rfl (Option.isSome_of_mem hv)).imp_right fun hp => ?_
              exact (bound_iff.2 ⟨_, hp, le_rfl⟩).accept m
            · exact (ih h.tail v hv).imp_right (·.accept m)
        | clear key =>
            rw [Operation.key, votes_clear] at hv
            exact absurd hv List.not_mem_nil
      · rw [votes_of_ne hk] at hv
        exact (ih h.tail v hv).imp_right (·.of_slot? (slot?_perform_of_ne hk))

theorem excludes (h : Firm id k history) : ∀ v ∈ votes id k history, (after id history).Excludes k v.ballot :=
  fun v hv => excludes_iff.2 (h.bound v hv)

theorem highest (h : Firm id k history) :
    ∀ v ∈ votes id k history, ∃ u ∈ (votes id k history).head?, v.ballot ≤ u.ballot := by
  induction history with
  | nil => exact fun v hv => absurd hv List.not_mem_nil
  | cons o earlier ih =>
      have ih := ih h.tail
      by_cases hk : o.key = k
      · subst k
        cases o with
        | prepare m => rwa [votes_prepare]
        | accept m =>
            rw [Operation.key, votes_accept]
            cases hm : ((after id earlier).accept m).1 with
            | none => exact ih
            | some u =>
                obtain ⟨rfl, -⟩ := slot?_accept hm
                intro v hv
                refine ⟨m.vote, rfl, ?_⟩
                rcases List.mem_cons.1 hv with rfl | hv
                · exact le_rfl
                · by_contra hlt
                  cases hm.symm.trans ((h.tail.excludes v hv).2 m rfl (Ballot.not_le.1 hlt))
        | clear key =>
            rw [Operation.key, votes_clear]
            exact fun v hv => absurd hv List.not_mem_nil
      · rwa [votes_of_ne hk]

theorem ascends (h : Firm id k history) : Ascends id k history where
  highest := accepted_after id k history ▸ h.highest
  excludes := h.excludes

end Firm

theorem promised_of_excludes {m : Proposal} (hm : (a.accept m).1.isSome)
    (h : (a.accept m).2.Excludes m.action.key m.ballot) :
    m.ballot.packed = 0 ∨ (a.slot m.action.key).promised = some m.ballot := by
  refine (excludes_iff.1 h).imp_right fun hbound => ?_
  obtain ⟨b, hb, hle⟩ := hbound.promised
  rw [promised_accept] at hb
  rw [reply_accept, Slot.accept] at hm
  split at hm
  · rename_i ha
    have hge : b ≤ m.ballot := by simpa [Slot.admitsAccept, hb] using ha
    rw [hb, le_antisymm hge hle]
  · cases hm

/-- What is held for a key is the last vote cast for it, and promises report it. It is the highest, and shuts out all
lower ballots, at all points of a history in which the votes were firm, and of no other history. -/
theorem ascends_iff_firm (id : UInt32) (k : String) (history : List Operation) :
    ((after id history).slot k).accepted = (votes id k history).head? ∧
    (∀ m p, m.key = k → ((after id history).prepare m).1 = some p → p.accepted = (votes id k history).head?) ∧
    ((∀ earlier, earlier <:+ history → Ascends id k earlier) ↔ Firm id k history) := by
  refine ⟨accepted_after id k history, ?_, ?_, ?_⟩
  · rintro m p rfl hp
    rw [← accepted_after, (slot?_prepare hp).1]
  · rintro h m earlier hsuffix rfl hm
    refine promised_of_excludes hm ?_
    have hcast : m.vote ∈ votes id m.action.key (.accept m :: earlier) := by
      obtain ⟨v, hv⟩ := Option.isSome_iff_exists.1 hm
      obtain ⟨rfl, -⟩ := slot?_accept hv
      simp [votes_accept, hv]
    exact (h _ hsuffix).excludes m.vote hcast
  · intro h earlier hsuffix
    exact Firm.ascends fun m e he => h m e (he.trans hsuffix)

/-- Another value is voted for under a higher ballot, after this ballot was promised. -/
theorem ascends_iff_firm_raised :
    let history : List Operation := [.accept ⟨⟨8⟩, 2, .put "k" "w"⟩, .prepare ⟨⟨8⟩, "k", 2⟩,
      .accept ⟨⟨5⟩, 1, .put "k" "v"⟩, .prepare ⟨⟨5⟩, "k", 1⟩]
    let asked := (after 0 history).prepare ⟨⟨9⟩, "k", 1⟩
    let promise : Promise := ⟨⟨9⟩, some ⟨⟨8⟩, .put "k" "w"⟩⟩
    Firm 0 "k" history ∧ Ascends 0 "k" history ∧ asked.1 = some promise ∧
      promise.accepted = (votes 0 "k" history).head? := by
  intro history asked promise
  have hfirm : Firm 0 "k" history := by
    intro m earlier hsuffix _ _
    simp only [history, List.suffix_cons_iff, List.suffix_nil, List.cons.injEq, reduceCtorEq, false_and, or_false,
      false_or, Operation.accept.injEq] at hsuffix
    rcases hsuffix with ⟨rfl, rfl⟩ | ⟨rfl, rfl⟩ <;> exact .inr (by decide +kernel)
  have hasked : asked.1 = some promise := by decide +kernel
  obtain ⟨-, hreports, hiff⟩ := ascends_iff_firm 0 "k" history
  exact ⟨hfirm, hiff.2 hfirm history List.suffix_rfl, hasked, hreports _ promise rfl hasked⟩

/-- A vote cast without a promise does not keep a lower one from taking its place. -/
theorem not_ascends_lowered :
    ¬ Ascends 0 "k" [.accept ⟨⟨48⟩, 0, .put "k" "w"⟩, .accept ⟨⟨80⟩, 0, .put "k" "v"⟩] := by
  intro h
  have hcast : ⟨⟨80⟩, .put "k" "v"⟩ ∈
      votes 0 "k" [.accept ⟨⟨48⟩, 0, .put "k" "w"⟩, .accept ⟨⟨80⟩, 0, .put "k" "v"⟩] := by
    decide +kernel
  obtain ⟨u, hu, hle⟩ := h.highest _ hcast
  rw [accepted_after] at hu
  obtain rfl : u = ⟨⟨48⟩, .put "k" "w"⟩ := Option.some.inj (hu.symm.trans (by decide +kernel))
  exact absurd hle (by decide)

end SynodStore.Acceptor

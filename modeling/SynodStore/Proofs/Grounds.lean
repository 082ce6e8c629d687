import SynodStore.Proofs.Trace

namespace SynodStore

open Scenario (Fate)

variable {β : Type}

namespace Round

/-- Each of the things that the answers of a phase can lead to, and when. -/
inductive Conclusion (c : Config) (r : Round) (answers : List Answer) : Progress → Prop
  | unpromised (hr : r.stage = .prepare) (h : (answers.filterMap Answer.promise?).length < c.majority) :
      Conclusion c r answers
        (.finished (.error (.quorumNotReached .prepare (answers.filterMap Answer.promise?).length c.majority)))
  | promised (hr : r.stage = .prepare) (h : c.majority ≤ (answers.filterMap Answer.promise?).length) :
      Conclusion c r answers
        (.ask { r with stage := .accept ((chooseValue (answers.filterMap Answer.promise?)).getD r.action) })
  | retry (value : Action) (hr : r.stage = .accept value) (hf : r.retried = false)
      (h : (answers.filterMap Answer.vote?).length < c.majority) : Conclusion c r answers .retry
  | outvoted (value : Action) (hr : r.stage = .accept value) (hf : r.retried = true) (hc : c.shortfall = .strict)
      (h : (answers.filterMap Answer.vote?).length < c.majority) :
      Conclusion c r answers
        (.finished (.error (.quorumNotReached .accept (answers.filterMap Answer.vote?).length c.majority)))
  | degraded (value : Action) (hr : r.stage = .accept value) (hf : r.retried = true) (hc : c.shortfall = .degraded)
      (h : (answers.filterMap Answer.vote?).length < c.majority) :
      Conclusion c r answers (.ask { r with
        stage := .learn value (.error (.degraded r.ballot (answers.filterMap Answer.vote?).length c.majority)) })
  | accepted (value : Action) (hr : r.stage = .accept value)
      (h : c.majority ≤ (answers.filterMap Answer.vote?).length) :
      Conclusion c r answers (.ask { r with stage := .learn value (.ok ⟨r.ballot, value⟩) })
  | announced (value : Action) (outcome : Except Failure Vote) (hr : r.stage = .learn value outcome) :
      Conclusion c r answers (.finished outcome)

theorem conclusion (c : Config) (r : Round) (answers : List Answer) :
    r.Conclusion c answers (r.conclude c answers) := by
  obtain ⟨action, ballot, retried, stage⟩ := r
  cases stage with
  | prepare =>
      simp only [conclude]
      split
      · exact .unpromised rfl ‹_›
      · exact .promised rfl (Nat.le_of_not_lt ‹_›)
  | accept value =>
      simp only [conclude, shortfall]
      split
      · cases retried with
        | false => exact .retry value rfl rfl ‹_›
        | true =>
            cases hc : c.shortfall with
            | strict => exact .outvoted value rfl rfl hc ‹_›
            | degraded => exact .degraded value rfl rfl hc ‹_›
      · exact .accepted value rfl (Nat.le_of_not_lt ‹_›)
  | learn value outcome => exact .announced value outcome rfl

variable {c : Config} {r : Round} {answers : List Answer} {value : Action}

theorem ask_accept (chosen : Option Action) (hr : r.stage = .prepare)
    (hm : c.majority ≤ (answers.filterMap Answer.promise?).length)
    (hv : chooseValue (answers.filterMap Answer.promise?) = chosen) :
    r.conclude c answers = .ask { r with stage := .accept (chosen.getD r.action) } := by
  simp only [conclude, hr, if_neg (Nat.not_lt.2 hm), hv]

theorem ask_learn (hr : r.stage = .accept value) (hm : c.majority ≤ (answers.filterMap Answer.vote?).length) :
    r.conclude c answers = .ask { r with stage := .learn value (.ok ⟨r.ballot, value⟩) } := by
  simp only [conclude, hr, if_neg (Nat.not_lt.2 hm)]

theorem retry_accept (hr : r.stage = .accept value) (hf : r.retried = false)
    (hm : (answers.filterMap Answer.vote?).length < c.majority) : r.conclude c answers = .retry := by
  simp [conclude, hr, if_pos hm, shortfall, hf]

end Round

def tally (g : Answer → Option β) (peers : List Nat) (answers : List (Option Answer)) : List (Nat × β) :=
  (peers.zip answers).filterMap fun p => (p.2.bind g).map (p.1, ·)

theorem tally_cons (g : Answer → Option β) (peer : Nat) (peers : List Nat) (a : Option Answer)
    (answers : List (Option Answer)) : tally g (peer :: peers) (a :: answers) =
      match a.bind g with
      | none => tally g peers answers
      | some y => (peer, y) :: tally g peers answers := by
  cases h : a.bind g <;> simp only [tally, List.zip_cons_cons, List.filterMap_cons, h, Option.map]

theorem tally_sublist (g : Answer → Option β) (peers : List Nat) (answers : List (Option Answer)) :
    ((tally g peers answers).map Prod.fst).Sublist peers := by
  induction peers generalizing answers with
  | nil => simp [tally]
  | cons peer peers ih =>
      cases answers with
      | nil => simp [tally]
      | cons a answers =>
          rw [tally_cons]
          cases a.bind g with
          | none => exact (ih answers).cons peer
          | some y => exact (ih answers).cons_cons peer

theorem map_snd_tally (g : Answer → Option β) {peers : List Nat} {answers : List (Option Answer)}
    (h : answers.length = peers.length) :
    (tally g peers answers).map Prod.snd = (answers.filterMap id).filterMap g := by
  induction peers generalizing answers with
  | nil => simp [tally, List.length_eq_zero_iff.1 h]
  | cons peer peers ih =>
      cases answers with
      | nil => cases h
      | cons a answers =>
          rw [tally_cons]
          cases a with
          | none => exact ih (Nat.succ.inj h)
          | some a => cases ha : g a <;> simp [ha, ih (Nat.succ.inj h)]

theorem length_tally (g : Answer → Option β) {peers : List Nat} {answers : List (Option Answer)}
    (h : answers.length = peers.length) :
    (tally g peers answers).length = ((answers.filterMap id).filterMap g).length := by
  rw [← map_snd_tally g h, List.length_map]

theorem exists_of_mem_tally {g : Answer → Option β} {peers : List Nat} {answers : List (Option Answer)}
    {x : Nat} {y : β} (h : (x, y) ∈ tally g peers answers) :
    ∃ (i : Nat) (a : Answer), peers[i]? = some x ∧ answers[i]? = some (some a) ∧ g a = some y := by
  simp only [tally, List.mem_filterMap, Option.map_eq_some_iff, Option.bind_eq_some_iff] at h
  obtain ⟨⟨x', a'⟩, hm, y', ⟨a, ha, hy⟩, he⟩ := h
  obtain ⟨rfl, rfl⟩ := Prod.mk.inj he
  obtain ⟨i, hi⟩ := List.mem_iff_getElem?.1 hm
  rw [List.getElem?_zip_eq_some] at hi
  exact ⟨i, a, hi.1, by rw [hi.2, ha], hy⟩

/-- What a proposer may come to hear of a call, given the minutes. -/
inductive Met (κ : Conditions) (L : List Minute) (n : Nat) (q : Request) (peer : Nat) : Answer → Prop
  | missed (f : Fate) (hf : κ.fate q f) (hc : f.carried = false) : Met κ L n q peer (f.answer q q.refusal)
  | served (f : Fate) (reply : Reply) (held : Option Slot) (hf : κ.fate q f) (hc : f.carried = true)
      (hm : .served n peer q reply held ∈ L) : Met κ L n q peer (f.answer q reply)

def Reached (κ : Conditions) (L : List Minute) (n : Nat) (peers : List Nat) (q : Request) : Prop :=
  ∀ peer ∈ peers, ∃ a, Met κ L n q peer a

structure Heard (κ : Conditions) (L : List Minute) (n : Nat) (peers : List Nat) (q : Request)
    (answers : List (Option Answer)) : Prop where
  length : answers.length = peers.length
  met : ∀ (i peer : Nat) (a : Answer), peers[i]? = some peer → answers[i]? = some (some a) → Met κ L n q peer a

structure Backed (L : List Minute) (n : Nat) (peers : List Nat) (q : Request) (reply : β → Reply)
    (backers : List (Nat × β)) : Prop where
  sublist : (backers.map Prod.fst).Sublist peers
  served : ∀ x ∈ backers, ∃ held, .served n x.1 q (reply x.2) held ∈ L

variable {κ : Conditions} {L L' : List Minute} {n : Nat} {q : Request} {peers : List Nat}

theorem Met.mono {peer : Nat} {a : Answer} (h : Met κ L n q peer a) (hL : L ⊆ L') : Met κ L' n q peer a := by
  cases h with
  | missed f hf hc => exact .missed f hf hc
  | served f reply held hf hc hm => exact .served f reply held hf hc (hL hm)

theorem Met.served_of_ok {peer : Nat} {reply : Reply} (h : Met κ L n q peer (.ok reply)) (hr : reply ≠ q.refusal) :
    ∃ held, .served n peer q reply held ∈ L := by
  generalize ha : (.ok reply : Answer) = a at h
  cases h with
  | missed f hf hc =>
      cases f with
      | refuse => exact absurd (Except.ok.inj ha) hr
      | fail => cases ha
      | pass => cases hc
      | lost => cases hc
  | served f reply' held hf hc hm =>
      cases f with
      | pass =>
          obtain rfl := Except.ok.inj ha
          exact ⟨held, hm⟩
      | lost => cases ha
      | refuse => cases hc
      | fail => cases hc

theorem Met.promise {peer : Nat} {a : Answer} {p : Promise} (h : Met κ L n q peer a) (hp : a.promise? = some p) :
    ∃ held, .served n peer q (.promise (some p)) held ∈ L := by
  rcases a with e | reply
  · cases hp
  · cases reply with
    | promise answer =>
        obtain rfl : answer = some p := hp
        exact h.served_of_ok (by cases q <;> simp [Request.refusal])
    | vote answer => cases hp
    | learned => cases hp

theorem Met.vote {peer : Nat} {a : Answer} {v : Vote} (h : Met κ L n q peer a) (hv : a.vote? = some v) :
    ∃ held, .served n peer q (.vote (some v)) held ∈ L := by
  rcases a with e | reply
  · cases hv
  · cases reply with
    | promise answer => cases hv
    | vote answer =>
        obtain rfl : answer = some v := hv
        exact h.served_of_ok (by cases q <;> simp [Request.refusal])
    | learned => cases hv

theorem Reached.mono (h : Reached κ L n peers q) (hL : L ⊆ L') : Reached κ L' n peers q := fun peer hp =>
  let ⟨a, ha⟩ := h peer hp
  ⟨a, ha.mono hL⟩

theorem Backed.of_served {reply : β → Reply} {backers : List (Nat × β)} (h : Backed L n peers q reply backers)
    (hL : ∀ x q reply held, .served n x q reply held ∈ L → .served n x q reply held ∈ L') :
    Backed L' n peers q reply backers := by
  refine ⟨h.sublist, ?_⟩
  intro x hx
  obtain ⟨held, hm⟩ := h.served x hx
  exact ⟨held, hL _ _ _ _ hm⟩

namespace Heard

variable {answers : List (Option Answer)}

theorem nothing (L : List Minute) : Heard κ L n peers q (peers.map fun _ => none) where
  length := List.length_map ..
  met i peer a _ ha := by
    rw [List.getElem?_map, Option.map_eq_some_iff] at ha
    obtain ⟨_, _, ha⟩ := ha
    cases ha

theorem set {i peer : Nat} {a : Answer} (h : Heard κ L n peers q answers) (hL : L ⊆ L')
    (hi : peers[i]? = some peer) (ha : Met κ L' n q peer a) : Heard κ L' n peers q (answers.set i (some a)) where
  length := by rw [List.length_set, h.length]
  met j peer' a' hj ha' := by
    by_cases hij : i = j
    · subst j
      rw [hi] at hj
      obtain rfl := Option.some.inj hj
      have hlt : i < answers.length := h.length ▸ (List.getElem?_eq_some_iff.1 hi).1
      rw [List.getElem?_set_self hlt] at ha'
      obtain rfl := Option.some.inj (Option.some.inj ha')
      exact ha
    · rw [List.getElem?_set_ne hij] at ha'
      exact (h.met j peer' a' hj ha').mono hL

theorem reached (h : Heard κ L n peers q answers) (ha : ∀ a ∈ answers, a.isSome) : Reached κ L n peers q := by
  intro peer hp
  obtain ⟨i, hi⟩ := List.mem_iff_getElem?.1 hp
  have hlt : i < answers.length := h.length ▸ (List.getElem?_eq_some_iff.1 hi).1
  obtain ⟨a, he⟩ := Option.isSome_iff_exists.1 (ha _ (List.getElem_mem hlt))
  exact ⟨a, h.met i peer a hi (by rw [List.getElem?_eq_getElem hlt, he])⟩

theorem backed_promises (h : Heard κ L n peers q answers) :
    Backed L n peers q (fun p => .promise (some p)) (tally Answer.promise? peers answers) where
  sublist := tally_sublist ..
  served := fun ⟨x, _⟩ hx =>
    let ⟨i, a, hi, ha, hp⟩ := exists_of_mem_tally hx
    (h.met i x a hi ha).promise hp

theorem backed_votes (h : Heard κ L n peers q answers) :
    Backed L n peers q (fun v => .vote (some v)) (tally Answer.vote? peers answers) where
  sublist := tally_sublist ..
  served := fun ⟨x, _⟩ hx =>
    let ⟨i, a, hi, ha, hv⟩ := exists_of_mem_tally hx
    (h.met i x a hi ha).vote hv

end Heard

end SynodStore

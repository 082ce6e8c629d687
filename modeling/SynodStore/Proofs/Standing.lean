import SynodStore.Proofs.Grounds

namespace SynodStore

open Scenario (Fate)

/-- A majority promised the session its ballot, and the promises oblige it to the value. -/
def Prepared (L : List Minute) (n : Nat) (t : Mandate) (b : Ballot) (value : Action) : Prop :=
  ∃ promises : List (Nat × Promise),
    Backed L n t.peers (.prepare ⟨b, t.action.key, t.sender⟩) (fun p => .promise (some p)) promises ∧
    t.config.majority ≤ promises.length ∧ value = (chooseValue (promises.map Prod.snd)).getD t.action

def Accepted (L : List Minute) (n : Nat) (t : Mandate) (b : Ballot) (value : Action) : Prop :=
  ∃ votes : List (Nat × Vote),
    Backed L n t.peers (.accept ⟨b, t.sender, value⟩) (fun v => .vote (some v)) votes ∧
    t.config.majority ≤ votes.length

def Mandate.Announcing (t : Mandate) (b : Ballot) (value : Action) (outcome : Except Failure Vote) : Prop :=
  outcome = .ok ⟨b, value⟩ ∨
    t.config.shortfall = .degraded ∧ ∃ votes, outcome = .error (.degraded b votes t.config.majority)

def Stage.Grounds (L : List Minute) (n : Nat) (t : Mandate) (b : Ballot) : Stage → Prop
  | .prepare => True
  | .accept value => Prepared L n t b value
  | .learn value outcome =>
    Prepared L n t b value ∧ .called n (.accept ⟨b, t.sender, value⟩) ∈ L ∧ t.Announcing b value outcome ∧
      (outcome = .ok ⟨b, value⟩ → Accepted L n t b value)

/-- Where a session stands that is at its calls. -/
structure Running (κ : Conditions) (L : List Minute) (n : Nat) (t : Mandate) (round : Round)
    (answers : List (Option Answer)) : Prop where
  action : round.action = t.action
  called : .called n (round.request t.sender) ∈ L
  heard : Heard κ L n t.peers (round.request t.sender) answers
  grounds : round.stage.Grounds L n t round.ballot
  reached : ∀ q, .called n q ∈ L → q = round.request t.sender ∨ Reached κ L n t.peers q
  announced : ∀ m, .called n (.learn m) ∈ L → round.request t.sender = .learn m

structure Over (κ : Conditions) (L : List Minute) (n : Nat) (t : Mandate) (outcome : Except Failure Vote) :
    Prop where
  reached : ∀ q, .called n q ∈ L → Reached κ L n t.peers q
  grounds : ∀ d, outcome = .ok d → Stage.Grounds L n t d.ballot (.learn d.action (.ok d))
  announced : ∀ m, .called n (.learn m) ∈ L → t.Announcing m.ballot m.action outcome

def Session.Stands (κ : Conditions) (L : List Minute) (n : Nat) (s : Session) : Prop :=
  match s.status with
  | .running round answers => Running κ L n s.mandate round answers
  | .returned outcome => Over κ L n s.mandate outcome

variable {κ : Conditions} {L L' : List Minute} {n : Nat} {t : Mandate} {b : Ballot} {value : Action}
variable {round : Round} {answers : List (Option Answer)}

theorem Prepared.of_served (h : Prepared L n t b value)
    (hL : ∀ x q reply held, .served n x q reply held ∈ L → .served n x q reply held ∈ L') :
    Prepared L' n t b value := by
  obtain ⟨promises, hb, hm, hv⟩ := h
  exact ⟨promises, hb.of_served hL, hm, hv⟩

theorem Prepared.mono (h : Prepared L n t b value) (hL : L ⊆ L') : Prepared L' n t b value :=
  h.of_served fun _ _ _ _ hm => hL hm

theorem Accepted.mono (h : Accepted L n t b value) (hL : L ⊆ L') : Accepted L' n t b value := by
  obtain ⟨votes, hb, hm⟩ := h
  exact ⟨votes, hb.of_served fun _ _ _ _ hm => hL hm, hm⟩

theorem Stage.Grounds.mono {s : Stage} (h : s.Grounds L n t b) (hL : L ⊆ L') : s.Grounds L' n t b := by
  cases s with
  | prepare => trivial
  | accept value => exact Prepared.mono h hL
  | learn value outcome =>
      obtain ⟨hp, hc, ha, hv⟩ := h
      exact ⟨hp.mono hL, hL hc, ha, fun ho => (hv ho).mono hL⟩

namespace Round

variable {sender : UInt32} {m : Proposal}

theorem request_eq_learn (h : round.request sender = .learn m) :
    ∃ outcome, round.stage = .learn m.action outcome ∧ round.ballot = m.ballot ∧ sender = m.sender := by
  obtain ⟨action, ballot, retried, stage⟩ := round
  cases stage <;> cases h
  exact ⟨_, rfl, rfl, rfl⟩

theorem request_eq_accept (h : round.request sender = .accept m) :
    round.stage = .accept m.action ∧ round.ballot = m.ballot ∧ sender = m.sender := by
  obtain ⟨action, ballot, retried, stage⟩ := round
  cases stage <;> cases h
  exact ⟨rfl, rfl, rfl⟩

theorem ballot_request : (round.request sender).ballot = round.ballot := by
  obtain ⟨action, ballot, retried, stage⟩ := round
  cases stage <;> rfl

end Round

namespace Running

theorem facing (ha : round.action = t.action) (hg : round.stage.Grounds L n t round.ballot)
    (hr : ∀ q, .called n q ∈ L → Reached κ L n t.peers q) (hn : ∀ m, .called n (.learn m) ∉ L) :
    Running κ (.called n (round.request t.sender) :: L) n t round (t.peers.map fun _ => none) where
  action := ha
  called := List.mem_cons_self
  heard := .nothing _
  grounds := hg.mono (List.subset_cons_self _ _)
  reached q hq := by
    rcases List.mem_cons.1 hq with hq | hq
    · cases hq
      exact .inl rfl
    · exact .inr ((hr q hq).mono (List.subset_cons_self _ _))
  announced m hm := by
    rcases List.mem_cons.1 hm with hm | hm
    · exact (Minute.called.inj hm).2.symm
    · exact absurd hm (hn m)

theorem hear {i peer : Nat} {a : Answer} {e : Option Minute} (h : Running κ L n t round answers)
    (he : ∀ q, some (.called n q) ≠ e) (hi : t.peers[i]? = some peer)
    (ha : Met κ (e.toList ++ L) n (round.request t.sender) peer a) :
    Running κ (e.toList ++ L) n t round (answers.set i (some a)) := by
  have hL : L ⊆ e.toList ++ L := List.subset_append_right _ _
  have hc : ∀ q, .called n q ∈ e.toList ++ L → .called n q ∈ L := fun q hq => by
    rcases List.mem_append.1 hq with hq | hq
    · exact absurd (Option.mem_toList.1 hq).symm (he q)
    · exact hq
  exact {
    action := h.action
    called := hL h.called
    heard := h.heard.set hL hi ha
    grounds := h.grounds.mono hL
    reached := fun q hq => (h.reached q (hc q hq)).imp_right (·.mono hL)
    announced := fun m hm => h.announced m (hc _ hm) }

theorem reached_all (h : Running κ L n t round answers) (ha : ∀ a ∈ answers, a.isSome) :
    ∀ q, .called n q ∈ L → Reached κ L n t.peers q := by
  intro q hq
  rcases h.reached q hq with rfl | hq
  · exact h.heard.reached ha
  · exact hq

theorem not_announced (h : Running κ L n t round answers) (hs : ∀ value outcome, round.stage ≠ .learn value outcome)
    (m : Proposal) : .called n (.learn m) ∉ L := by
  intro hm
  obtain ⟨outcome, hl, _⟩ := Round.request_eq_learn (h.announced m hm)
  exact hs _ _ hl

theorem prepared (h : Running κ L n t round answers) (hr : round.stage = .prepare)
    (hm : t.config.majority ≤ ((answers.filterMap id).filterMap Answer.promise?).length) :
    Prepared L n t round.ballot
      ((chooseValue ((answers.filterMap id).filterMap Answer.promise?)).getD round.action) := by
  refine ⟨tally Answer.promise? t.peers answers, ?_, ?_, ?_⟩
  · simpa only [Round.request, hr, h.action] using h.heard.backed_promises
  · rwa [length_tally _ h.heard.length]
  · rw [map_snd_tally _ h.heard.length, h.action]

theorem accepted (h : Running κ L n t round answers) (hr : round.stage = .accept value)
    (hm : t.config.majority ≤ ((answers.filterMap id).filterMap Answer.vote?).length) :
    Accepted L n t round.ballot value := by
  refine ⟨tally Answer.vote? t.peers answers, ?_, ?_⟩
  · simpa only [Round.request, hr] using h.heard.backed_votes
  · rwa [length_tally _ h.heard.length]

theorem ask {next : Round} (h : Running κ L n t round answers) (ha : ∀ a ∈ answers, a.isSome)
    (hn : round.conclude t.config (answers.filterMap id) = .ask next) :
    Running κ (.called n (next.request t.sender) :: L) n t next (t.peers.map fun _ => none) := by
  have hc := round.conclusion t.config (answers.filterMap id)
  rw [hn] at hc
  have hs := h.grounds
  have hq := h.called
  cases hc with
  | promised hr hm => exact .facing h.action (h.prepared hr hm) (h.reached_all ha) (h.not_announced (by simp [hr]))
  | degraded value hr hf hd hm =>
      simp only [hr, Stage.Grounds, Round.request] at hs hq
      refine .facing h.action ⟨hs, hq, .inr ⟨hd, _, rfl⟩, ?_⟩ (h.reached_all ha) (h.not_announced (by simp [hr]))
      intro ho
      cases ho
  | accepted value hr hm =>
      simp only [hr, Stage.Grounds, Round.request] at hs hq
      exact .facing h.action ⟨hs, hq, .inl rfl, fun _ => h.accepted hr hm⟩ (h.reached_all ha)
        (h.not_announced (by simp [hr]))

theorem retry (h : Running κ L n t round answers) (ha : ∀ a ∈ answers, a.isSome)
    (hn : round.conclude t.config (answers.filterMap id) = .retry) (b : Ballot) :
    Running κ (.called n ((Round.second round.action b).request t.sender) :: L) n t (.second round.action b)
      (t.peers.map fun _ => none) := by
  have hc := round.conclusion t.config (answers.filterMap id)
  rw [hn] at hc
  cases hc with
  | retry value hr hf hm => exact .facing h.action trivial (h.reached_all ha) (h.not_announced (by simp [hr]))

end Running

namespace Over

theorem failed {failure : Failure} (hr : ∀ q, .called n q ∈ L → Reached κ L n t.peers q)
    (hn : ∀ m, .called n (.learn m) ∉ L) : Over κ (.closed n (.error failure) :: L) n t (.error failure) where
  reached q hq := by
    rcases List.mem_cons.1 hq with hq | hq
    · cases hq
    · exact (hr q hq).mono (List.subset_cons_self _ _)
  grounds d hd := by cases hd
  announced m hm := by
    rcases List.mem_cons.1 hm with hm | hm
    · cases hm
    · exact absurd hm (hn m)

theorem announcing {outcome : Except Failure Vote} (h : Running κ L n t round answers)
    (ha : ∀ a ∈ answers, a.isSome) (hr : round.stage = .learn value outcome) :
    Over κ (.closed n outcome :: L) n t outcome := by
  have hg := h.grounds
  simp only [hr, Stage.Grounds] at hg
  obtain ⟨hp, hc, ho, hv⟩ := hg
  refine ⟨?_, ?_, ?_⟩
  · intro q hq
    rcases List.mem_cons.1 hq with hq | hq
    · cases hq
    · exact (h.reached_all ha q hq).mono (List.subset_cons_self _ _)
  · intro d hd
    subst hd
    rcases ho with ho | ⟨_, _, ho⟩
    · obtain rfl := Except.ok.inj ho
      exact Stage.Grounds.mono (s := .learn value (.ok ⟨round.ballot, value⟩)) ⟨hp, hc, .inl rfl, hv⟩
        (List.subset_cons_self _ _)
    · cases ho
  · intro m hm
    rcases List.mem_cons.1 hm with hm | hm
    · cases hm
    · obtain ⟨outcome', hs, hb, -⟩ := Round.request_eq_learn (h.announced m hm)
      rw [hr] at hs
      cases hs
      exact hb ▸ ho

end Over

namespace Session

theorem Trace.stands {s : Session} (h : Trace κ n L s) : s.Stands κ L n := by
  induction h with
  | first h =>
      cases h with
      | unwired t => exact Over.failed (by simp) (by simp)
      | opened t b => exact .facing rfl trivial (by simp) (by simp)
  | @later L s s' e _ h ih =>
      cases h with
      | missed t round answers i peer f hi ha hf hc => exact ih.hear (by simp) hi (.missed f hf hc)
      | served t round answers i peer f reply held hi ha hf hc =>
          exact ih.hear (by simp) hi (.served f reply held hf hc List.mem_cons_self)
      | asked t round next answers ha hn => exact ih.ask ha hn
      | retried t round answers b ha hn => exact ih.retry ha hn b
      | stranded t round answers ha hn =>
          have hc := round.conclusion t.config (answers.filterMap id)
          rw [hn] at hc
          cases hc with
          | retry value hr hf hm => exact Over.failed (ih.reached_all ha) (ih.not_announced (by simp [hr]))
      | closed t round answers outcome ha hn =>
          have hc := round.conclusion t.config (answers.filterMap id)
          rw [hn] at hc
          cases hc with
          | unpromised hr hm => exact Over.failed (ih.reached_all ha) (ih.not_announced (by simp [hr]))
          | outvoted value hr hf hs hm => exact Over.failed (ih.reached_all ha) (ih.not_announced (by simp [hr]))
          | announced value outcome hr => exact Over.announcing ih ha hr

end Session

end SynodStore

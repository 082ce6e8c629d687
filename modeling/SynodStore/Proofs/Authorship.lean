import SynodStore.Proofs.Standing

namespace SynodStore

open Scenario (Fate)

def Request.proposal? : Request → Option Proposal
  | .prepare _ => none
  | .accept m => some m
  | .learn m => some m

def Stage.value? : Stage → Option Action
  | .prepare => none
  | .accept value => some value
  | .learn value _ => some value

theorem Round.proposal?_request (r : Round) (sender : UInt32) :
    (r.request sender).proposal? = r.stage.value?.map fun value => ⟨r.ballot, sender, value⟩ := by
  obtain ⟨action, ballot, retried, stage⟩ := r
  cases stage <;> rfl

namespace Cluster

variable {c : Cluster} {place : Nat} {p : Proposer}

theorem issued_spend (hp : c.proposers[place]? = some p) (hb : p.issuer.counter.toNat < Ballot.counterBound)
    {j : Proposer} (hj : j ∈ c.proposers) {b : Ballot} (h : j.issuer.Issued b) :
    ∃ j' ∈ (c.spend place p).proposers, j'.issuer.Issued b := by
  obtain ⟨i, hi⟩ := List.mem_iff_getElem?.1 hj
  by_cases he : place = i
  · subst i
    obtain rfl : p = j := Option.some.inj (hp.symm.trans hi)
    exact ⟨_, List.mem_set (List.getElem?_eq_some_iff.1 hp).1 _, h.advance hb⟩
  · refine ⟨j, List.mem_of_getElem? (i := i) ?_, h⟩
    rw [spend, List.getElem?_set_ne he, hi]

end Cluster

namespace Synod

/-- Every ballot belongs to one session, and carries one value there. -/
structure Authored (w : Synod) : Prop where
  bounded : ∀ p ∈ w.cluster.proposers, p.issuer.counter.toNat < Ballot.counterBound
  issued : ∀ n q, .called n q ∈ w.minutes → ∃ p ∈ w.cluster.proposers, p.issuer.Issued q.ballot
  current : ∀ (n : Nat) (t : Mandate) (round : Round) (answers : List (Option Answer)),
    w.sessions[n]? = some ⟨t, .running round answers⟩ →
    ∀ m q, .called m q ∈ w.minutes → q.ballot = round.ballot →
      m = n ∧ ∀ p ∈ q.proposal?, round.stage.value? = some p.action
  unique : ∀ n q m q', .called n q ∈ w.minutes → .called m q' ∈ w.minutes → q.ballot = q'.ballot →
    n = m ∧ ∀ p ∈ q.proposal?, ∀ p' ∈ q'.proposal?, p.action = p'.action

variable {κ : Conditions} {c : Cluster} {v w : Synod} {n : Nat} {t : Mandate} {round : Round}

namespace Authored

theorem of_same (h : Authored w) (hp : v.cluster.proposers = w.cluster.proposers)
    (hm : ∀ n q, .called n q ∈ v.minutes → .called n q ∈ w.minutes)
    (hs : ∀ (n : Nat) (t : Mandate) (round : Round) (answers : List (Option Answer)),
      v.sessions[n]? = some ⟨t, .running round answers⟩ →
      ∃ answers', w.sessions[n]? = some ⟨t, .running round answers'⟩) : Authored v where
  bounded := hp ▸ h.bounded
  issued n q hq := hp ▸ h.issued n q (hm n q hq)
  current n t round answers hn m q hq hb := by
    obtain ⟨answers', hn⟩ := hs n t round answers hn
    exact h.current n t round answers' hn m q (hm m q hq) hb
  unique n q m q' hq hq' hb := h.unique n q m q' (hm n q hq) (hm m q' hq') hb

theorem of_facing (h : Authored w) (hb : ∀ p ∈ v.cluster.proposers, p.issuer.counter.toNat < Ballot.counterBound)
    (hi : ∀ b, (∃ p ∈ w.cluster.proposers, p.issuer.Issued b) → ∃ p ∈ v.cluster.proposers, p.issuer.Issued b)
    (hn : ∃ p ∈ v.cluster.proposers, p.issuer.Issued round.ballot)
    (hown : ∀ m q, .called m q ∈ w.minutes → q.ballot = round.ballot →
      m = n ∧ ∀ p ∈ q.proposal?, round.stage.value? = some p.action)
    (hother : ∀ (m : Nat) (t' : Mandate) (r : Round) (answers : List (Option Answer)), m ≠ n →
      w.sessions[m]? = some ⟨t', .running r answers⟩ → round.ballot ≠ r.ballot)
    (hm : v.minutes = .called n (round.request t.sender) :: w.minutes)
    (hs : ∀ m, v.sessions[m]? = if m = n then some (t.facing round) else w.sessions[m]?) : Authored v := by
  have hmem {m : Nat} {q : Request} (hq : .called m q ∈ v.minutes) :
      m = n ∧ q = round.request t.sender ∨ .called m q ∈ w.minutes := by
    rw [hm] at hq
    exact (List.mem_cons.1 hq).imp_left fun he => Minute.called.inj he
  have hold {m : Nat} {q : Request} (hq : .called m q ∈ v.minutes) (he : q.ballot ≠ round.ballot) :
      .called m q ∈ w.minutes := by
    apply (hmem hq).resolve_left
    rintro ⟨-, rfl⟩
    exact he Round.ballot_request
  have hown' {m : Nat} {q : Request} (hq : .called m q ∈ v.minutes) (he : q.ballot = round.ballot) :
      m = n ∧ ∀ p ∈ q.proposal?, round.stage.value? = some p.action := by
    rcases hmem hq with ⟨rfl, rfl⟩ | hq
    · refine ⟨rfl, ?_⟩
      intro p hp
      rw [Round.proposal?_request, Option.mem_def, Option.map_eq_some_iff] at hp
      obtain ⟨value, hv, rfl⟩ := hp
      exact hv
    · exact hown m q hq he
  refine ⟨hb, ?_, ?_, ?_⟩
  · intro m q hq
    by_cases he : q.ballot = round.ballot
    · rwa [he]
    · exact hi _ (h.issued m q (hold hq he))
  · intro m t' r answers hs' m' q hq he
    rw [hs] at hs'
    split at hs'
    · subst m
      cases hs'
      exact hown' hq he
    · have hne := hother m t' r answers ‹_› hs'
      exact h.current m t' r answers hs' m' q (hold hq (he.trans_ne hne.symm)) he
  · intro m q m' q' hq hq' he
    by_cases hqb : q.ballot = round.ballot
    · obtain ⟨rfl, hv⟩ := hown' hq hqb
      obtain ⟨rfl, hv'⟩ := hown' hq' (he.symm.trans hqb)
      exact ⟨rfl, fun p hp p' hp' => Option.some.inj ((hv p hp).symm.trans (hv' p' hp'))⟩
    · exact h.unique m q m' q' (hold hq hqb) (hold hq' (he.symm.trans_ne hqb)) he

theorem of_fresh (h : Authored w) (hb : ∀ p ∈ v.cluster.proposers, p.issuer.counter.toNat < Ballot.counterBound)
    (hi : ∀ b, (∃ p ∈ w.cluster.proposers, p.issuer.Issued b) → ∃ p ∈ v.cluster.proposers, p.issuer.Issued b)
    (hn : ∃ p ∈ v.cluster.proposers, p.issuer.Issued round.ballot)
    (hf : ∀ p ∈ w.cluster.proposers, ¬ p.issuer.Issued round.ballot)
    (hc : ∀ (n : Nat) (t : Mandate) (round : Round) (answers : List (Option Answer)),
      w.sessions[n]? = some ⟨t, .running round answers⟩ → .called n (round.request t.sender) ∈ w.minutes)
    (hm : v.minutes = .called n (round.request t.sender) :: w.minutes)
    (hs : ∀ m, v.sessions[m]? = if m = n then some (t.facing round) else w.sessions[m]?) : Authored v := by
  have hnew {m : Nat} {q : Request} (hq : .called m q ∈ w.minutes) : q.ballot ≠ round.ballot := by
    intro he
    obtain ⟨p, hp, hi⟩ := h.issued m q hq
    exact hf p hp (he ▸ hi)
  refine h.of_facing hb hi hn ?_ ?_ hm hs
  · intro m q hq he
    exact absurd he (hnew hq)
  · intro m t' r answers _ hs' he
    exact hnew (hc m t' r answers hs') (Round.ballot_request.trans he.symm)

theorem of_asked {next : Round} {answers : List (Option Answer)} (h : Authored w)
    (hp : v.cluster.proposers = w.cluster.proposers)
    (hn : w.sessions[n]? = some ⟨t, .running round answers⟩) (hb : next.ballot = round.ballot)
    (hv : ∀ value, round.stage.value? = some value → next.stage.value? = some value)
    (hc : .called n (round.request t.sender) ∈ w.minutes)
    (hm : v.minutes = .called n (next.request t.sender) :: w.minutes)
    (hs : ∀ m, v.sessions[m]? = if m = n then some (t.facing next) else w.sessions[m]?) : Authored v := by
  have hcb : (round.request t.sender).ballot = next.ballot := Round.ballot_request.trans hb.symm
  refine h.of_facing (hp ▸ h.bounded) (hp ▸ fun b hb => hb) ?_ ?_ ?_ hm hs
  · rw [hp, ← hcb]
    exact h.issued n _ hc
  · intro m q hq he
    obtain ⟨hmn, hval⟩ := h.current n t round answers hn m q hq (he.trans hb)
    exact ⟨hmn, fun p hp => hv _ (hval p hp)⟩
  · intro m t' r answers' hne hs' he
    exact hne (h.current m t' r answers' hs' n _ hc (hcb.trans he)).1.symm

end Authored

theorem called_of_running (h : Changes κ (start c) w) {answers : List (Option Answer)}
    (hn : w.sessions[n]? = some ⟨t, .running round answers⟩) : .called n (round.request t.sender) ∈ w.minutes := by
  have hr : Running κ (Minute.own n w.minutes) n t round answers := (trace_of_changes h hn).stands
  exact Minute.own_subset hr.called

theorem issuers_nodup (h : Changes κ (start c) w) (hc : (c.proposers.map (·.issuer.id)).Nodup) :
    (w.cluster.proposers.map (·.issuer.id)).Nodup := by
  have hr := congrArg (List.map (·.issuer.id)) (reset_of_changes h)
  simp only [List.map_map] at hr
  exact hr ▸ hc

theorem not_issued_upcoming (h : Changes κ (start c) w) (hc : (c.proposers.map (·.issuer.id)).Nodup)
    (ha : w.Authored) {p j : Proposer} (hp : p ∈ w.cluster.proposers)
    (hb : p.issuer.advance.counter.toNat < Ballot.counterBound) (hj : j ∈ w.cluster.proposers) :
    ¬ j.issuer.Issued p.issuer.upcoming := by
  apply Issuer.not_issued_next hb (ha.bounded j hj)
  intro hid
  rw [List.inj_on_of_nodup_map (issuers_nodup h hc) hp hj hid]

theorem authored_of_launched {place : Nat} {p : Proposer} (h : Changes κ (start c) w)
    (hc : (c.proposers.map (·.issuer.id)).Nodup) (ha : w.Authored) (hp : w.cluster.proposers[place]? = some p)
    (hb : p.issuer.advance.counter.toNat < Ballot.counterBound)
    (hv : v.cluster = w.cluster.spend place p)
    (hn : round.ballot = p.issuer.upcoming) (hm : v.minutes = .called n (round.request t.sender) :: w.minutes)
    (hs : ∀ m, v.sessions[m]? = if m = n then some (t.facing round) else w.sessions[m]?) : v.Authored := by
  have hmem := List.mem_of_getElem? hp
  refine ha.of_fresh ?_ ?_ ?_ ?_ (fun _ _ _ _ => called_of_running h) hm hs
  · exact hv ▸ bounded_spend ha.bounded hb
  · rintro b ⟨j, hj, hi⟩
    exact hv ▸ Cluster.issued_spend hp (ha.bounded p hmem) hj hi
  · exact hv ▸ hn ▸ ⟨_, mem_spend hp, p.issuer.issued_advance⟩
  · intro j hj
    exact hn ▸ not_issued_upcoming h hc ha hmem hb hj

theorem running_of_hear {i : Nat} {answers : List (Option Answer)} {a : Answer}
    (hn : w.sessions[n]? = some ⟨t, .running round answers⟩) {m : Nat} {t' : Mandate} {round' : Round}
    {answers' : List (Option Answer)}
    (hm : (w.hear n i t round answers a).sessions[m]? = some ⟨t', .running round' answers'⟩) :
    ∃ answers'', w.sessions[m]? = some ⟨t', .running round' answers''⟩ := by
  have hlt := (List.getElem?_eq_some_iff.1 hn).1
  simp only [hear, List.getElem?_set, if_pos hlt] at hm
  split at hm
  · subst m
    cases hm
    exact ⟨answers, hn⟩
  · exact ⟨answers', hm⟩

theorem running_of_returning {outcome : Except Failure Vote} {s : Session} (hn : w.sessions[n]? = some s) {m : Nat}
    {t' : Mandate} {round' : Round} {answers' : List (Option Answer)}
    (hm : (w.turn n (t.returning outcome)).sessions[m]? = some ⟨t', .running round' answers'⟩) :
    w.sessions[m]? = some ⟨t', .running round' answers'⟩ := by
  rw [getElem?_turn hn] at hm
  split at hm
  · cases hm
  · exact hm

theorem authored_of_changes (h : Changes κ (start c) w) (hc : (c.proposers.map (·.issuer.id)).Nodup)
    (hb : (start c).bounded) : w.Authored := by
  induction h with
  | refl => exact ⟨bounded_iff.1 hb, by simp [start], by simp [start], by simp [start]⟩
  | @tail w v hw hv ih =>
      cases hv with
      | unwired place action rest p hp he =>
          refine ih.of_same rfl (by simp [convene, Session.minute, Mandate.returning]) ?_
          intro n t r a hn
          rw [getElem?_convene] at hn
          split at hn
          · cases hn
          · exact ⟨a, hn⟩
      | opened place action rest p hp hb =>
          exact authored_of_launched hw hc ih hp hb rfl rfl rfl (getElem?_convene _)
      | retried n t round answers p hs ha hn hp hb =>
          exact authored_of_launched hw hc ih hp hb rfl rfl rfl (getElem?_turn hs _)
      | asked n t round next answers hs ha hn =>
          have hc := round.conclusion t.config (answers.filterMap id)
          rw [hn] at hc
          refine ih.of_asked rfl hs ?_ ?_ (called_of_running hw hs) rfl (getElem?_turn hs _)
          · cases hc <;> rfl
          · intro value hv
            cases hc with
            | promised hr => rw [hr] at hv; cases hv
            | degraded value hr => rw [hr] at hv; exact hv
            | accepted value hr => rw [hr] at hv; exact hv
      | missed n i t round answers peer f hs hi ha hf hc =>
          exact ih.of_same rfl (fun _ _ hq => hq) fun _ _ _ _ hm => running_of_hear hs hm
      | served n i t round answers peer f hs hi ha hf hc =>
          exact ih.of_same (Cluster.proposers_call _) (by simp [hear, serve]) fun _ _ _ _ hm =>
            running_of_hear (w := (w.serve n peer _).2) hs hm
      | stranded n t round answers hs ha hn hp =>
          exact ih.of_same rfl (by simp [turn, Session.minute, Mandate.returning]) fun _ _ _ a hm =>
            ⟨a, running_of_returning hs hm⟩
      | closed n t round answers outcome hs ha hn =>
          exact ih.of_same rfl (by simp [turn, Session.minute, Mandate.returning]) fun _ _ _ a hm =>
            ⟨a, running_of_returning hs hm⟩
      | operated place o ho =>
          exact ih.of_same (Cluster.proposers_visit _ _) (fun _ _ hq => hq) fun _ _ _ a hm => ⟨a, hm⟩

end Synod

end SynodStore

import SynodStore.Proofs.Synod
import Mathlib.Logic.Relation

namespace SynodStore

open Scenario (Fate)

namespace Issuer

def upcoming (i : Issuer) : Ballot := Ballot.pack (i.counter + 1) i.id

end Issuer

namespace Proposer

def reset (p : Proposer) : Proposer :=
  { p with issuer := { p.issuer with counter := 0 } }

theorem eq_of_reset {p p' : Proposer} (h : p'.reset = p.reset) :
    p'.config = p.config ∧ p'.id = p.id ∧ p'.peers = p.peers := by
  have hc := congrArg Proposer.config h
  have hi := congrArg Proposer.id h
  have hp := congrArg Proposer.peers h
  exact ⟨hc, hi, hp⟩

end Proposer

structure Mandate.Of (t : Mandate) (p : Proposer) : Prop where
  config : t.config = p.config
  sender : t.sender = p.id
  peers : t.peers = p.peers

theorem Mandate.Of.congr {t : Mandate} {p p' : Proposer} (h : t.Of p) (hr : p'.reset = p.reset) : t.Of p' := by
  obtain ⟨hc, hi, hp⟩ := Proposer.eq_of_reset hr
  exact ⟨h.config.trans hc.symm, h.sender.trans hi.symm, h.peers.trans hp.symm⟩

namespace Cluster

variable {c : Cluster} {place : Nat} {p : Proposer}

def spend (place : Nat) (p : Proposer) (c : Cluster) : Cluster :=
  { c with proposers := c.proposers.set place { p with issuer := p.issuer.advance } }

theorem reset_spend (hp : c.proposers[place]? = some p) :
    (c.spend place p).proposers.map Proposer.reset = c.proposers.map Proposer.reset := by
  obtain ⟨hlt, hp⟩ := List.getElem?_eq_some_iff.1 hp
  simp only [spend, List.map_set]
  apply List.ext_getElem (by simp)
  intro i _ _
  rw [List.getElem_set]
  split
  · subst i
    rw [List.getElem_map, hp]
    rfl
  · rfl

theorem issue_of_lt (hp : c.proposers[place]? = some p) (h : p.issuer.counter.toNat < Ballot.counterBound) :
    c.issue place = (.ok p.issuer.upcoming, c.spend place p) := by
  simp only [issue, hp, Issuer.next_of_lt h]
  rfl

theorem launch_of_lt (next : Ballot → Round) (hp : c.proposers[place]? = some p)
    (h : p.issuer.counter.toNat < Ballot.counterBound) :
    c.launch place next = (.ok (next p.issuer.upcoming), c.spend place p) := by
  simp only [launch, issue, hp, Issuer.next_of_lt h]
  rfl

theorem launch_of_none (next : Ballot → Round) (hp : c.proposers[place]? = none) :
    c.launch place next = (.error (.fault .idTooLarge), c) := by
  simp only [launch, issue, hp]

theorem call_of_some {q : Request} {r : Replica} (h : c.replicas[place]? = some r) :
    Cluster.call place q c = ((r.answer q).1, { c with replicas := c.replicas.set place (r.answer q).2 }) := by
  simp only [call, visit, h]

theorem call_of_none {q : Request} (h : c.replicas[place]? = none) : Cluster.call place q c = (q.refusal, c) := by
  simp only [call, visit, h]

theorem replica_of_call {q : Request} {x : Nat} {r : Replica}
    (h : (Cluster.call place q c).2.replicas[x]? = some r) :
    (place = x ∧ ∃ r₀, c.replicas[x]? = some r₀ ∧ r = (r₀.answer q).2) ∨ (place ≠ x ∧ c.replicas[x]? = some r) := by
  cases hr : c.replicas[place]? with
  | none =>
      rw [call_of_none hr] at h
      refine .inr ⟨?_, h⟩
      rintro rfl
      rw [hr] at h
      cases h
  | some r₀ =>
      rw [call_of_some hr] at h
      by_cases hp : place = x
      · subst hp
        rw [List.getElem?_set_self (List.getElem?_eq_some_iff.1 hr).1] at h
        exact .inl ⟨rfl, r₀, hr, (Option.some.inj h).symm⟩
      · rw [List.getElem?_set_ne hp] at h
        exact .inr ⟨hp, h⟩

theorem proposers_call (q : Request) : (Cluster.call place q c).2.proposers = c.proposers := by
  simp only [call, visit]
  cases c.replicas[place]? <;> rfl

theorem proposers_visit {α : Type} (absent : α) (f : Replica → α × Replica) :
    (c.visit absent place f).2.proposers = c.proposers := by
  simp only [visit]
  cases c.replicas[place]? <;> rfl

theorem length_visit {α : Type} (absent : α) (f : Replica → α × Replica) :
    (c.visit absent place f).2.replicas.length = c.replicas.length := by
  simp only [visit]
  cases c.replicas[place]? with
  | none => rfl
  | some r => exact List.length_set ..

end Cluster

namespace Synod

/-- Everything that a step can do, with what has to hold for it. A step may do two of these: the end of a round
of a write and the start of the next. -/
inductive Change (κ : Conditions) (w : Synod) : Synod → Prop
  | unwired (place action rest) (p : Proposer) (hp : w.cluster.proposers[place]? = some p) (he : p.peers = []) :
      Change κ w (w.convene (Mandate.returning ⟨place, p.config, p.id, p.peers, action, rest⟩ (.error .unwired)))
  | opened (place action rest) (p : Proposer) (hp : w.cluster.proposers[place]? = some p)
      (hb : p.issuer.advance.counter.toNat < Ballot.counterBound) :
      Change κ w ((w.on (w.cluster.spend place p)).convene
        (Mandate.facing ⟨place, p.config, p.id, p.peers, action, rest⟩ (.first action p.issuer.upcoming)))
  | missed (n i : Nat) (t : Mandate) (round : Round) (answers : List (Option Answer)) (peer : Nat) (f : Fate)
      (hs : w.sessions[n]? = some ⟨t, .running round answers⟩) (hi : t.peers[i]? = some peer)
      (ha : answers[i]? = some none) (hf : κ.fate (round.request t.sender) f) (hc : f.carried = false) :
      Change κ w (w.hear n i t round answers (f.answer (round.request t.sender) (round.request t.sender).refusal))
  | served (n i : Nat) (t : Mandate) (round : Round) (answers : List (Option Answer)) (peer : Nat) (f : Fate)
      (hs : w.sessions[n]? = some ⟨t, .running round answers⟩) (hi : t.peers[i]? = some peer)
      (ha : answers[i]? = some none) (hf : κ.fate (round.request t.sender) f) (hc : f.carried = true) :
      Change κ w ((w.serve n peer (round.request t.sender)).2.hear n i t round answers
        (f.answer (round.request t.sender) (w.serve n peer (round.request t.sender)).1))
  | asked (n : Nat) (t : Mandate) (round next : Round) (answers : List (Option Answer))
      (hs : w.sessions[n]? = some ⟨t, .running round answers⟩) (ha : ∀ a ∈ answers, a.isSome)
      (hn : round.conclude t.config (answers.filterMap id) = .ask next) :
      Change κ w (w.turn n (t.facing next))
  | retried (n : Nat) (t : Mandate) (round : Round) (answers : List (Option Answer)) (p : Proposer)
      (hs : w.sessions[n]? = some ⟨t, .running round answers⟩) (ha : ∀ a ∈ answers, a.isSome)
      (hn : round.conclude t.config (answers.filterMap id) = .retry)
      (hp : w.cluster.proposers[t.place]? = some p)
      (hb : p.issuer.advance.counter.toNat < Ballot.counterBound) :
      Change κ w ((w.on (w.cluster.spend t.place p)).turn n (t.facing (.second round.action p.issuer.upcoming)))
  | stranded (n : Nat) (t : Mandate) (round : Round) (answers : List (Option Answer))
      (hs : w.sessions[n]? = some ⟨t, .running round answers⟩) (ha : ∀ a ∈ answers, a.isSome)
      (hn : round.conclude t.config (answers.filterMap id) = .retry)
      (hp : w.cluster.proposers[t.place]? = none) :
      Change κ w (w.turn n (t.returning (.error (.fault .idTooLarge))))
  | closed (n : Nat) (t : Mandate) (round : Round) (answers : List (Option Answer))
      (outcome : Except Failure Vote) (hs : w.sessions[n]? = some ⟨t, .running round answers⟩)
      (ha : ∀ a ∈ answers, a.isSome)
      (hn : round.conclude t.config (answers.filterMap id) = .finished outcome) :
      Change κ w (w.turn n (t.returning outcome))
  | operated (place : Nat) (o : Replica.Operation) (ho : κ.operation o) :
      Change κ w (w.on (w.cluster.visit Replica.Outcome.done place (Replica.perform o)).2)

abbrev Changes (κ : Conditions) : Synod → Synod → Prop := Relation.ReflTransGen (Change κ)

variable {κ : Conditions} {u v w : Synod}

theorem bounded_iff : w.bounded ↔ ∀ p ∈ w.cluster.proposers, p.issuer.counter.toNat < Ballot.counterBound := by
  simp [bounded]

theorem bounded_spend {place : Nat} {p : Proposer}
    (h : ∀ j ∈ w.cluster.proposers, j.issuer.counter.toNat < Ballot.counterBound)
    (hb : p.issuer.advance.counter.toNat < Ballot.counterBound) :
    ∀ j ∈ (w.cluster.spend place p).proposers, j.issuer.counter.toNat < Ballot.counterBound := by
  intro j hj
  rcases List.mem_or_eq_of_mem_set hj with hj | rfl
  · exact h j hj
  · exact hb

theorem lt_of_bounded {place : Nat} {p : Proposer} (hb : w.bounded) (hp : w.cluster.proposers[place]? = some p) :
    p.issuer.counter.toNat < Ballot.counterBound :=
  bounded_iff.1 hb p (List.mem_of_getElem? hp)

theorem mem_spend {c : Cluster} {place : Nat} {p : Proposer} (hp : c.proposers[place]? = some p) :
    { p with issuer := p.issuer.advance } ∈ (c.spend place p).proposers :=
  List.mem_set (List.getElem?_eq_some_iff.1 hp).1 _

theorem changes_enter {place : Nat} {action : Action} {rest : Option Nat} (hb : w.bounded)
    (h : (w.enter place action rest).bounded) : Changes κ w (w.enter place action rest) := by
  cases hp : w.cluster.proposers[place]? with
  | none =>
      simp only [enter, hp]
      exact .refl
  | some p =>
      cases he : p.peers.isEmpty with
      | true =>
          simp only [enter, hp, he]
          exact .single (.unwired place action rest p hp (List.isEmpty_iff.1 he))
      | false =>
          simp only [enter, hp, he, Cluster.launch_of_lt _ hp (lt_of_bounded hb hp)] at h ⊢
          exact .single (.opened place action rest p hp (bounded_iff.1 h _ (mem_spend hp)))

theorem changes_call {n i : Nat} {f : Fate} (hf : κ.allows w (.call n i f)) : Changes κ w (w.call n i f) := by
  rw [call]
  split
  · rename_i t round answers hs
    have hq : κ.fate (round.request t.sender) f := by
      simpa [Conditions.allows, request?, hs, Session.request?] using hf
    split
    · rename_i peer hi ha
      dsimp only
      split
      · rename_i hc
        exact .single (.served n i t round answers peer f hs hi ha hq hc)
      · rename_i hc
        exact .single (.missed n i t round answers peer f hs hi ha hq (by simpa using hc))
    · exact .refl
  · exact .refl

theorem changes_close {n : Nat} {t : Mandate} {round : Round} {answers : List (Option Answer)}
    {outcome : Except Failure Vote} (hb : w.bounded) (hs : w.sessions[n]? = some ⟨t, .running round answers⟩)
    (ha : ∀ a ∈ answers, a.isSome) (hn : round.conclude t.config (answers.filterMap id) = .finished outcome)
    (h : (w.close n t outcome).bounded) : Changes κ w (w.close n t outcome) := by
  have hc : Changes κ w (w.turn n (t.returning outcome)) := .single (.closed n t round answers outcome hs ha hn)
  cases hr : t.remaining? outcome with
  | none =>
      simp only [close, hr]
      exact hc
  | some rest =>
      simp only [close, hr] at h ⊢
      exact hc.trans (changes_enter (by exact hb) h)

theorem changes_proceed {n : Nat} (hb : w.bounded) (h : (w.proceed n).bounded) : Changes κ w (w.proceed n) := by
  cases hs : w.sessions[n]? with
  | none =>
      simp only [proceed, hs]
      exact .refl
  | some s =>
      obtain ⟨t, status⟩ := s
      cases status with
      | returned outcome =>
          simp only [proceed, hs]
          exact .refl
      | running round answers =>
          cases ha : answers.all (·.isSome) with
          | false =>
              simp only [proceed, hs, ha]
              exact .refl
          | true =>
              have ha' := List.all_eq_true.1 ha
              cases hn : round.conclude t.config (answers.filterMap id) with
              | ask next =>
                  simp only [proceed, settle, hs, ha, hn]
                  exact .single (.asked n t round next answers hs ha' hn)
              | finished outcome =>
                  simp only [proceed, settle, hs, ha, hn] at h ⊢
                  exact changes_close hb hs ha' hn h
              | retry =>
                  cases hp : w.cluster.proposers[t.place]? with
                  | none =>
                      simp only [proceed, settle, hs, ha, hn, Cluster.launch_of_none _ hp]
                      exact .single (.stranded n t round answers hs ha' hn hp)
                  | some p =>
                      simp only [proceed, settle, hs, ha, hn, Cluster.launch_of_lt _ hp (lt_of_bounded hb hp)] at h ⊢
                      exact .single (.retried n t round answers p hs ha' hn hp (bounded_iff.1 h _ (mem_spend hp)))

/-- One lemma for all steps: what they do is a change, or two, or none. -/
theorem changes_step {e : Event} (hb : w.bounded) (he : κ.allows w e) (h : (w.step e).bounded) :
    Changes κ w (w.step e) := by
  cases e with
  | round place action => exact changes_enter hb h
  | propose place action =>
      simp only [step, propose] at h ⊢
      split at h
      · exact changes_enter hb h
      · exact .refl
  | call n i f => exact changes_call he
  | proceed n => exact changes_proceed hb h
  | operate place o => exact .single (.operated place o he)

theorem Change.reset_proposers (h : Change κ w v) :
    v.cluster.proposers.map Proposer.reset = w.cluster.proposers.map Proposer.reset := by
  cases h with
  | unwired | missed | asked | stranded | closed => rfl
  | opened place action rest p hp hb => exact Cluster.reset_spend hp
  | retried n t round answers p hs ha hn hp hb => exact Cluster.reset_spend hp
  | served n i t round answers peer f hs hi ha hf hc =>
      exact congrArg (List.map Proposer.reset) (Cluster.proposers_call _)
  | operated place o ho => exact congrArg (List.map Proposer.reset) (Cluster.proposers_visit _ _)

theorem reset_of_changes (h : Changes κ w v) :
    v.cluster.proposers.map Proposer.reset = w.cluster.proposers.map Proposer.reset := by
  induction h with
  | refl => rfl
  | tail _ hc ih => rw [hc.reset_proposers, ih]

theorem exists_proposer (h : Changes κ w v) {p : Proposer} (hp : p ∈ v.cluster.proposers) :
    ∃ p₀ ∈ w.cluster.proposers, p₀.reset = p.reset := by
  have hr : p.reset ∈ v.cluster.proposers.map Proposer.reset := List.mem_map_of_mem hp
  rw [reset_of_changes h] at hr
  exact List.mem_map.1 hr

theorem Change.length_replicas (h : Change κ w v) :
    v.cluster.replicas.length = w.cluster.replicas.length := by
  cases h with
  | served n i t round answers peer f hs hi ha hf hc => exact Cluster.length_visit _ _
  | operated place o ho => exact Cluster.length_visit _ _
  | _ => rfl

theorem length_replicas_of_changes (h : Changes κ w v) :
    v.cluster.replicas.length = w.cluster.replicas.length := by
  induction h with
  | refl => rfl
  | tail _ hc ih => rw [hc.length_replicas, ih]

theorem Change.mandate (h : Change κ w v) {s : Session} (hs : s ∈ v.sessions) :
    (∃ s₀ ∈ w.sessions, s₀.mandate = s.mandate) ∨ ∃ p ∈ w.cluster.proposers, s.mandate.Of p := by
  have hold {n : Nat} {s₀ s' : Session} (h₀ : w.sessions[n]? = some s₀) (hs : s ∈ w.sessions.set n s')
      (hm : s₀.mandate = s'.mandate) : ∃ s₀ ∈ w.sessions, s₀.mandate = s.mandate := by
    rcases List.mem_or_eq_of_mem_set hs with hs | rfl
    · exact ⟨s, hs, rfl⟩
    · exact ⟨s₀, List.mem_of_getElem? h₀, hm⟩
  have hnew {s' : Session} {p : Proposer} (hp : p ∈ w.cluster.proposers) (hs : s ∈ w.sessions ++ [s'])
      (hm : s'.mandate.Of p) :
      (∃ s₀ ∈ w.sessions, s₀.mandate = s.mandate) ∨ ∃ p ∈ w.cluster.proposers, s.mandate.Of p := by
    rcases List.mem_append.1 hs with hs | hs
    · exact .inl ⟨s, hs, rfl⟩
    · obtain rfl := List.mem_singleton.1 hs
      exact .inr ⟨p, hp, hm⟩
  cases h with
  | unwired place action rest p hp he => exact hnew (List.mem_of_getElem? hp) hs ⟨rfl, rfl, rfl⟩
  | opened place action rest p hp hb => exact hnew (List.mem_of_getElem? hp) hs ⟨rfl, rfl, rfl⟩
  | missed n i t round answers peer f hn => exact .inl (hold hn hs rfl)
  | served n i t round answers peer f hn => exact .inl (hold hn hs rfl)
  | asked n t round next answers hn => exact .inl (hold hn hs rfl)
  | retried n t round answers p hn => exact .inl (hold hn hs rfl)
  | stranded n t round answers hn => exact .inl (hold hn hs rfl)
  | closed n t round answers outcome hn => exact .inl (hold hn hs rfl)
  | operated => exact .inl ⟨s, hs, rfl⟩

theorem mandate_of_changes {c : Cluster} (h : Changes κ (start c) v) {s : Session} (hs : s ∈ v.sessions) :
    ∃ p ∈ c.proposers, s.mandate.Of p := by
  induction h generalizing s with
  | refl => cases hs
  | @tail u v hu hc ih =>
      rcases hc.mandate hs with ⟨s₀, h₀, hm⟩ | ⟨p, hp, hm⟩
      · exact hm ▸ ih h₀
      · obtain ⟨p₀, hp₀, hr⟩ := exists_proposer hu hp
        exact ⟨p₀, hp₀, hm.congr hr⟩

theorem Run.changes (h : Run κ w v) : Changes κ w v := by
  induction h with
  | refl _ => exact .refl
  | step hr e he hb ih => exact ih.trans (changes_step hr.bounded he hb)

end Synod

end SynodStore

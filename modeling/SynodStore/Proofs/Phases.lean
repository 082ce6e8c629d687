import SynodStore.Proofs.Change

namespace SynodStore

open Scenario (Fate)

namespace Cluster

def meet (q : Request) (place : Nat) (f : Fate) (c : Cluster) : Answer × Cluster :=
  if f.carried then
    let p := Cluster.call place q c
    (f.answer q p.1, p.2)
  else (f.answer q q.refusal, c)

def calls (q : Request) : List (Nat × Fate) → Cluster → List Answer × Cluster
  | [], c => ([], c)
  | (place, f) :: l, c =>
    let p := meet q place f c
    let r := calls q l p.2
    (p.1 :: r.1, r.2)

variable {c : Cluster}

theorem proposers_meet (q : Request) (place : Nat) (f : Fate) : (meet q place f c).2.proposers = c.proposers := by
  simp only [meet]
  split
  · exact proposers_call q
  · rfl

theorem proposers_calls (q : Request) (l : List (Nat × Fate)) : (calls q l c).2.proposers = c.proposers := by
  induction l generalizing c with
  | nil => rfl
  | cons x l ih => exact ih.trans (proposers_meet q x.1 x.2)

theorem length_meet (q : Request) (place : Nat) (f : Fate) :
    (meet q place f c).2.replicas.length = c.replicas.length := by
  simp only [meet]
  split
  · exact length_visit ..
  · rfl

theorem length_calls (q : Request) (l : List (Nat × Fate)) : (calls q l c).2.replicas.length = c.replicas.length := by
  induction l generalizing c with
  | nil => rfl
  | cons x l ih => exact ih.trans (length_meet q x.1 x.2)

end Cluster

namespace Synod

variable {κ : Conditions} {u w : Synod} {n place : Nat} {t : Mandate} {round : Round} {p : Proposer}

theorem enter_eq (action : Action) (rest : Option Nat) (hp : w.cluster.proposers[place]? = some p)
    (hne : p.peers ≠ []) (hlt : p.issuer.counter.toNat < Ballot.counterBound) :
    w.enter place action rest = (w.on (w.cluster.spend place p)).convene
      (Mandate.facing ⟨place, p.config, p.id, p.peers, action, rest⟩ (.first action p.issuer.upcoming)) := by
  simp only [enter, hp, List.isEmpty_iff, hne, Cluster.launch_of_lt _ hp hlt]
  rfl

theorem propose_eq {action : Action} {rest : Nat} (hp : w.cluster.proposers[place]? = some p)
    (hr : p.config.maxRounds.toNat = rest + 1) : w.propose place action = w.enter place action (some rest) := by
  simp [propose, hp, hr]

theorem bounded_on_spend (h : w.bounded) (hb : p.issuer.advance.counter.toNat < Ballot.counterBound) :
    (w.on (w.cluster.spend place p)).bounded :=
  bounded_iff.2 (bounded_spend (bounded_iff.1 h) hb)

theorem call_eq {i peer : Nat} {answers : List (Option Answer)} {f : Fate}
    (hs : w.sessions[n]? = some ⟨t, .running round answers⟩) (hi : t.peers[i]? = some peer)
    (ha : answers[i]? = some none) :
    ∃ L, w.call n i f = ⟨(Cluster.meet (round.request t.sender) peer f w.cluster).2, w.sessions.set n
      ⟨t, .running round (answers.set i (some (Cluster.meet (round.request t.sender) peer f w.cluster).1))⟩,
      L ++ w.minutes⟩ := by
  simp only [call, hs, hi, ha, Cluster.meet]
  split
  · exact ⟨[_], rfl⟩
  · exact ⟨[], rfl⟩

/-- The calls of a phase may take place replica by replica, each with any fate that the conditions allow. -/
theorem Run.calls {done : List Answer} {before peers after : List Nat} {fates : List Fate} (h : Run κ u w)
    (hp : t.peers = before ++ peers ++ after) (hd : done.length = before.length) (hl : fates.length = peers.length)
    (hf : ∀ f ∈ fates, κ.fate (round.request t.sender) f)
    (hs : w.sessions[n]? = some ⟨t, .running round (done.map some ++ (peers ++ after).map fun _ => none)⟩) :
    ∃ L, Run κ u ⟨(Cluster.calls (round.request t.sender) (peers.zip fates) w.cluster).2, w.sessions.set n
      ⟨t, .running round ((done ++ (Cluster.calls (round.request t.sender) (peers.zip fates) w.cluster).1).map some ++
        after.map fun _ => none)⟩, L ++ w.minutes⟩ := by
  induction peers generalizing done before fates w with
  | nil =>
      refine ⟨[], ?_⟩
      have he : w.sessions.set n ⟨t, .running round (done.map some ++ after.map fun _ => none)⟩ = w.sessions := by
        rw [List.nil_append] at hs
        obtain ⟨hlt, hs⟩ := List.getElem?_eq_some_iff.1 hs
        rw [← hs, List.set_getElem_self]
      simpa only [Cluster.calls, List.zip_nil_left, List.append_nil, List.nil_append, he] using h
  | cons peer peers ih =>
      cases fates with
      | nil => cases hl
      | cons f fates =>
          have hi : t.peers[done.length]? = some peer := by simp [hp, hd]
          have ha : (done.map some ++ ((peer :: peers) ++ after).map fun _ => (none : Option Answer))[done.length]? =
              some none := by simp
          obtain ⟨L, hc⟩ := call_eq (f := f) hs hi ha
          have hallow : κ.allows w (.call n done.length f) := by
            simpa [Conditions.allows, request?, hs, Session.request?] using hf f List.mem_cons_self
          have hbound : (w.step (.call n done.length f)).bounded := by
            rw [Synod.step, hc, Synod.bounded, Cluster.proposers_meet]
            exact h.bounded
          have hrun : Run κ u (w.call n done.length f) := h.step _ hallow hbound
          have hlt := (List.getElem?_eq_some_iff.1 hs).1
          rw [hc] at hrun
          obtain ⟨L', hL'⟩ := @ih _ (done ++ [(Cluster.meet (round.request t.sender) peer f w.cluster).1])
            (before ++ [peer]) fates hrun (by simp [hp]) (by simp [hd]) (Nat.succ.inj hl)
            (fun f hf' => hf f (List.mem_cons_of_mem _ hf')) (by simp [List.getElem?_set_self hlt])
          refine ⟨L' ++ L, ?_⟩
          simpa [Cluster.calls] using hL'

theorem proceed_eq {answers : List Answer} (hs : w.sessions[n]? = some ⟨t, .running round (answers.map some)⟩) :
    w.step (.proceed n) = w.settle n t round (round.conclude t.config answers) := by
  simp [step, proceed, hs]

theorem Run.proceed {answers : List Answer} (h : Run κ u w)
    (hs : w.sessions[n]? = some ⟨t, .running round (answers.map some)⟩)
    (hb : (w.settle n t round (round.conclude t.config answers)).bounded) :
    Run κ u (w.settle n t round (round.conclude t.config answers)) := by
  rw [← proceed_eq hs] at hb ⊢
  exact h.step _ rfl hb

end Synod

end SynodStore

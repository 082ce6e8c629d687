import SynodStore.Proofs.Standing

namespace SynodStore

open Scenario (Fate)

namespace Acceptor

variable {a : Acceptor}

theorem slot?_accept {m : Proposal} {v : Vote} (h : (a.accept m).1 = some v) :
    v = m.vote ∧
      (a.accept m).2.slot? m.action.key = some { a.slot m.action.key with accepted := some m.vote } := by
  simp only [accept] at h ⊢
  split at h
  · exact ⟨(Option.some.inj h).symm, by rw [if_pos ‹_›, slot?_update_self]⟩
  · cases h

theorem slot?_prepare {m : Prepare} {p : Promise} (h : (a.prepare m).1 = some p) :
    p = ⟨m.ballot, (a.slot m.key).accepted⟩ ∧
      (a.prepare m).2.slot? m.key = some { a.slot m.key with promised := some m.ballot } := by
  simp only [prepare] at h ⊢
  split at h
  · exact ⟨(Option.some.inj h).symm, by rw [if_pos ‹_›, slot?_update_self]⟩
  · cases h

end Acceptor

namespace Supervisor

variable {α β : Type} {s : Supervisor}

theorem current?_serve {f : Acceptor → α × Acceptor} {x : α} (h : (s.serve f).1 = some x) :
    ∃ a, s.current? = some a ∧ (f a).1 = x ∧ (s.serve f).2.current? = some (f a).2 := by
  simp only [serve] at h ⊢
  split at h
  · rename_i hc
    rw [fst_visit, current?_check_of_up hc, Option.map_eq_some_iff] at h
    obtain ⟨a, ha, hx⟩ := h
    exact ⟨a, ha, hx, by rw [if_pos hc, current?_visit, current?_check_of_up hc, ha, Option.map_some]⟩
  · cases h

end Supervisor

namespace Cluster

variable {c : Cluster} {place : Nat}

theorem replica_of_reply {q : Request} (h : (Cluster.call place q c).1 ≠ q.refusal) :
    ∃ r, c.replicas[place]? = some r := by
  cases hr : c.replicas[place]? with
  | none => exact absurd (congrArg Prod.fst (call_of_none hr)) h
  | some r => exact ⟨r, rfl⟩

theorem slot?_call {q : Request} {r : Replica} {key : String} (h : c.replicas[place]? = some r) :
    (Cluster.call place q c).2.slot? place key = ((r.answer q).2.supervisor.current?).bind (·.slot? key) := by
  have hlt := (List.getElem?_eq_some_iff.1 h).1
  simp only [call_of_some h, slot?, List.getElem?_set_self hlt]
  rfl

theorem slot?_call_accept {m : Proposal} {v : Vote} (h : (Cluster.call place (.accept m) c).1 = .vote (some v)) :
    v = m.vote ∧ ∃ s, (Cluster.call place (.accept m) c).2.slot? place m.action.key = some s ∧
      s.accepted = some m.vote := by
  obtain ⟨r, hr⟩ := replica_of_reply (q := .accept m) (by rw [h]; simp [Request.refusal])
  rw [slot?_call hr]
  rw [call_of_some hr] at h
  obtain ⟨a, _, hv, hs⟩ := Supervisor.current?_serve (Option.join_eq_some_iff.1 (Reply.vote.inj h))
  obtain ⟨rfl, ha⟩ := Acceptor.slot?_accept hv
  exact ⟨rfl, _, Option.bind_eq_some_iff.2 ⟨_, hs, ha⟩, rfl⟩

theorem slot?_call_prepare {m : Prepare} {p : Promise}
    (h : (Cluster.call place (.prepare m) c).1 = .promise (some p)) :
    p.ballot = m.ballot ∧ ∃ s, (Cluster.call place (.prepare m) c).2.slot? place m.key = some s ∧
      s.promised = some m.ballot ∧ s.accepted = p.accepted := by
  obtain ⟨r, hr⟩ := replica_of_reply (q := .prepare m) (by rw [h]; simp [Request.refusal])
  rw [slot?_call hr]
  rw [call_of_some hr] at h
  obtain ⟨a, _, hp, hs⟩ := Supervisor.current?_serve (Option.join_eq_some_iff.1 (Reply.promise.inj h))
  obtain ⟨rfl, ha⟩ := Acceptor.slot?_prepare hp
  exact ⟨rfl, _, Option.bind_eq_some_iff.2 ⟨_, hs, ha⟩, rfl, rfl⟩

end Cluster

namespace Synod

variable {κ : Conditions} {c : Cluster} {v w : Synod} {n x : Nat} {q : Request} {reply : Reply}
variable {held : Option Slot} {L : List Minute}

/-- The call that a minute was taken of. -/
structure Call (w : Synod) (n x : Nat) (q : Request) (reply : Reply) (held : Option Slot) : Prop where
  session : ∃ (t : Mandate) (round : Round) (answers : List (Option Answer)),
    w.sessions[n]? = some ⟨t, .running round answers⟩ ∧ q = round.request t.sender ∧ x ∈ t.peers
  reply : reply = (Cluster.call x q w.cluster).1
  held : held = (Cluster.call x q w.cluster).2.slot? x q.key

theorem Change.call (h : Change κ w v) (hm : v.minutes = .served n x q reply held :: w.minutes) :
    w.Call n x q reply held ∧ v.cluster = (Cluster.call x q w.cluster).2 := by
  cases h with
  | unwired | opened | asked | retried | stranded | closed => cases hm
  | missed | operated => exact absurd hm.symm (List.cons_ne_self _ _)
  | served m i t round answers peer f hs hi ha hf hc =>
      cases hm
      exact ⟨⟨⟨t, round, answers, hs, rfl, List.mem_of_getElem? hi⟩, rfl, rfl⟩, rfl⟩

theorem Change.facing (h : Change κ w v) (hm : v.minutes = .called n q :: w.minutes) :
    ∃ (t : Mandate) (round : Round), v.sessions[n]? = some (t.facing round) ∧ q = round.request t.sender := by
  rcases h.turn with ⟨_, h⟩ | ⟨m, s, e, ht, hs, hl⟩
  · rw [h] at hm
    exact absurd hm.symm (List.cons_ne_self _ _)
  · rw [hl] at hm
    generalize w.sessions[m]? = o at ht
    cases ht with
    | missed => exact absurd hm.symm (List.cons_ne_self _ _)
    | unwired | served | stranded | closed => cases hm
    | opened t b =>
        cases hm
        exact ⟨t, _, by rw [hs, if_pos rfl], rfl⟩
    | asked t round next answers ha hn =>
        cases hm
        exact ⟨t, _, by rw [hs, if_pos rfl], rfl⟩
    | retried t round answers b ha hn =>
        cases hm
        exact ⟨t, _, by rw [hs, if_pos rfl], rfl⟩

theorem exists_call (h : Changes κ (start c) w) (hm : .served n x q reply held :: L <:+ w.minutes) :
    ∃ u, Changes κ (start c) u ∧ u.minutes = L ∧ u.Call n x q reply held := by
  obtain ⟨u, u', hu, hc, hL, hL', _⟩ := exists_change_of_suffix h hm
  exact ⟨u, hu, hL, (hc.call (hL ▸ hL')).1⟩

theorem Call.running (h : Changes κ (start c) w) (hc : w.Call n x q reply held) :
    ∃ (t : Mandate) (round : Round) (answers : List (Option Answer)),
      w.sessions[n]? = some ⟨t, .running round answers⟩ ∧ q = round.request t.sender ∧ x ∈ t.peers ∧
      Running κ (Minute.own n w.minutes) n t round answers := by
  obtain ⟨t, round, answers, hs, hq, hx⟩ := hc.session
  exact ⟨t, round, answers, hs, hq, hx, (trace_of_changes h hs).stands⟩

theorem called_of_served (h : Changes κ (start c) w) (hm : .served n x q reply held ∈ w.minutes) :
    .called n q ∈ w.minutes := by
  obtain ⟨L, hL⟩ := exists_suffix_of_mem hm
  obtain ⟨u, hu, rfl, hc⟩ := exists_call h hL
  obtain ⟨t, round, answers, hs, rfl, -, hr⟩ := hc.running hu
  exact hL.subset (List.mem_cons_of_mem _ (Minute.own_subset hr.called))

theorem vote_of_served (h : Changes κ (start c) w) {m : Proposal} {v : Vote}
    (hm : .served n x (.accept m) (.vote (some v)) held ∈ w.minutes) :
    v = m.vote ∧ ∃ s, held = some s ∧ s.accepted = some m.vote := by
  obtain ⟨L, hL⟩ := exists_suffix_of_mem hm
  obtain ⟨u, _, _, hc⟩ := exists_call h hL
  rw [hc.held]
  exact Cluster.slot?_call_accept hc.reply.symm

theorem promise_of_served (h : Changes κ (start c) w) {m : Prepare} {p : Promise}
    (hm : .served n x (.prepare m) (.promise (some p)) held ∈ w.minutes) :
    p.ballot = m.ballot ∧ ∃ s, held = some s ∧ s.promised = some m.ballot ∧ s.accepted = p.accepted := by
  obtain ⟨L, hL⟩ := exists_suffix_of_mem hm
  obtain ⟨u, _, _, hc⟩ := exists_call h hL
  rw [hc.held]
  exact Cluster.slot?_call_prepare hc.reply.symm

end Synod

end SynodStore

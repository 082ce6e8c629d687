import SynodStore.Proofs.Change

namespace SynodStore

open Scenario (Fate)

namespace Minute

def own (n : Nat) (L : List Minute) : List Minute :=
  L.filter (·.session = n)

variable {n : Nat} {e : Minute} {L : List Minute}

theorem mem_own : e ∈ own n L ↔ e ∈ L ∧ e.session = n := by
  simp [own]

theorem own_subset : own n L ⊆ L := fun _ he => (mem_own.1 he).1

theorem own_append (L' : List Minute) : own n (L ++ L') = own n L ++ own n L' :=
  List.filter_append _ _

theorem own_eq_nil (h : ∀ e ∈ L, e.session ≠ n) : own n L = [] := by
  simpa [own, List.filter_eq_nil_iff] using h

end Minute

/-- What a change means for the one session that it is about: how the session comes to be or goes on, and the
minute taken of it. -/
inductive Session.Turn (κ : Conditions) (n : Nat) : Option Session → Session → Option Minute → Prop
  | unwired (t : Mandate) : Turn κ n none (t.returning (.error .unwired)) (some (.closed n (.error .unwired)))
  | opened (t : Mandate) (b : Ballot) :
      Turn κ n none (t.facing (.first t.action b)) (some (.called n ((Round.first t.action b).request t.sender)))
  | missed (t : Mandate) (round : Round) (answers : List (Option Answer)) (i peer : Nat) (f : Fate)
      (hi : t.peers[i]? = some peer) (ha : answers[i]? = some none) (hf : κ.fate (round.request t.sender) f)
      (hc : f.carried = false) :
      Turn κ n (some ⟨t, .running round answers⟩)
        ⟨t, .running round
          (answers.set i (some (f.answer (round.request t.sender) (round.request t.sender).refusal)))⟩ none
  | served (t : Mandate) (round : Round) (answers : List (Option Answer)) (i peer : Nat) (f : Fate) (reply : Reply)
      (held : Option Slot) (hi : t.peers[i]? = some peer) (ha : answers[i]? = some none)
      (hf : κ.fate (round.request t.sender) f) (hc : f.carried = true) :
      Turn κ n (some ⟨t, .running round answers⟩)
        ⟨t, .running round (answers.set i (some (f.answer (round.request t.sender) reply)))⟩
        (some (.served n peer (round.request t.sender) reply held))
  | asked (t : Mandate) (round next : Round) (answers : List (Option Answer)) (ha : ∀ a ∈ answers, a.isSome)
      (hn : round.conclude t.config (answers.filterMap id) = .ask next) :
      Turn κ n (some ⟨t, .running round answers⟩) (t.facing next) (some (.called n (next.request t.sender)))
  | retried (t : Mandate) (round : Round) (answers : List (Option Answer)) (b : Ballot)
      (ha : ∀ a ∈ answers, a.isSome) (hn : round.conclude t.config (answers.filterMap id) = .retry) :
      Turn κ n (some ⟨t, .running round answers⟩) (t.facing (.second round.action b))
        (some (.called n ((Round.second round.action b).request t.sender)))
  | stranded (t : Mandate) (round : Round) (answers : List (Option Answer)) (ha : ∀ a ∈ answers, a.isSome)
      (hn : round.conclude t.config (answers.filterMap id) = .retry) :
      Turn κ n (some ⟨t, .running round answers⟩) (t.returning (.error (.fault .idTooLarge)))
        (some (.closed n (.error (.fault .idTooLarge))))
  | closed (t : Mandate) (round : Round) (answers : List (Option Answer)) (outcome : Except Failure Vote)
      (ha : ∀ a ∈ answers, a.isSome) (hn : round.conclude t.config (answers.filterMap id) = .finished outcome) :
      Turn κ n (some ⟨t, .running round answers⟩) (t.returning outcome) (some (.closed n outcome))

inductive Session.Trace (κ : Conditions) (n : Nat) : List Minute → Session → Prop
  | first {s : Session} {e : Option Minute} (h : Turn κ n none s e) : Trace κ n e.toList s
  | later {L : List Minute} {s s' : Session} {e : Option Minute} (h : Trace κ n L s)
      (h' : Turn κ n (some s) s' e) : Trace κ n (e.toList ++ L) s'

namespace Session

variable {κ : Conditions} {n : Nat} {s s' : Session} {e : Minute}

theorem Turn.session_eq {o : Option Session} (h : Turn κ n o s (some e)) : e.session = n := by
  cases h <;> rfl

theorem Turn.own_toList {o : Option Session} {e : Option Minute} (h : Turn κ n o s e) :
    Minute.own n e.toList = e.toList := by
  cases h <;> simp [Minute.own, Minute.session]

theorem Turn.own_toList_of_ne {o : Option Session} {e : Option Minute} {m : Nat} (h : Turn κ n o s e)
    (hm : m ≠ n) : Minute.own m e.toList = [] := by
  cases h <;> simp [Minute.own, Minute.session, hm.symm]

theorem Turn.mandate_eq {o : Option Minute} (h : Turn κ n (some s) s' o) : s'.mandate = s.mandate := by
  cases h <;> rfl

end Session

namespace Synod

variable {κ : Conditions} {c : Cluster} {u v w : Synod}

theorem getElem?_convene (s : Session) (m : Nat) :
    (w.convene s).sessions[m]? = if m = w.sessions.length then some s else w.sessions[m]? := by
  simp only [convene]
  grind

theorem getElem?_turn {n : Nat} {s : Session} (hs : w.sessions[n]? = some s) (s' : Session) (m : Nat) :
    (w.turn n s').sessions[m]? = if m = n then some s' else w.sessions[m]? := by
  simp only [turn]
  grind

/-- All changes but those to a replica alone are the turn of one session, and leave the others as they are. -/
theorem Change.turn (h : Change κ w v) :
    (v.sessions = w.sessions ∧ v.minutes = w.minutes) ∨
    ∃ n s e, Session.Turn κ n w.sessions[n]? s e ∧
      (∀ m, v.sessions[m]? = if m = n then some s else w.sessions[m]?) ∧ v.minutes = e.toList ++ w.minutes := by
  cases h with
  | operated => exact .inl ⟨rfl, rfl⟩
  | unwired place action rest p hp he =>
      refine .inr ⟨w.sessions.length, _, some _, ?_, getElem?_convene _, rfl⟩
      rw [List.getElem?_eq_none (Nat.le_refl _)]
      exact .unwired _
  | opened place action rest p hp hb =>
      refine .inr ⟨w.sessions.length, _, some _, ?_, getElem?_convene _, rfl⟩
      rw [List.getElem?_eq_none (Nat.le_refl _)]
      exact .opened _ _
  | missed n i t round answers peer f hs hi ha hf hc =>
      refine .inr ⟨n, _, none, ?_, getElem?_turn hs _, rfl⟩
      rw [hs]
      exact .missed t round answers i peer f hi ha hf hc
  | served n i t round answers peer f hs hi ha hf hc =>
      refine .inr ⟨n, _, some _, ?_, getElem?_turn hs _, rfl⟩
      rw [hs]
      exact .served t round answers i peer f _ _ hi ha hf hc
  | asked n t round next answers hs ha hn =>
      refine .inr ⟨n, _, some _, ?_, getElem?_turn hs _, rfl⟩
      rw [hs]
      exact .asked t round next answers ha hn
  | retried n t round answers p hs ha hn hp hb =>
      refine .inr ⟨n, _, some _, ?_, getElem?_turn hs _, rfl⟩
      rw [hs]
      exact .retried t round answers _ ha hn
  | stranded n t round answers hs ha hn hp =>
      refine .inr ⟨n, _, some _, ?_, getElem?_turn hs _, rfl⟩
      rw [hs]
      exact .stranded t round answers ha hn
  | closed n t round answers outcome hs ha hn =>
      refine .inr ⟨n, _, some _, ?_, getElem?_turn hs _, rfl⟩
      rw [hs]
      exact .closed t round answers outcome ha hn

theorem Change.suffix (h : Change κ w v) : w.minutes <:+ v.minutes := by
  rcases h.turn with ⟨_, h⟩ | ⟨n, s, e, _, _, h⟩
  · rw [h]
  · rw [h]
    exact List.suffix_append _ _

theorem suffix_of_changes (h : Changes κ w v) : w.minutes <:+ v.minutes := by
  induction h with
  | refl => exact List.suffix_refl _
  | tail _ hc ih => exact ih.trans hc.suffix

theorem Change.minutes_eq (h : Change κ w v) : v.minutes = w.minutes ∨ ∃ e, v.minutes = e :: w.minutes := by
  rcases h.turn with ⟨_, h⟩ | ⟨n, s, e, _, _, h⟩
  · exact .inl h
  · cases e with
    | none => exact .inl h
    | some e => exact .inr ⟨e, h⟩

theorem exists_change_of_suffix {e : Minute} {L : List Minute} (h : Changes κ (start c) v)
    (he : e :: L <:+ v.minutes) :
    ∃ u u', Changes κ (start c) u ∧ Change κ u u' ∧ u.minutes = L ∧ u'.minutes = e :: L ∧ Changes κ u' v := by
  induction h with
  | refl => exact absurd he (by simp [start])
  | @tail u u' hu hc ih =>
      rcases hc.minutes_eq with hm | ⟨e', hm⟩
      · rw [hm] at he
        obtain ⟨x, y, hx, hxy, hL, hy, hyu⟩ := ih he
        exact ⟨x, y, hx, hxy, hL, hy, hyu.tail hc⟩
      · rw [hm, List.suffix_cons_iff] at he
        rcases he with he | he
        · obtain ⟨rfl, rfl⟩ := List.cons.inj he
          exact ⟨u, u', hu, hc, rfl, hm, .refl⟩
        · obtain ⟨x, y, hx, hxy, hL, hy, hyu⟩ := ih he
          exact ⟨x, y, hx, hxy, hL, hy, hyu.tail hc⟩

theorem exists_suffix_of_mem {e : Minute} {L : List Minute} (h : e ∈ L) : ∃ L', e :: L' <:+ L := by
  obtain ⟨L₁, L₂, rfl⟩ := List.append_of_mem h
  exact ⟨L₂, List.suffix_append _ _⟩

theorem exists_first_of_mem {e : Minute} {L : List Minute} (h : e ∈ L) : ∃ L', e :: L' <:+ L ∧ e ∉ L' := by
  induction L with
  | nil => cases h
  | cons e' L ih =>
      by_cases he : e ∈ L
      · obtain ⟨L', hL, hn⟩ := ih he
        exact ⟨L', hL.trans (List.suffix_cons _ _), hn⟩
      · obtain rfl := (List.mem_cons.1 h).resolve_right he
        exact ⟨L, List.suffix_refl _, he⟩

theorem session_of_mem (h : Changes κ (start c) v) : ∀ e ∈ v.minutes, v.sessions[e.session]?.isSome := by
  induction h with
  | refl => simp [start]
  | tail _ hc ih =>
      rcases hc.turn with ⟨hs, hm⟩ | ⟨n, s, e, ht, hs, hm⟩
      · rwa [hs, hm]
      · intro e' he'
        rw [hm, List.mem_append, Option.mem_toList] at he'
        rw [hs]
        rcases he' with he' | he'
        · obtain rfl := Option.mem_def.1 he'
          simp [ht.session_eq]
        · split
          · rfl
          · exact ih e' he'

theorem trace_of_changes (h : Changes κ (start c) v) {n : Nat} {s : Session} (hs : v.sessions[n]? = some s) :
    Session.Trace κ n (Minute.own n v.minutes) s := by
  induction h generalizing n s with
  | refl => simp [start] at hs
  | @tail u v hu hc ih =>
      rcases hc.turn with ⟨hv, hl⟩ | ⟨m, s', e, ht, hv, hl⟩
      · rw [hl]
        exact ih (hv ▸ hs)
      · rw [hv] at hs
        rw [hl, Minute.own_append]
        split at hs
        · obtain rfl := Option.some.inj hs
          subst m
          rw [ht.own_toList]
          cases ho : u.sessions[n]? with
          | none =>
              rw [ho] at ht
              rw [Minute.own_eq_nil fun e he hn => by simpa [hn, ho] using session_of_mem hu e he, List.append_nil]
              exact .first ht
          | some s₀ => exact .later (ih ho) (ho ▸ ht)
        · rw [ht.own_toList_of_ne ‹_›]
          exact ih hs

end Synod

end SynodStore

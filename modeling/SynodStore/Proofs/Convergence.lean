import SynodStore.Proofs.Learning
import SynodStore.Proofs.Slots

namespace SynodStore

open Scenario (Fate)

variable {L : List Minute} {n : Nat} {t : Mandate} {round : Round} {answers : List (Option Answer)}

/-- A session at its calls has announced what its request announces, and those replicas have heard of it whose
answers have come in. -/
structure Telling (L : List Minute) (t : Mandate) (round : Round) (answers : List (Option Answer)) : Prop where
  announced : announcements L = (round.request t.sender).announcement?.toList
  length : answers.length = t.peers.length
  heard : ∀ i x : Nat, t.peers[i]? = some x → heardAt L x = if answers[i]? = some none then [] else announcements L

def Session.Told (L : List Minute) (s : Session) : Prop :=
  match s.status with
  | .running round answers => Telling L s.mandate round answers
  | .returned _ => ∀ x ∈ s.mandate.peers, heardAt L x = announcements L

namespace Telling

theorem facing (ha : announcements L = []) (hh : ∀ x ∈ t.peers, heardAt L x = []) :
    Telling (.called n (round.request t.sender) :: L) t round (t.peers.map fun _ => none) where
  announced := by
    cases h : (round.request t.sender).announcement? <;> simp [announcements, Minute.announced?, h, ← ha]
  length := List.length_map ..
  heard i x hx := by
    rw [heardAt_cons_of_none (by rfl), hh x (List.mem_of_getElem? hx), if_pos (by rw [List.getElem?_map, hx]; rfl)]

theorem serve {i peer : Nat} {a : Answer} {reply : Reply} {held : Option Slot} (h : Telling L t round answers)
    (hp : t.peers.Nodup) (hi : t.peers[i]? = some peer) (ha : answers[i]? = some none) :
    Telling (.served n peer (round.request t.sender) reply held :: L) t round (answers.set i (some a)) where
  announced := h.announced
  length := by rw [List.length_set, h.length]
  heard j x hj := by
    have hold := h.heard j x hj
    have hsame : announcements (.served n peer (round.request t.sender) reply held :: L) = announcements L := rfl
    rw [hsame]
    by_cases hij : i = j
    · subst j
      have hlt := (List.getElem?_eq_some_iff.1 ha).1
      obtain rfl := Option.some.inj (hi.symm.trans hj)
      rw [if_pos ha] at hold
      rw [List.getElem?_set_self hlt, if_neg (by simp), h.announced]
      cases hq : (round.request t.sender).announcement? with
      | none => rw [heardAt_cons_of_none (by simp [Minute.heard?, hq]), hold, Option.toList_none]
      | some m => rw [heardAt_cons_of_some (m := m) (by simp [Minute.heard?, hq]), hold, Option.toList_some]
    · have hne : peer ≠ x := fun he => by
        have hlt := (List.getElem?_eq_some_iff.1 hi).1
        exact hij ((List.getElem?_inj hlt hp).1 (hi.trans (he ▸ hj.symm)))
      rw [List.getElem?_set_ne hij, heardAt_cons_of_none (by simp [Minute.heard?, hne])]
      exact hold

theorem heard_all (h : Telling L t round answers) (ha : ∀ a ∈ answers, a.isSome) :
    ∀ x ∈ t.peers, heardAt L x = announcements L := by
  intro x hx
  obtain ⟨i, hi⟩ := List.mem_iff_getElem?.1 hx
  rw [h.heard i x hi, if_neg fun hn => ?_]
  have := ha none (List.mem_of_getElem? hn)
  cases this

theorem silent (h : Telling L t round answers) (ha : ∀ a ∈ answers, a.isSome)
    (hn : (round.request t.sender).announcement? = none) :
    announcements L = [] ∧ ∀ x ∈ t.peers, heardAt L x = [] := by
  have he : announcements L = [] := by rw [h.announced, hn, Option.toList_none]
  exact ⟨he, fun x hx => (h.heard_all ha x hx).trans he⟩

end Telling

theorem Round.announcement?_request (sender : UInt32) (h : ∀ value outcome, round.stage ≠ .learn value outcome) :
    (round.request sender).announcement? = none := by
  obtain ⟨action, ballot, retried, stage⟩ := round
  cases stage with
  | prepare => rfl
  | accept value => rfl
  | learn value outcome => exact absurd rfl (h value outcome)

namespace Session

theorem Trace.told {s : Session} (h : Trace .calm n L s) (hp : s.mandate.peers.Nodup) : s.Told L := by
  induction h with
  | first h =>
      cases h with
      | unwired t => intro x _; rfl
      | opened t b => exact .facing rfl fun _ _ => rfl
  | @later L s s' e _ h ih =>
      rw [h.mandate_eq] at hp
      have ih := ih hp
      cases h with
      | missed t round answers i peer f hi ha hf hc =>
          obtain rfl : f = .pass := by simpa [Conditions.calm] using hf
          cases hc
      | served t round answers i peer f reply held hi ha hf hc => exact ih.serve hp hi ha
      | asked t round next answers ha hn =>
          have hc := round.conclusion t.config (answers.filterMap id)
          rw [hn] at hc
          have hq : (round.request t.sender).announcement? = none := by
            cases hc with
            | promised hr => exact Round.announcement?_request _ (by simp [hr])
            | degraded value hr => exact Round.announcement?_request _ (by simp [hr])
            | accepted value hr => exact Round.announcement?_request _ (by simp [hr])
          obtain ⟨hs, hh⟩ := Telling.silent ih ha hq
          exact .facing hs hh
      | retried t round answers b ha hn =>
          have hc := round.conclusion t.config (answers.filterMap id)
          rw [hn] at hc
          cases hc with
          | retry value hr =>
              obtain ⟨hs, hh⟩ := Telling.silent ih ha (Round.announcement?_request _ (by simp [hr]))
              exact .facing hs hh
      | stranded t round answers ha hn =>
          have hall := Telling.heard_all ih ha
          exact hall
      | closed t round answers outcome ha hn =>
          have hall := Telling.heard_all ih ha
          exact hall

end Session

variable {β : Type}

theorem perm_flatMap_cons {g g' : Nat → List β} {i N : Nat} {b : β} (hi : i < N) (hg : g' i = b :: g i)
    (hne : ∀ n, n ≠ i → g' n = g n) : (b :: (List.range N).flatMap g).Perm ((List.range N).flatMap g') := by
  induction N with
  | zero => cases hi
  | succ N ih =>
      simp only [List.range_succ, List.flatMap_append, List.flatMap_singleton]
      by_cases he : i = N
      · subst i
        have hsame : (List.range N).flatMap g' = (List.range N).flatMap g :=
          List.flatMap_congr fun n hn => hne n (List.mem_range.1 hn).ne
        rw [hsame, hg]
        exact List.perm_middle.symm
      · rw [hne N (Ne.symm he)]
        exact (ih (by omega)).append_right _

theorem filterMap_perm_own (f : Minute → Option β) {N : Nat} (h : ∀ e ∈ L, e.session < N) :
    (L.filterMap f).Perm ((List.range N).flatMap fun n => (Minute.own n L).filterMap f) := by
  induction L with
  | nil => simp [Minute.own]
  | cons e L ih =>
      have ih := ih fun e he => h e (List.mem_cons_of_mem _ he)
      have hown : Minute.own e.session (e :: L) = e :: Minute.own e.session L := by simp [Minute.own]
      have hne (n : Nat) (hn : n ≠ e.session) : Minute.own n (e :: L) = Minute.own n L := by
        simp [Minute.own, hn.symm]
      cases hf : f e with
      | none =>
          rw [List.filterMap_cons_none hf]
          refine ih.trans (List.Perm.of_eq (List.flatMap_congr fun n _ => ?_))
          by_cases hn : n = e.session
          · rw [hn, hown, List.filterMap_cons_none hf]
          · rw [hne n hn]
      | some b =>
          rw [List.filterMap_cons_some hf]
          refine (ih.cons b).trans (perm_flatMap_cons (h e List.mem_cons_self) ?_ fun n hn => ?_)
          · rw [hown, List.filterMap_cons_some hf]
          · rw [hne n hn]

namespace Synod

def Quiescent (w : Synod) : Prop :=
  ∀ s ∈ w.sessions, s.finished

def Converged (w : Synod) : Prop :=
  ∀ r ∈ w.cluster.replicas, ∀ r' ∈ w.cluster.replicas, r.learner.store = r'.learner.store

variable {c : Cluster} {w : Synod}

theorem heardAt_perm (hw : c.Wired) (h : Changes .calm (start c) w) (hq : w.Quiescent) {x : Nat}
    (hx : x ∈ c.places) : (heardAt w.minutes x).Perm (announcements w.minutes) := by
  have hN : ∀ e ∈ w.minutes, e.session < w.sessions.length := fun e he => by
    simpa using session_of_mem h e he
  refine (filterMap_perm_own _ hN).trans (List.Perm.trans ?_ (filterMap_perm_own _ hN).symm)
  refine List.Perm.of_eq (List.flatMap_congr fun n hn => ?_)
  obtain ⟨⟨t, status⟩, hs⟩ : ∃ s, w.sessions[n]? = some s := ⟨_, List.getElem?_eq_getElem (List.mem_range.1 hn)⟩
  have hmem := List.mem_of_getElem? hs
  obtain ⟨p, hp, ht⟩ := mandate_of_changes h hmem
  have htold := (trace_of_changes h hs).told (ht.peers ▸ hw.nodup hp)
  cases status with
  | running round answers => cases hq _ hmem
  | returned outcome =>
      refine htold x ?_
      rw [ht.peers]
      exact (hw.peers p hp).mem_iff.2 hx

/-- Where no call is lost every replica hears every announcement once, and the maps come to be the same just when
the last announcements for each key leave the same everywhere. -/
theorem converged_iff (hc : c.Fresh) (hw : c.Wired) (h : Run .calm (start c) w) (hq : w.Quiescent) :
    (∀ x ∈ c.places, (heardAt w.minutes x).Perm (announcements w.minutes)) ∧
    (w.Converged ↔ ∀ k, ∀ x ∈ c.places, ∀ y ∈ c.places,
      lastValue? (heardAt w.minutes x) k = lastValue? (heardAt w.minutes y) k) := by
  have hfresh : ∀ r ∈ c.replicas, r.learner = .fresh := fun r hr => by
    obtain ⟨id, stream, rfl⟩ := hc r hr
    rfl
  have hlearnt := learnt_of_changes h.changes (by simp [Conditions.calm]) hfresh hw h.bounded_start
  have hlen := length_replicas_of_changes h.changes
  have hplace {x : Nat} (hx : x ∈ c.places) : ∃ r, w.cluster.replicas[x]? = some r :=
    ⟨_, List.getElem?_eq_getElem (hlen ▸ List.mem_range.1 hx)⟩
  refine ⟨fun x hx => heardAt_perm hw h.changes hq hx, ?_, ?_⟩
  · intro hconv k x hx y hy
    obtain ⟨r, hr⟩ := hplace hx
    obtain ⟨r', hr'⟩ := hplace hy
    rw [← (hlearnt x r hr).store, ← (hlearnt y r' hr').store,
      hconv r (List.mem_of_getElem? hr) r' (List.mem_of_getElem? hr')]
  · intro hlast r hr r' hr'
    obtain ⟨x, hx⟩ := List.mem_iff_getElem?.1 hr
    obtain ⟨y, hy⟩ := List.mem_iff_getElem?.1 hr'
    have hxc : x ∈ c.places := List.mem_range.2 (hlen ▸ (List.getElem?_eq_some_iff.1 hx).1)
    have hyc : y ∈ c.places := List.mem_range.2 (hlen ▸ (List.getElem?_eq_some_iff.1 hy).1)
    apply Std.ExtTreeMap.ext_getElem?
    intro k
    rw [(hlearnt x r hx).store, (hlearnt y r' hy).store, hlast k x hxc y hyc]

end Synod

end SynodStore

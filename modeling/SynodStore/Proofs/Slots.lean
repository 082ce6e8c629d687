import SynodStore.Proofs.Serving
import SynodStore.Proofs.Wiring

namespace SynodStore

open Scenario (Fate)

namespace Conditions

/-- No learner hears an announcement, and nothing is done to the replicas but calling them. -/
structure Quiet (κ : Conditions) : Prop where
  learn : ∀ m f, κ.fate (.learn m) f → f.carried = false
  operation : ∀ o, ¬ κ.operation o

theorem quiet_deaf : deaf.Quiet where
  learn m f hf := by
    obtain rfl : f = .refuse := by simpa [deaf] using hf
    rfl
  operation o := by simp [deaf]

theorem quiet_lossy : lossy.Quiet where
  learn m f hf := by
    obtain rfl : f = .refuse := by simpa [lossy] using hf
    rfl
  operation o := by simp [lossy]

end Conditions

/-- What the minutes of a replica say about the slot of a key. A vote is firm when its ballot was promised. -/
structure Slot.Recorded (L : List Minute) (x : Nat) (k : String) (s : Slot) : Prop where
  prepared : ∀ n m reply held, .served n x (.prepare m) reply held ∈ L → m.key = k →
    ∃ b ∈ s.promised, m.ballot ≤ b
  voted : ∀ n m v held, .served n x (.accept m) (.vote (some v)) (some held) ∈ L → m.action.key = k →
    held.promised = some m.ballot → (∃ b ∈ s.promised, m.ballot ≤ b) ∧ ∃ u ∈ s.accepted, m.ballot ≤ u.ballot
  source : ∀ u ∈ s.accepted, ∃ n m held, .served n x (.accept m) (.vote (some u)) held ∈ L ∧
    m.vote = u ∧ m.action.key = k

namespace Slot.Recorded

variable {L : List Minute} {x : Nat} {k : String} {s : Slot}

theorem fresh : Slot.fresh.Recorded [] x k := by
  refine ⟨by simp, by simp, ?_⟩
  intro u hu
  cases hu

theorem cons (h : s.Recorded L x k) {e : Minute}
    (hp : ∀ n m reply held, e = .served n x (.prepare m) reply held → m.key = k →
      ∃ b ∈ s.promised, m.ballot ≤ b)
    (hv : ∀ n m v held, e = .served n x (.accept m) (.vote (some v)) held → m.action.key ≠ k) :
    s.Recorded (e :: L) x k where
  prepared n m reply held hm hk := by
    rcases List.mem_cons.1 hm with hm | hm
    · exact hp n m reply held hm.symm hk
    · exact h.prepared n m reply held hm hk
  voted n m v held hm hk hf := by
    rcases List.mem_cons.1 hm with hm | hm
    · exact absurd hk (hv n m v _ hm.symm)
    · exact h.voted n m v held hm hk hf
  source u hu := by
    obtain ⟨n, m, held, hm, hu⟩ := h.source u hu
    exact ⟨n, m, held, List.mem_cons_of_mem _ hm, hu⟩

variable {n : Nat}

theorem prepare_admitted {m : Prepare} (h : s.Recorded L x m.key) (ha : s.admitsPrepare m.ballot = true)
    (reply : Reply) (held : Option Slot) :
    { s with promised := some m.ballot }.Recorded (.served n x (.prepare m) reply held :: L) x m.key := by
  have hup {b : Ballot} (hb : ∃ b' ∈ s.promised, b ≤ b') : b ≤ m.ballot := by
    obtain ⟨b', hb', hle⟩ := hb
    rw [Option.mem_def] at hb'
    have hlt : b' < m.ballot := by simpa [Slot.admitsPrepare, hb'] using ha
    exact hle.trans hlt.le
  refine ⟨?_, ?_, ?_⟩
  · intro n' m' reply' held' hm hk
    refine ⟨m.ballot, rfl, ?_⟩
    rcases List.mem_cons.1 hm with hm | hm
    · cases hm
      exact Ballot.le_refl _
    · exact hup (h.prepared n' m' reply' held' hm hk)
  · intro n' m' v held' hm hk hp
    rcases List.mem_cons.1 hm with hm | hm
    · cases hm
    · obtain ⟨hb, hu⟩ := h.voted n' m' v held' hm hk hp
      exact ⟨⟨m.ballot, rfl, hup hb⟩, hu⟩
  · intro u hu
    obtain ⟨n', m', held', hm, hu⟩ := h.source u hu
    exact ⟨n', m', held', List.mem_cons_of_mem _ hm, hu⟩

/-- Once a vote is firm no lower vote is cast, as the promise stands at its ballot or above. -/
theorem accept_admitted {m : Proposal} (h : s.Recorded L x m.action.key) (ha : s.admitsAccept m.ballot = true) :
    { s with accepted := some m.vote }.Recorded
      (.served n x (.accept m) (.vote (some m.vote)) (some { s with accepted := some m.vote }) :: L) x
      m.action.key := by
  refine ⟨?_, ?_, ?_⟩
  · intro n' m' reply' held' hm hk
    rcases List.mem_cons.1 hm with hm | hm
    · cases hm
    · exact h.prepared n' m' reply' held' hm hk
  · intro n' m' v held' hm hk hp
    rcases List.mem_cons.1 hm with hm | hm
    · cases hm
      exact ⟨⟨m.ballot, hp, Ballot.le_refl _⟩, m.vote, rfl, Ballot.le_refl _⟩
    · obtain ⟨⟨b, hb, hle⟩, -⟩ := h.voted n' m' v held' hm hk hp
      have hb' : b ≤ m.ballot := by
        rw [Option.mem_def] at hb
        simpa [Slot.admitsAccept, hb] using ha
      exact ⟨⟨b, hb, hle⟩, m.vote, rfl, hle.trans hb'⟩
  · intro u hu
    obtain rfl := Option.some.inj hu
    exact ⟨n, m, _, List.mem_cons_self, rfl, rfl⟩

end Slot.Recorded

namespace Acceptor

variable {L : List Minute} {x n : Nat} {a : Acceptor}

theorem slot_update_self (k : String) (s : Slot) : (a.update k s).slot k = s := by
  rw [slot, slot?_update_self, Option.getD_some]

theorem slot_update_of_ne {k k' : String} (h : k ≠ k') (s : Slot) : (a.update k s).slot k' = a.slot k' := by
  rw [slot, slot?_update_of_ne h, slot]

theorem slot_fresh (id : UInt32) (k : String) : (fresh id).slot k = .fresh := by
  rw [slot, slot?_fresh, Option.getD_none]

theorem recorded_prepare (h : ∀ k, (a.slot k).Recorded L x k) (m : Prepare) (held : Option Slot) (k : String) :
    ((a.prepare m).2.slot k).Recorded (.served n x (.prepare m) (.promise (a.prepare m).1) held :: L) x k := by
  simp only [prepare]
  cases ha : (a.slot m.key).admitsPrepare m.ballot with
  | true =>
      by_cases hk : m.key = k
      · subst k
        simpa only [if_true, slot_update_self] using (h m.key).prepare_admitted ha _ _
      · simp only [if_true, slot_update_of_ne hk]
        apply (h k).cons
        · intro n' m' reply held he hk'
          cases he
          exact absurd hk' hk
        · intro n' m' v held he
          cases he
  | false =>
      simp only [Bool.false_eq_true, if_false]
      apply (h k).cons
      · intro n' m' reply held he hk
        cases he
        subst k
        cases hs : (a.slot m.key).promised with
        | none => simp [Slot.admitsPrepare, hs] at ha
        | some b =>
            refine ⟨b, rfl, Ballot.not_lt.1 ?_⟩
            simpa [Slot.admitsPrepare, hs] using ha
      · intro n' m' v held he
        cases he

theorem recorded_accept (h : ∀ k, (a.slot k).Recorded L x k) (m : Proposal) (k : String) :
    ((a.accept m).2.slot k).Recorded
      (.served n x (.accept m) (.vote (a.accept m).1) ((a.accept m).2.slot? m.action.key) :: L) x k := by
  simp only [accept]
  cases ha : (a.slot m.action.key).admitsAccept m.ballot with
  | true =>
      by_cases hk : m.action.key = k
      · subst k
        simpa only [if_true, slot_update_self, slot?_update_self] using (h m.action.key).accept_admitted ha
      · simp only [if_true, slot_update_of_ne hk]
        apply (h k).cons
        · intro n' m' reply held he
          cases he
        · intro n' m' v held he
          cases he
          exact hk
  | false =>
      simp only [Bool.false_eq_true, if_false]
      apply (h k).cons
      · intro n' m' reply held he
        cases he
      · intro n' m' v held he
        cases he

end Acceptor

namespace Supervisor

variable {α : Type} {s : Supervisor} {a : Acceptor}

theorem serve_of_steady (h : s.lease = .live a none) (f : Acceptor → α × Acceptor) :
    s.serve f = (some (f a).1, { s with lease := .live (f a).2 none }) := by
  simp [serve, check, visit, h]

end Supervisor

def Replica.Recorded (L : List Minute) (x : Nat) (r : Replica) : Prop :=
  ∃ a, r.supervisor.lease = .live a none ∧ ∀ k, (a.slot k).Recorded L x k

namespace Synod

variable {κ : Conditions} {c : Cluster} {v w : Synod}

def Recorded (w : Synod) : Prop :=
  ∀ (x : Nat) (r : Replica), w.cluster.replicas[x]? = some r → r.Recorded w.minutes x

theorem Recorded.of_same (h : w.Recorded) (hr : v.cluster.replicas = w.cluster.replicas)
    (hm : v.minutes = w.minutes ∨
      ∃ e, v.minutes = e :: w.minutes ∧ ∀ n x q reply held, e ≠ .served n x q reply held) :
    v.Recorded := by
  intro x r hx
  obtain ⟨a, hl, ha⟩ := h x r (hr ▸ hx)
  refine ⟨a, hl, ?_⟩
  intro k
  rcases hm with hm | ⟨e, hm, he⟩
  · exact hm ▸ ha k
  · rw [hm]
    exact (ha k).cons (fun n m reply held he' => absurd he' (he n x _ reply held))
      (fun n m v held he' => absurd he' (he n x _ _ held))

theorem Recorded.serve {q : Request} (h : w.Recorded) (hq : ∀ m, q ≠ .learn m) (n peer : Nat) :
    (w.serve n peer q).2.Recorded := by
  intro x r hx
  rcases Cluster.replica_of_call hx with ⟨rfl, r₀, hr, rfl⟩ | ⟨hp, hr⟩
  · simp only [Synod.serve]
    rw [Cluster.slot?_call hr, Cluster.call_of_some hr]
    obtain ⟨a, hl, ha⟩ := h peer r₀ hr
    cases q with
    | prepare m =>
        simp only [Replica.Recorded, Replica.answer, Replica.prepare, Supervisor.serve_of_steady hl]
        exact ⟨_, rfl, Acceptor.recorded_prepare ha m _⟩
    | accept m =>
        simp only [Replica.Recorded, Replica.answer, Replica.accept, Supervisor.serve_of_steady hl]
        exact ⟨_, rfl, Acceptor.recorded_accept ha m⟩
    | learn m => exact absurd rfl (hq m)
  · obtain ⟨a, hl, ha⟩ := h x r hr
    refine ⟨a, hl, fun k => (ha k).cons (fun n' m reply held he => ?_) (fun n' m v held he => ?_)⟩
    · exact absurd (Minute.served.inj he).2.1 hp
    · exact absurd (Minute.served.inj he).2.1 hp

theorem Recorded.of_slot? {x : Nat} {k : String} {s : Slot} (h : w.Recorded) (hs : w.cluster.slot? x k = some s) :
    s.Recorded w.minutes x k := by
  simp only [Cluster.slot?, Option.bind_eq_bind, Option.bind_eq_some_iff] at hs
  obtain ⟨r, hr, a, ha, hs⟩ := hs
  obtain ⟨a', hl, hrec⟩ := h x r hr
  obtain rfl : a' = a := by simpa [Supervisor.current?, hl] using ha
  have hk := hrec k
  rwa [Acceptor.slot, hs, Option.getD_some] at hk

theorem Recorded.exists_slot? {n x : Nat} {m : Proposal} {v : Vote} {held : Slot} (h : w.Recorded)
    (hx : x < w.cluster.replicas.length) (hm : .served n x (.accept m) (.vote (some v)) (some held) ∈ w.minutes)
    (hf : held.promised = some m.ballot) : ∃ s, w.cluster.slot? x m.action.key = some s ∧
      (∃ b ∈ s.promised, m.ballot ≤ b) ∧ ∃ u ∈ s.accepted, m.ballot ≤ u.ballot := by
  obtain ⟨a, hl, ha⟩ := h x _ (List.getElem?_eq_getElem hx)
  obtain ⟨hp, hu⟩ := (ha m.action.key).voted n m v held hm rfl hf
  refine ⟨a.slot m.action.key, ?_, hp, hu⟩
  cases hs : a.slot? m.action.key with
  | none =>
      rw [Acceptor.slot, hs] at hu
      obtain ⟨u, hu, -⟩ := hu
      cases hu
  | some s =>
      simp only [Cluster.slot?, List.getElem?_eq_getElem hx, Option.bind_eq_bind, Option.bind_some,
        Supervisor.current?, hl, hs, Acceptor.slot, Option.getD_some]

theorem recorded_of_changes (h : Changes κ (start c) w) (hκ : κ.Quiet) (hc : c.Fresh) : w.Recorded := by
  induction h with
  | refl =>
      intro x r hx
      obtain ⟨id, stream, rfl⟩ := hc r (List.mem_of_getElem? hx)
      exact ⟨.fresh id, rfl, fun k => Acceptor.slot_fresh id k ▸ Slot.Recorded.fresh⟩
  | @tail w v _ hv ih =>
      cases hv with
      | unwired | opened | asked | retried | stranded | closed =>
          exact ih.of_same rfl (.inr ⟨_, rfl, Session.minute_ne_served _ _⟩)
      | missed n i t round answers peer f hs hi ha hf hc => exact ih.of_same rfl (.inl rfl)
      | served n i t round answers peer f hs hi ha hf hcar =>
          refine (ih.serve (q := round.request t.sender) (fun m hm => ?_) n peer).of_same rfl (.inl rfl)
          rw [hm] at hf
          simp [hκ.learn m f hf] at hcar
      | operated place o ho => exact absurd ho (hκ.operation o)

end Synod

end SynodStore

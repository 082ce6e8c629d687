import SynodStore.Proofs.Leftovers

namespace SynodStore

namespace Acceptor

variable {a : Acceptor} {k : String} {b : Ballot}

def Bound (k : String) (b : Ballot) (a : Acceptor) : Prop :=
  ∃ s, a.slot? k = some s ∧ ∃ b' ∈ s.promised, b ≤ b'

theorem Bound.promised (h : a.Bound k b) : ∃ b', (a.slot k).promised = some b' ∧ b ≤ b' := by
  obtain ⟨s, hs, hb⟩ := h
  rwa [slot, hs]

theorem bound_update {s : Slot} (h : ∃ b' ∈ s.promised, b ≤ b') : (a.update k s).Bound k b :=
  ⟨s, slot?_update_self s, h⟩

theorem Bound.of_slot? {a' : Acceptor} (h : a.Bound k b) (hs : a'.slot? k = a.slot? k) : a'.Bound k b := by
  rwa [Bound, hs]

theorem bound_of_promise {m : Prepare} {p : Promise} (h : (a.prepare m).1 = some p) :
    (a.prepare m).2.Bound m.key m.ballot :=
  ⟨_, (slot?_prepare h).2, m.ballot, rfl, le_rfl⟩

namespace Bound

theorem prepare (h : a.Bound k b) (m : Prepare) : (a.prepare m).2.Bound k b := by
  by_cases hk : m.key = k
  · subst k
    obtain ⟨b', hb', hle⟩ := h.promised
    simp only [Acceptor.prepare]
    split
    · rename_i ha
      have hlt : b' < m.ballot := by simpa [Slot.admitsPrepare, hb'] using ha
      exact bound_update ⟨m.ballot, rfl, hle.trans hlt.le⟩
    · exact h
  · exact h.of_slot? (slot?_prepare_of_ne hk)

theorem accept (h : a.Bound k b) (m : Proposal) : (a.accept m).2.Bound k b := by
  by_cases hk : m.action.key = k
  · subst k
    simp only [Acceptor.accept]
    split
    · exact bound_update h.promised
    · exact h
  · exact h.of_slot? (slot?_accept_of_ne hk)

theorem clear (h : a.Bound k b) {key : String} (hk : key ≠ k) : (a.clear key).Bound k b :=
  h.of_slot? (slot?_clear_of_ne hk)

theorem refuses_prepare {m : Prepare} (h : a.Bound m.key b) (hm : m.ballot ≤ b) : (a.prepare m).1 = none := by
  obtain ⟨b', hb', hle⟩ := h.promised
  have ha : (a.slot m.key).admitsPrepare m.ballot = false := by
    simpa [Slot.admitsPrepare, hb'] using hm.trans hle
  simp [Acceptor.prepare, ha]

theorem refuses_accept {m : Proposal} (h : a.Bound m.action.key b) (hm : m.ballot < b) : (a.accept m).1 = none := by
  obtain ⟨b', hb', hle⟩ := h.promised
  have ha : (a.slot m.action.key).admitsAccept m.ballot = false := by
    simpa [Slot.admitsAccept, hb'] using hm.trans_le hle
  simp [Acceptor.accept, ha]

end Bound

end Acceptor

namespace Supervisor

variable {α : Type} {Q : Acceptor → Prop} {s t u : Supervisor}

/-- Checks come to this: the acceptor stays or goes down, or an empty one has taken its place, and then the
generation is a new one. -/
inductive Aged (s t : Supervisor) : Prop
  | same (hg : t.generation = s.generation) (hc : ∀ a, t.current? = some a → s.current? = some a)
  | renewed (hg : s.generation < t.generation) (hc : t.IfUp fun a => ∃ id, a = .fresh id)

theorem aged_install (s : Supervisor) : s.Aged s.install :=
  .renewed (Nat.lt_succ_self _) (ifUp_install ⟨s.id, rfl⟩)

theorem aged_wait (s : Supervisor) (n : Nat) : s.Aged (s.wait n) := by
  simp only [wait]
  split
  · exact aged_install s
  · exact .same rfl fun a ha => by cases ha

theorem generation_check_of_up (h : s.check.1 = true) : s.check.2.generation = s.generation := by
  cases hl : s.lease with
  | down n => simp [check, hl] at h
  | live a n =>
      cases n with
      | none => simp [check, hl]
      | some n => cases n <;> simp_all [check]

theorem check_of_down (h : s.check.1 = false) : ∃ n, s.check.2 = s.wait n := by
  cases hl : s.lease with
  | down n => exact ⟨n - 1, by simp [check, hl]⟩
  | live a n =>
      cases n with
      | none => simp [check, hl] at h
      | some n =>
          cases n with
          | zero => exact ⟨s.recoveryDelay, by simp [check, hl]⟩
          | succ n => simp [check, hl] at h

theorem aged_check (s : Supervisor) : s.Aged s.check.2 := by
  cases hc : s.check.1 with
  | true => exact .same (generation_check_of_up hc) fun a ha => current?_check_of_up hc ▸ ha
  | false =>
      obtain ⟨n, hn⟩ := check_of_down hc
      exact hn ▸ aged_wait s n

theorem isSome_current?_check (h : s.check.2.generation ≠ s.generation) : s.check.2.current?.isSome := by
  cases hc : s.check.1 with
  | true => exact absurd (generation_check_of_up hc) h
  | false =>
      obtain ⟨n, hn⟩ := check_of_down hc
      rw [hn, wait] at h ⊢
      split at h
      · rw [if_pos ‹_›, current?_install]
        rfl
      · exact absurd rfl h

theorem Aged.trans (h : s.Aged t) (h' : t.Aged u) : s.Aged u := by
  cases h' with
  | same hg hc =>
      cases h with
      | same hg' hc' => exact .same (hg.trans hg') fun a ha => hc' a (hc a ha)
      | renewed hg' hc' => exact .renewed (hg ▸ hg') fun a ha => hc' a (hc a ha)
  | renewed hg hc =>
      cases h with
      | same hg' _ => exact .renewed (hg' ▸ hg) hc
      | renewed hg' _ => exact .renewed (hg'.trans hg) hc

theorem aged_checks (n : Nat) (s : Supervisor) : s.Aged (s.checks n).2 := by
  induction n generalizing s with
  | zero => exact .same rfl fun a ha => ha
  | succ n ih => exact (aged_check s).trans (ih s.check.2)

inductive Reaching (f : Acceptor → α × Acceptor) (s : Supervisor) : Option α × Supervisor → Prop
  | served {a : Acceptor} {t : Supervisor} (hs : s.current? = some a) (ht : t.current? = some (f a).2)
      (hg : t.generation = s.generation) : Reaching f s (some (f a).1, t)
  | missed {t : Supervisor} (h : s.Aged t) : Reaching f s (none, t)

theorem reaching_visit (f : Acceptor → α × Acceptor) (s : Supervisor) : Reaching f s (s.visit f) := by
  cases h : s.current? with
  | none =>
      rw [visit_of_down f h]
      exact .missed (.same rfl fun a ha => ha)
  | some a =>
      have hv : s.visit f = (some (f a).1, (s.visit f).2) := Prod.ext (by rw [fst_visit, h]; rfl) rfl
      rw [hv]
      exact .served h (by rw [current?_visit, h]; rfl) (generation_visit f)

theorem reaching_serve (f : Acceptor → α × Acceptor) (s : Supervisor) : Reaching f s (s.serve f) := by
  simp only [serve]
  cases hc : s.check.1 with
  | false => exact .missed (aged_check s)
  | true =>
      rw [if_pos rfl]
      have hv := reaching_visit f s.check.2
      generalize s.check.2.visit f = p at hv ⊢
      cases hv with
      | missed h => exact .missed ((aged_check s).trans h)
      | served hs ht hg =>
          exact .served (current?_check_of_up hc ▸ hs) ht (hg.trans (generation_check_of_up hc))

theorem reaching (live : Bool) (f : Acceptor → α × Acceptor) (s : Supervisor) :
    Reaching f s (Replica.reach live f s) := by
  cases live with
  | false => exact reaching_visit f s
  | true => exact reaching_serve f s

theorem isSome_current?_reach {live : Bool} {f : Acceptor → α × Acceptor}
    (h : (Replica.reach live f s).2.generation ≠ s.generation) : (Replica.reach live f s).2.current?.isSome := by
  cases live with
  | false => exact absurd (generation_visit f) h
  | true =>
      cases hc : s.check.1 with
      | true =>
          simp only [Replica.reach, if_true, serve, hc] at h
          exact absurd ((generation_visit f).trans (generation_check_of_up hc)) h
      | false =>
          simp only [Replica.reach, if_true, serve, hc, Bool.false_eq_true, if_false] at h ⊢
          exact isSome_current?_check h

/-- A property of acceptors that lasts as long as the generation does. An acceptor of a later generation starts
empty. -/
structure Lasts (Q : Acceptor → Prop) (s t : Supervisor) : Prop where
  le : s.generation ≤ t.generation
  kept : t.generation = s.generation → s.IfUp Q → t.IfUp Q
  renewed : t.generation ≠ s.generation → t.IfUp fun a => ∃ id, a = .fresh id

theorem lasts_of_eq (hg : t.generation = s.generation) (h : s.IfUp Q → t.IfUp Q) : Lasts Q s t :=
  ⟨hg.ge, fun _ => h, fun hn => absurd hg hn⟩

theorem Aged.lasts (h : s.Aged t) : Lasts Q s t := by
  cases h with
  | same hg hc => exact lasts_of_eq hg fun h a ha => h a (hc a ha)
  | renewed hg hc => exact ⟨hg.le, fun he => absurd he hg.ne', fun _ => hc⟩

theorem Reaching.lasts {f : Acceptor → α × Acceptor} {p : Option α × Supervisor} (h : Reaching f s p)
    (hf : ∀ a, Q a → Q (f a).2) : Lasts Q s p.2 := by
  cases h with
  | missed h => exact h.lasts
  | served hs ht hg =>
      refine lasts_of_eq hg fun h a' ha' => ?_
      obtain rfl := Option.some.inj (ht.symm.trans ha')
      exact hf _ (h _ hs)

end Supervisor

namespace Replica

/-- The operation makes the acceptor forget the key, because it is learnt or outright. -/
def Operation.erases (k : String) : Operation → Bool
  | acceptor _ (.clear key) => key = k
  | learn m => m.action.key = k
  | _ => false

def run (operations : List Operation) (r : Replica) : Replica :=
  operations.foldl (fun r o => (perform o r).2) r

/-- The highest ballot that the acceptor promised for the key, if one is up and has an entry with a promise. -/
def promised? (k : String) (r : Replica) : Option Ballot := do
  (← (← r.supervisor.current?).slot? k).promised

variable {Q : Acceptor → Prop} {r : Replica} {o : Operation} {operations : List Operation} {k : String} {b : Ballot}

theorem lasts_perform (ho : ∀ live operation, o = .acceptor live operation → ∀ a, Q a → Q (a.perform operation).2)
    (hl : ∀ m, o = .learn m → ∀ a, Q a → Q (a.clear m.action.key)) :
    Supervisor.Lasts Q r.supervisor (perform o r).2.supervisor := by
  cases o with
  | check times => exact (Supervisor.aged_checks times _).lasts
  | crash => exact Supervisor.lasts_of_eq Supervisor.generation_crash Supervisor.IfUp.crash
  | reset => exact (Supervisor.aged_install _).lasts
  | acceptor live operation => exact (Supervisor.reaching live _ _).lasts (ho live operation rfl)
  | learn m => exact (Supervisor.reaching_visit _ _).lasts (hl m rfl)
  | store key value => exact Supervisor.lasts_of_eq rfl fun h => h

theorem lasts_bound (ho : ¬ o.erases k) :
    Supervisor.Lasts (·.Bound k b) r.supervisor (perform o r).2.supervisor := by
  refine lasts_perform (fun live operation he a ha => ?_) fun m he a ha => ?_
  · subst he
    cases operation with
    | prepare m => exact ha.prepare m
    | accept m => exact ha.accept m
    | clear key => exact ha.clear (by simpa [Operation.erases] using ho)
  · subst he
    exact ha.clear (by simpa [Operation.erases] using ho)

theorem generation_le_run (operations : List Operation) (r : Replica) :
    r.supervisor.generation ≤ (r.run operations).supervisor.generation := by
  induction operations generalizing r with
  | nil => exact le_rfl
  | cons o operations ih =>
      have hstep : Supervisor.Lasts (fun _ => True) r.supervisor (perform o r).2.supervisor :=
        lasts_perform (fun _ _ _ _ _ => trivial) fun _ _ _ _ => trivial
      exact hstep.le.trans (ih (perform o r).2)

theorem ifUp_run (hstep : ∀ o ∈ operations, ∀ r : Replica, Supervisor.Lasts Q r.supervisor (perform o r).2.supervisor)
    (h : r.supervisor.IfUp Q) (hg : (r.run operations).supervisor.generation = r.supervisor.generation) :
    (r.run operations).supervisor.IfUp Q := by
  induction operations generalizing r with
  | nil => exact h
  | cons o operations ih =>
      obtain ⟨ho, hos⟩ := List.forall_mem_cons.1 hstep
      have hrest := generation_le_run operations (perform o r).2
      have hrun : r.run (o :: operations) = (perform o r).2.run operations := rfl
      rw [hrun] at hg ⊢
      have hsame : (perform o r).2.supervisor.generation = r.supervisor.generation :=
        Nat.le_antisymm (hg ▸ hrest) (ho r).le
      exact ih hos ((ho r).kept hsame h) (hg.trans hsame.symm)

theorem bound_run (h : r.supervisor.IfUp (·.Bound k b)) (ho : ∀ o ∈ operations, ¬ o.erases k)
    (hg : (r.run operations).supervisor.generation = r.supervisor.generation) :
    (r.run operations).supervisor.IfUp (·.Bound k b) :=
  ifUp_run (fun o hmem _ => lasts_bound (ho o hmem)) h hg

theorem promised?_of_down (h : r.supervisor.current? = none) : r.promised? k = none := by
  simp [promised?, h]

theorem bound_of_promised? (h : r.promised? k = some b) : r.supervisor.IfUp (·.Bound k b) := by
  intro a ha
  simp only [promised?, ha, Option.bind_eq_bind, Option.bind_some, Option.bind_eq_some_iff] at h
  obtain ⟨s, hs, hb⟩ := h
  exact ⟨s, hs, b, hb, le_rfl⟩

theorem promised?_of_bound (h : r.supervisor.IfUp (·.Bound k b)) :
    r.supervisor.current? = none ∨ ∃ b', r.promised? k = some b' ∧ b ≤ b' := by
  cases ha : r.supervisor.current? with
  | none => exact .inl rfl
  | some a =>
      obtain ⟨s, hs, b', hb', hle⟩ := h a ha
      refine .inr ⟨b', ?_, hle⟩
      simp only [promised?, ha, Option.bind_eq_bind, Option.bind_some, hs]
      exact hb'

section

variable {live : Bool} {operation : Acceptor.Operation} {outcome : Acceptor.Outcome}

theorem exists_of_perform (h : (perform (.acceptor live operation) r).1 = .acceptor outcome) :
    ∃ a, r.supervisor.current? = some a ∧ (a.perform operation).1 = outcome ∧
      (perform (.acceptor live operation) r).2.supervisor.current? = some (a.perform operation).2 := by
  have hr := Supervisor.reaching live (·.perform operation) r.supervisor
  simp only [perform] at h ⊢
  generalize reach live (·.perform operation) r.supervisor = p at h hr ⊢
  cases hr with
  | missed _ => cases h
  | served hs ht hg => exact ⟨_, hs, Outcome.acceptor.inj h, ht⟩

theorem bound_of_promise {m : Prepare} {p : Promise}
    (h : (perform (.acceptor live (.prepare m)) r).1 = .acceptor (.promise (some p))) :
    (perform (.acceptor live (.prepare m)) r).2.supervisor.IfUp (·.Bound m.key m.ballot) := by
  obtain ⟨a, -, hp, ha⟩ := exists_of_perform h
  intro a' ha'
  obtain rfl := Option.some.inj (ha.symm.trans ha')
  exact Acceptor.bound_of_promise (Acceptor.Outcome.promise.inj hp)

theorem refuses_prepare {m : Prepare} (h : r.supervisor.IfUp (·.Bound m.key b)) (hm : m.ballot ≤ b) (p : Promise) :
    (perform (.acceptor live (.prepare m)) r).1 ≠ .acceptor (.promise (some p)) := by
  intro hp
  obtain ⟨a, ha, hp, -⟩ := exists_of_perform hp
  have hrefuse := (h a ha).refuses_prepare hm
  rw [Acceptor.Outcome.promise.inj hp] at hrefuse
  cases hrefuse

theorem refuses_accept {m : Proposal} (h : r.supervisor.IfUp (·.Bound m.action.key b)) (hm : m.ballot < b)
    (v : Vote) : (perform (.acceptor live (.accept m)) r).1 ≠ .acceptor (.vote (some v)) := by
  intro hv
  obtain ⟨a, ha, hv, -⟩ := exists_of_perform hv
  have hrefuse := (h a ha).refuses_accept hm
  rw [Acceptor.Outcome.vote.inj hv] at hrefuse
  cases hrefuse

end

theorem tracked_of_renewed (h : (perform o r).2.supervisor.generation ≠ r.supervisor.generation) :
    (∀ a, (perform o r).2.supervisor.current? = some a → a.tracked = 0) ∧
      ((∀ n, o = .check n → n ≤ 1) → (perform o r).2.supervisor.current?.isSome) := by
  have hstep : Supervisor.Lasts (fun _ => True) r.supervisor (perform o r).2.supervisor :=
    lasts_perform (fun _ _ _ _ _ => trivial) fun _ _ _ _ => trivial
  refine ⟨fun a ha => ?_, fun hn => ?_⟩
  · obtain ⟨id, rfl⟩ := hstep.renewed h a ha
    rfl
  · cases o with
    | crash => exact absurd Supervisor.generation_crash h
    | reset => rfl
    | acceptor live operation => exact Supervisor.isSome_current?_reach h
    | learn m => exact absurd (Supervisor.generation_visit _) h
    | store key value => exact absurd rfl h
    | check n =>
        obtain _ | _ | n := n
        · exact absurd rfl h
        · exact Supervisor.isSome_current?_check h
        · exact absurd (hn _ rfl) (by omega)

/-- A promise binds a replica until its key is erased or the generation changes, whatever else is done to the replica
and however often its acceptor goes down meanwhile. A new generation starts without entries. -/
theorem promise_binds (r : Replica) :
    (∀ live m p, (perform (.acceptor live (.prepare m)) r).1 = .acceptor (.promise (some p)) →
      ∀ earlier later, (∀ o ∈ earlier ++ later, ¬ o.erases m.key) →
        let promised := (perform (.acceptor live (.prepare m)) r).2
        let before := promised.run earlier
        let after := before.run later
        after.supervisor.generation = promised.supervisor.generation →
        (∀ live m' p, m'.key = m.key → m'.ballot ≤ m.ballot →
          (perform (.acceptor live (.prepare m')) after).1 ≠ .acceptor (.promise (some p))) ∧
        (∀ live m' v, m'.action.key = m.key → m'.ballot < m.ballot →
          (perform (.acceptor live (.accept m')) after).1 ≠ .acceptor (.vote (some v))) ∧
        (after.supervisor.current? = none ∨ ∃ b, after.promised? m.key = some b ∧ m.ballot ≤ b ∧
          ∀ b', before.promised? m.key = some b' → b' ≤ b)) ∧
    ∀ o, (perform o r).2.supervisor.generation ≠ r.supervisor.generation →
      (∀ a, (perform o r).2.supervisor.current? = some a → a.tracked = 0) ∧
      ((∀ n, o = .check n → n ≤ 1) → (perform o r).2.supervisor.current?.isSome) := by
  constructor
  case right => exact fun o => tracked_of_renewed
  intro live m p hp earlier later ho promised before after hg
  obtain ⟨hearlier, hlater⟩ := List.forall_mem_append.1 ho
  have hsame : before.supervisor.generation = promised.supervisor.generation :=
    Nat.le_antisymm (hg ▸ generation_le_run later before) (generation_le_run earlier promised)
  have hbefore : before.supervisor.IfUp (·.Bound m.key m.ballot) := bound_run (bound_of_promise hp) hearlier hsame
  have hafter : after.supervisor.IfUp (·.Bound m.key m.ballot) :=
    bound_run hbefore hlater (hg.trans hsame.symm)
  refine ⟨fun live m' p hk hb => ?_, fun live m' v hk hb => ?_, ?_⟩
  · exact refuses_prepare (hk ▸ hafter) hb p
  · exact refuses_accept (hk ▸ hafter) hb v
  · refine (promised?_of_bound hafter).imp_right ?_
    rintro ⟨b, hb, hle⟩
    refine ⟨b, hb, hle, fun b' hb' => ?_⟩
    have hlast := bound_run (bound_of_promised? hb') hlater (hg.trans hsame.symm)
    rcases promised?_of_bound hlast with hdown | ⟨b₂, hb₂, hle₂⟩
    · cases (promised?_of_down hdown).symm.trans hb
    · obtain rfl := Option.some.inj (hb.symm.trans hb₂)
      exact hle₂

/-- Another key is promised and learnt, a vote is cast without a promise, and the promise is raised before a check
of the acceptor. Once it has crashed, three checks bring an empty one. -/
theorem promise_binds_raised :
    let r := Replica.start 0 (some ⟨6, 6, 2⟩) (.ofSeed 5)
    let ask (n : UInt64) (k : String) : Operation := .acceptor true (.prepare ⟨⟨n⟩, k, 1⟩)
    let earlier : List Operation := [ask 9 "other", .acceptor false (.accept ⟨⟨7⟩, 2, .put "k" "v"⟩),
      .learn ⟨⟨9⟩, 1, .delete "other"⟩]
    let later : List Operation := [ask 8 "k", .check 1]
    let promised := (perform (ask 5 "k") r).2
    let after := (promised.run earlier).run later
    let crashed := after.run [.crash]
    (perform (ask 5 "k") r).1 = .acceptor (.promise (some ⟨⟨5⟩, none⟩)) ∧ (∀ o ∈ earlier ++ later, ¬ o.erases "k") ∧
    after.supervisor.generation = promised.supervisor.generation ∧ after.promised? "k" = some ⟨8⟩ ∧
    (∀ p, (perform (ask 5 "k") after).1 ≠ .acceptor (.promise (some p))) ∧
    (∀ b, (promised.run earlier).promised? "k" = some b → b ≤ ⟨8⟩) ∧
    (perform (.check 3) crashed).2.supervisor.generation ≠ crashed.supervisor.generation ∧
    ∀ a, (perform (.check 3) crashed).2.supervisor.current? = some a → a.tracked = 0 := by
  intro r ask earlier later promised after crashed
  have hrun : (perform (ask 5 "k") r).1 = .acceptor (.promise (some ⟨⟨5⟩, none⟩)) ∧
      (∀ o ∈ earlier ++ later, ¬ o.erases "k") ∧ after.supervisor.generation = promised.supervisor.generation ∧
      after.promised? "k" = some ⟨8⟩ ∧
      (perform (.check 3) crashed).2.supervisor.generation ≠ crashed.supervisor.generation := by decide +kernel
  obtain ⟨hp, ho, hg, hafter, hnew⟩ := hrun
  obtain ⟨hrefuse, -, hkept⟩ := (promise_binds r).1 true ⟨⟨5⟩, "k", 1⟩ _ hp earlier later ho hg
  refine ⟨hp, ho, hg, hafter, fun p => hrefuse true _ p rfl le_rfl, ?_, hnew, ((promise_binds crashed).2 _ hnew).1⟩
  rcases hkept with hdown | ⟨b, hb, -, hle⟩
  · cases (promised?_of_down hdown).symm.trans hafter
  · obtain rfl := Option.some.inj (hafter.symm.trans hb)
    exact hle

end Replica

end SynodStore

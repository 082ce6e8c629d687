import Mathlib.Algebra.Order.BigOperators.Group.List
import Mathlib.Algebra.Order.Group.Nat
import SynodStore.Proofs.Generations

namespace SynodStore

namespace Acceptor

variable {a a' : Acceptor} {o : Operation}

theorem id_perform (a : Acceptor) (o : Operation) : (a.perform o).2.id = a.id := by
  cases o with
  | clear key => rfl
  | prepare m =>
      simp only [perform, prepare]
      split <;> rfl
  | accept m =>
      simp only [perform, accept]
      split <;> rfl

theorem perform_congr (h : a.slot? o.key = a'.slot? o.key) : (a.perform o).1 = (a'.perform o).1 ∧
    (a.perform o).2.slot? o.key = (a'.perform o).2.slot? o.key := by
  have hslot : a.slot o.key = a'.slot o.key := by rw [slot, h, slot]
  cases o with
  | clear key => exact ⟨rfl, slot?_clear_self.trans slot?_clear_self.symm⟩
  | prepare m =>
      simp only [Operation.key] at h hslot ⊢
      simp only [perform, prepare, hslot]
      split
      · exact ⟨rfl, (slot?_update_self _).trans (slot?_update_self _).symm⟩
      · exact ⟨rfl, h⟩
  | accept m =>
      simp only [Operation.key] at h hslot ⊢
      simp only [perform, accept, hslot]
      split
      · exact ⟨rfl, (slot?_update_self _).trans (slot?_update_self _).symm⟩
      · exact ⟨rfl, h⟩

end Acceptor

namespace Learner

variable {l l' : Learner} {m : Proposal}

theorem learn_congr (h : l.lastApplied? m.action.key = l'.lastApplied? m.action.key)
    (hs : l.store[m.action.key]? = l'.store[m.action.key]?) :
    (l.learn m).lastApplied? m.action.key = (l'.learn m).lastApplied? m.action.key ∧
    (l.learn m).store[m.action.key]? = (l'.learn m).store[m.action.key]? ∧
    (l.learn m).count + l'.count = (l'.learn m).count + l.count := by
  by_cases hm : l.lastApplied? m.action.key = some m.ballot
  · rw [learn_of_applied hm, learn_of_applied (h ▸ hm)]
    exact ⟨h, hs, Nat.add_comm _ _⟩
  · rw [learn_of_not_applied hm, learn_of_not_applied (h ▸ hm)]
    refine ⟨?_, ?_, by dsimp only; omega⟩
    · rw [lastApplied?, getElem?_record, lastApplied?, getElem?_record, if_pos rfl, if_pos rfl]
    · rw [Action.getElem?_apply, Action.getElem?_apply, if_pos rfl, if_pos rfl]

end Learner

namespace Replica

/-- What a replica has of one key: the entry of its acceptor, the value, and the ballot last applied. -/
structure Facet where
  slot : Option Slot
  value : Option String
  applied : Option Ballot
deriving DecidableEq

/-- What operations work on while the acceptor is up. -/
structure Holdings where
  acceptor : Acceptor
  learner : Learner

def Holdings.facet (k : String) (h : Holdings) : Facet :=
  ⟨h.acceptor.slot? k, h.learner.store[k]?, h.learner.lastApplied? k⟩

def facet (k : String) (r : Replica) : Facet :=
  ⟨r.supervisor.current?.bind (·.slot? k), r.learner.store[k]?, r.learner.lastApplied? k⟩

def holding (r : Replica) (budget : Option Nat) (h : Holdings) : Replica :=
  { r with supervisor := { r.supervisor with lease := .live h.acceptor budget }, learner := h.learner }

def answers : List Operation → Replica → List Outcome
  | [], _ => []
  | o :: operations, r => (perform o r).1 :: answers operations (perform o r).2

def StaysUp (operations : List Operation) (r : Replica) : Prop :=
  (r.run operations).supervisor.current?.isSome ∧
    (r.run operations).supervisor.generation = r.supervisor.generation

instance (operations : List Operation) (r : Replica) : Decidable (r.StaysUp operations) :=
  inferInstanceAs (Decidable (_ ∧ _))

namespace Operation

def key? : Operation → Option String
  | acceptor _ operation => some operation.key
  | learn m => some m.action.key
  | store key _ => some key
  | _ => none

def concerns (k : String) (o : Operation) : Bool :=
  o.key? = some k

theorem concerns_iff {o : Operation} {k : String} : o.concerns k ↔ o.key? = some k := decide_eq_true_iff

def act : Operation → Holdings → Outcome × Holdings
  | acceptor _ operation, h =>
    let p := h.acceptor.perform operation
    (.acceptor p.1, { h with acceptor := p.2 })
  | learn m, h => (.done, ⟨h.acceptor.clear m.action.key, h.learner.learn m⟩)
  | store key value, h =>
    (.done, { h with learner := { h.learner with store := h.learner.store.insert key value } })
  | _, h => (.done, h)

def spends : Operation → Nat
  | acceptor live _ => live.toNat
  | _ => 0

end Operation

namespace Holdings

variable {h h' : Holdings} {k : String} {o o₁ o₂ : Operation} {operations : List Operation}

def run (operations : List Operation) (h : Holdings) : Holdings :=
  operations.foldl (fun h o => (o.act h).2) h

def answers : List Operation → Holdings → List Outcome
  | [], _ => []
  | o :: operations, h => (o.act h).1 :: answers operations (o.act h).2

theorem ext_facet (hid : h.acceptor.id = h'.acceptor.id) (hcount : h.learner.count = h'.learner.count)
    (hfacet : ∀ k, h.facet k = h'.facet k) : h = h' := by
  obtain ⟨⟨id, slots⟩, ⟨store, applied, count⟩⟩ := h
  obtain ⟨⟨id', slots'⟩, ⟨store', applied', count'⟩⟩ := h'
  obtain rfl : id = id' := hid
  obtain rfl : count = count' := hcount
  obtain rfl : slots = slots' := Std.ExtTreeMap.ext_getElem? fun k => congrArg Facet.slot (hfacet k)
  obtain rfl : store = store' := Std.ExtTreeMap.ext_getElem? fun k => congrArg Facet.value (hfacet k)
  obtain rfl : applied = applied' := Std.ExtTreeMap.ext_getElem? fun k => congrArg Facet.applied (hfacet k)
  rfl

theorem id_act (o : Operation) (h : Holdings) : (o.act h).2.acceptor.id = h.acceptor.id := by
  cases o with
  | acceptor live operation => exact Acceptor.id_perform _ _
  | learn m => rfl
  | _ => rfl

theorem facet_act_of_ne (hk : o.key? ≠ some k) : (o.act h).2.facet k = h.facet k := by
  cases o with
  | acceptor live operation =>
      have hne : operation.key ≠ k := fun he => hk (congrArg some he)
      simp only [facet, Operation.act, Acceptor.slot?_perform_of_ne hne]
  | learn m =>
      have hne : m.action.key ≠ k := fun he => hk (congrArg some he)
      simp only [facet, Operation.act, Acceptor.slot?_clear_of_ne hne, Learner.store_learn_of_ne hne,
        Learner.lastApplied?_learn_of_ne hne]
  | store key value =>
      have hne : key ≠ k := fun he => hk (congrArg some he)
      simp [facet, Operation.act, Std.ExtTreeMap.getElem?_insert, hne, Learner.lastApplied?]
  | _ => rfl

theorem act_congr (hk : o.key? = some k) (hf : h.facet k = h'.facet k) : (o.act h).1 = (o.act h').1 ∧
    (o.act h).2.facet k = (o.act h').2.facet k ∧
    (o.act h).2.learner.count + h'.learner.count = (o.act h').2.learner.count + h.learner.count := by
  obtain ⟨hslot, hvalue, happlied⟩ := Facet.mk.inj hf
  cases o with
  | acceptor live operation =>
      obtain rfl := Option.some.inj hk
      obtain ⟨houtcome, hafter⟩ := Acceptor.perform_congr hslot
      refine ⟨congrArg Outcome.acceptor houtcome, ?_, Nat.add_comm _ _⟩
      simp only [facet, Operation.act, hafter, hvalue, happlied]
  | learn m =>
      obtain rfl := Option.some.inj hk
      obtain ⟨hlast, hstore, hcount⟩ := Learner.learn_congr happlied hvalue
      refine ⟨rfl, ?_, hcount⟩
      simp only [facet, Operation.act, hlast, hstore, Acceptor.slot?_clear_self]
  | store key value =>
      obtain rfl := Option.some.inj hk
      refine ⟨rfl, ?_, Nat.add_comm _ _⟩
      simp only [facet, Operation.act, hslot, Std.ExtTreeMap.getElem?_insert_self, Learner.lastApplied?]
      exact congrArg (Facet.mk _ _) happlied
  | _ => cases hk

/-- What happens to a key is what the operations on it come to on their own. -/
theorem run_filter (hf : h.facet k = h'.facet k) :
    answers (operations.filter (·.concerns k)) h' =
      ((operations.zip (answers operations h)).filter (·.1.concerns k)).map (·.2) ∧
    (h'.run (operations.filter (·.concerns k))).facet k = (h.run operations).facet k := by
  induction operations generalizing h h' with
  | nil => exact ⟨rfl, hf.symm⟩
  | cons o operations ih =>
      rw [answers, List.zip_cons_cons]
      by_cases hk : o.concerns k
      · obtain ⟨houtcome, hafter, -⟩ := act_congr (Operation.concerns_iff.1 hk) hf
        obtain ⟨hanswers, hrun⟩ := ih hafter
        simp only [List.filter_cons, if_pos hk, answers, hanswers, List.map_cons, houtcome]
        exact ⟨trivial, hrun⟩
      · have hne : o.key? ≠ some k := fun he => hk (Operation.concerns_iff.2 he)
        obtain ⟨hanswers, hrun⟩ := ih ((facet_act_of_ne hne).trans hf)
        simp only [List.filter_cons, if_neg hk]
        exact ⟨hanswers, hrun⟩

theorem act_comm (h₁ : o₁.key?.isSome) (h₂ : o₂.key?.isSome) (hne : o₁.key? ≠ o₂.key?) (h : Holdings) :
    (o₂.act (o₁.act h).2).2 = (o₁.act (o₂.act h).2).2 ∧ (o₂.act (o₁.act h).2).1 = (o₂.act h).1 ∧
    (o₁.act (o₂.act h).2).1 = (o₁.act h).1 := by
  obtain ⟨k₁, hk₁⟩ := Option.isSome_iff_exists.1 h₁
  obtain ⟨k₂, hk₂⟩ := Option.isSome_iff_exists.1 h₂
  have hne₁ : o₁.key? ≠ some k₂ := fun he => hne (he.trans hk₂.symm)
  have hne₂ : o₂.key? ≠ some k₁ := fun he => hne (hk₁.trans he.symm)
  obtain ⟨houtcome₁, hfacet₁, hcount₁⟩ := act_congr hk₁ (facet_act_of_ne (h := h) hne₂)
  obtain ⟨houtcome₂, hfacet₂, hcount₂⟩ := act_congr hk₂ (facet_act_of_ne (h := h) hne₁)
  refine ⟨ext_facet (by simp only [id_act]) (by omega) fun k => ?_, houtcome₂, houtcome₁⟩
  by_cases hk : o₁.key? = some k
  · obtain rfl : k₁ = k := Option.some.inj (hk₁.symm.trans hk)
    rw [facet_act_of_ne hne₂, hfacet₁]
  · rw [facet_act_of_ne hk]
    by_cases hk' : o₂.key? = some k
    · obtain rfl : k₂ = k := Option.some.inj (hk₂.symm.trans hk')
      exact hfacet₂
    · rw [facet_act_of_ne hk', facet_act_of_ne hk', facet_act_of_ne hk]

theorem run_append (xs ys : List Operation) (h : Holdings) : h.run (xs ++ ys) = (h.run xs).run ys :=
  List.foldl_append

theorem answers_append (xs ys : List Operation) (h : Holdings) :
    answers (xs ++ ys) h = answers xs h ++ answers ys (h.run xs) := by
  induction xs generalizing h with
  | nil => rfl
  | cons o xs ih => exact congrArg ((o.act h).1 :: ·) (ih (o.act h).2)

theorem length_answers (operations : List Operation) (h : Holdings) :
    (answers operations h).length = operations.length := by
  induction operations generalizing h with
  | nil => rfl
  | cons o operations ih => exact congrArg (· + 1) (ih (o.act h).2)

end Holdings

def spent (operations : List Operation) : Nat :=
  (operations.map Operation.spends).sum

def Affords (budget : Option Nat) (n : Nat) : Prop :=
  ∀ m ∈ budget, n ≤ m

variable {r : Replica} {budget : Option Nat} {h : Holdings} {o : Operation} {operations : List Operation} {n m : Nat}

theorem affords_sub (hn : Affords budget n) : Affords (budget.map (· - n)) m ↔ Affords budget (n + m) := by
  cases budget with
  | none => simp [Affords]
  | some b =>
      have hle : n ≤ b := hn b rfl
      simp only [Affords, Option.map_some, Option.mem_some_iff, forall_eq']
      omega

theorem serve_live {α : Type} {s : Supervisor} {a : Acceptor} {f : Acceptor → α × Acceptor}
    (hs : s.lease = .live a budget) (hb : Affords budget 1) :
    s.serve f = (some (f a).1, { s with lease := .live (f a).2 (budget.map (· - 1)) }) := by
  cases budget with
  | none => simp [Supervisor.serve, Supervisor.check, hs, Supervisor.visit]
  | some n =>
      obtain ⟨n, rfl⟩ : ∃ n', n = n' + 1 := Nat.exists_eq_succ_of_ne_zero (Nat.ne_of_gt (hb n rfl))
      simp [Supervisor.serve, Supervisor.check, hs, Supervisor.visit]

theorem perform_holding (hkey : o.key?.isSome) (hb : Affords budget o.spends) :
    perform o (r.holding budget h) = ((o.act h).1, r.holding (budget.map (· - o.spends)) (o.act h).2) := by
  have hfree (hspends : o.spends = 0) : budget.map (· - o.spends) = budget := by simp [hspends]
  cases o with
  | acceptor live operation =>
      cases live with
      | true =>
          simp only [perform, reach, if_true, serve_live (s := (r.holding budget h).supervisor) rfl hb]
          rfl
      | false =>
          rw [hfree rfl]
          rfl
  | learn m =>
      rw [hfree rfl]
      rfl
  | store key value =>
      rw [hfree rfl]
      rfl
  | _ => cases hkey

/-- While the acceptor stays up, a replica does what its holdings tell. -/
theorem run_holding (hkeys : ∀ o ∈ operations, o.key?.isSome) (hb : Affords budget (spent operations)) :
    answers operations (r.holding budget h) = h.answers operations ∧
    (r.holding budget h).run operations = r.holding (budget.map (· - spent operations)) (h.run operations) := by
  induction operations generalizing budget h with
  | nil => exact ⟨rfl, by simp [spent, run, Holdings.run]⟩
  | cons o operations ih =>
      obtain ⟨hkey, hkeys⟩ := List.forall_mem_cons.1 hkeys
      rw [spent, List.map_cons, List.sum_cons, ← spent] at hb
      have ho : Affords budget o.spends := fun m hm => (Nat.le_add_right _ _).trans (hb m hm)
      obtain ⟨hanswers, hrun⟩ := ih hkeys ((affords_sub ho).2 hb) (h := (o.act h).2)
      have hstep := perform_holding (r := r) (h := h) hkey ho
      refine ⟨?_, ?_⟩
      · rw [answers, hstep, hanswers]
        rfl
      · have hsum : (budget.map (· - o.spends)).map (· - spent operations) =
            budget.map (· - spent (o :: operations)) := by simp [spent, Function.comp_def, Nat.sub_sub]
        rw [← hsum]
        exact (congrArg (fun p => p.2.run operations) hstep).trans hrun

theorem exists_holding (hup : r.supervisor.current?.isSome) : ∃ budget h, r = r.holding budget h := by
  obtain ⟨id, ⟨_, plan, lease, stream, generation⟩, learner⟩ := r
  cases lease with
  | live a n => exact ⟨n, ⟨a, learner⟩, rfl⟩
  | down n => cases hup

theorem staysUp_of_affords (hkeys : ∀ o ∈ operations, o.key?.isSome) (hb : Affords budget (spent operations)) :
    (r.holding budget h).StaysUp operations := by
  have hrun := (run_holding (r := r) (h := h) hkeys hb).2
  exact ⟨by rw [hrun]; rfl, by rw [hrun]; rfl⟩

theorem lost_of_not_affords (ho : ¬ Affords budget o.spends) :
    let after := (perform o (r.holding budget h)).2.supervisor
    after.current? = none ∨ r.supervisor.generation < after.generation := by
  have hfree (hspends : o.spends = 0) : Affords budget o.spends := fun m _ => hspends ▸ Nat.zero_le m
  cases o with
  | acceptor live operation =>
      cases live with
      | false => exact absurd (hfree rfl) ho
      | true =>
          obtain rfl : budget = some 0 := by
            cases budget with
            | none => exact absurd (fun m hm => by cases hm) ho
            | some n =>
                have hn : ¬ 1 ≤ n := fun hle => ho fun m hm => by cases hm; exact hle
                rw [Nat.lt_one_iff.1 (Nat.not_le.1 hn)]
          let s := (r.holding (some 0) h).supervisor
          have hwait : ∀ n, (s.wait n).current? = none ∨ s.generation < (s.wait n).generation := by
            intro n
            by_cases hn : n = 0
            · exact .inr (by simp [Supervisor.wait, hn, Supervisor.install])
            · exact .inl (by simp [Supervisor.wait, hn, Supervisor.current?])
          exact hwait s.recoveryDelay
  | _ => exact absurd (hfree rfl) ho

theorem not_staysUp_of_down (hdown : r.supervisor.current? = none) : ¬ r.StaysUp operations := by
  rintro ⟨hup, hg⟩
  have hnone : (r.run operations).supervisor.IfUp fun _ => False :=
    ifUp_run (fun _ _ _ => lasts_perform (fun _ _ _ _ ha => ha) fun _ _ _ ha => ha)
      (by simp [Supervisor.IfUp, hdown]) hg
  obtain ⟨a, ha⟩ := Option.isSome_iff_exists.1 hup
  exact hnone a ha

theorem affords_of_staysUp (hkeys : ∀ o ∈ operations, o.key?.isSome)
    (hup : (r.holding budget h).StaysUp operations) : Affords budget (spent operations) := by
  induction operations generalizing budget h with
  | nil => exact fun m _ => Nat.zero_le m
  | cons o operations ih =>
      obtain ⟨hkey, hkeys⟩ := List.forall_mem_cons.1 hkeys
      have hrun : (r.holding budget h).run (o :: operations) =
        (perform o (r.holding budget h)).2.run operations := rfl
      rw [StaysUp, hrun] at hup
      by_cases ho : Affords budget o.spends
      · rw [perform_holding hkey ho] at hup
        exact (affords_sub ho).1 (ih hkeys hup)
      · exfalso
        let lost := (perform o (r.holding budget h)).2
        have hle : lost.supervisor.generation ≤ r.supervisor.generation := hup.2 ▸ generation_le_run operations lost
        rcases lost_of_not_affords (r := r) (h := h) ho with hdown | hlt
        · have hge : r.supervisor.generation ≤ lost.supervisor.generation :=
            generation_le_run [o] (r.holding budget h)
          exact not_staysUp_of_down hdown ⟨hup.1, hup.2.trans (Nat.le_antisymm hge hle)⟩
        · exact absurd hlt (Nat.not_lt.2 hle)

theorem spent_filter_le (p : Operation → Bool) (operations : List Operation) :
    spent (operations.filter p) ≤ spent operations :=
  (List.filter_sublist.map _).sum_le_sum fun _ _ => Nat.zero_le _

section

variable (hkeys : ∀ o ∈ operations, o.key?.isSome) (hb : Affords budget (spent operations))

include hkeys hb

theorem holding_filter (k : String) :
    let s := r.holding budget h
    let own := operations.filter (·.concerns k)
    s.StaysUp own ∧ answers own s = ((operations.zip (answers operations s)).filter (·.1.concerns k)).map (·.2) ∧
    (s.run own).facet k = (s.run operations).facet k := by
  intro s own
  have hown : ∀ o ∈ own, o.key?.isSome := fun o ho => hkeys o (List.mem_of_mem_filter ho)
  have hless : Affords budget (spent own) := fun m hm => (spent_filter_le _ _).trans (hb m hm)
  obtain ⟨hanswers, hrun⟩ := run_holding (r := r) (h := h) hkeys hb
  obtain ⟨hanswers', hrun'⟩ := run_holding (r := r) (h := h) hown hless
  obtain ⟨hfilter, hfacet⟩ := @Holdings.run_filter h h k operations rfl
  refine ⟨staysUp_of_affords hown hless, ?_, ?_⟩
  · rw [hanswers', hanswers, hfilter]
  · rw [hrun', hrun]
    exact hfacet

theorem holding_swap {xs ys : List Operation} {o₁ o₂ : Operation} (ho : operations = xs ++ o₁ :: o₂ :: ys)
    (hne : o₁.key? ≠ o₂.key?) :
    let s := r.holding budget h
    let swapped := xs ++ o₂ :: o₁ :: ys
    s.run swapped = s.run operations ∧
    ∃ before a₁ a₂ later, before.length = xs.length ∧
      answers operations s = before ++ a₁ :: a₂ :: later ∧ answers swapped s = before ++ a₂ :: a₁ :: later := by
  intro s swapped
  have hperm : swapped.Perm operations := ho ▸ (List.Perm.swap o₁ o₂ ys).append_left xs
  have hspent : spent swapped = spent operations := (hperm.map _).sum_eq
  have hswapped : ∀ o ∈ swapped, o.key?.isSome := fun o ho => hkeys o (hperm.mem_iff.1 ho)
  obtain ⟨hanswers, hrun⟩ := run_holding (r := r) (h := h) hkeys hb
  obtain ⟨hanswers', hrun'⟩ := run_holding (r := r) (h := h) hswapped (hspent ▸ hb)
  have h₁ : o₁.key?.isSome := hkeys o₁ (by simp [ho])
  have h₂ : o₂.key?.isSome := hkeys o₂ (by simp [ho])
  obtain ⟨hact, hact₂, hact₁⟩ := Holdings.act_comm h₁ h₂ hne (h.run xs)
  subst ho
  constructor
  · have hsame : h.run swapped = h.run (xs ++ o₁ :: o₂ :: ys) := by
      rw [Holdings.run_append, Holdings.run_append]
      exact congrArg (Holdings.run ys) hact.symm
    rw [hrun', hrun, hspent, hsame]
  · let later := Holdings.answers ys (o₂.act (o₁.act (h.run xs)).2).2
    refine ⟨_, (o₁.act (h.run xs)).1, (o₂.act (h.run xs)).1, later, Holdings.length_answers xs h, ?_, ?_⟩
    · rw [hanswers, Holdings.answers_append, Holdings.answers, Holdings.answers, hact₂]
    · rw [hanswers', Holdings.answers_append, Holdings.answers, Holdings.answers, hact₁, ← hact]

end

/-- On a replica whose acceptor stays up, what happens to a key is what the operations on it come to on their own, and
operations on different keys may change places. -/
theorem keys_apart (hkeys : ∀ o ∈ operations, o.key?.isSome) (hup : r.StaysUp operations) :
    (∀ k, let own := operations.filter (·.concerns k)
      r.StaysUp own ∧ answers own r = ((operations.zip (answers operations r)).filter (·.1.concerns k)).map (·.2) ∧
      (r.run own).facet k = (r.run operations).facet k) ∧
    ∀ xs o₁ o₂ ys, operations = xs ++ o₁ :: o₂ :: ys → o₁.key? ≠ o₂.key? →
      let swapped := xs ++ o₂ :: o₁ :: ys
      r.run swapped = r.run operations ∧
      ∃ before a₁ a₂ later, before.length = xs.length ∧
        answers operations r = before ++ a₁ :: a₂ :: later ∧ answers swapped r = before ++ a₂ :: a₁ :: later := by
  have hfirst : r.supervisor.current?.isSome := by
    by_contra hdown
    exact not_staysUp_of_down (Option.not_isSome_iff_eq_none.1 hdown) hup
  obtain ⟨budget, h, hr⟩ := exists_holding hfirst
  rw [hr] at hup
  have hb : Affords budget (spent operations) := affords_of_staysUp hkeys hup
  rw [hr]
  exact ⟨holding_filter hkeys hb, fun _ _ _ _ => holding_swap hkeys hb⟩

/-- One key is learnt and the other is cleared, on an acceptor that survives six checks. The votes change places. -/
theorem keys_apart_counted :
    let r := Replica.start 0 (some ⟨6, 6, 2⟩) (.ofSeed 5)
    let ask (n : UInt64) (k : String) : Operation := .acceptor true (.prepare ⟨⟨n⟩, k, 1⟩)
    let vote (n : UInt64) (k v : String) : Operation := .acceptor true (.accept ⟨⟨n⟩, 1, .put k v⟩)
    let before : List Operation := [ask 16 "a", ask 32 "b"]
    let after : List Operation := [.learn ⟨⟨16⟩, 1, .put "a" "v"⟩, .acceptor false (.clear "b"), ask 8 "a"]
    let operations := before ++ vote 16 "a" "v" :: vote 32 "b" "w" :: after
    let own := operations.filter (·.concerns "a")
    let swapped := before ++ vote 32 "b" "w" :: vote 16 "a" "v" :: after
    (∀ o ∈ operations, o.key?.isSome) ∧ r.StaysUp operations ∧ r.StaysUp own ∧
    answers own r = [.acceptor (.promise (some ⟨⟨16⟩, none⟩)), .acceptor (.vote (some ⟨⟨16⟩, .put "a" "v"⟩)), .done,
      .acceptor (.promise (some ⟨⟨8⟩, none⟩))] ∧
    (r.run own).facet "a" = ⟨some ⟨some ⟨8⟩, none⟩, some "v", some ⟨16⟩⟩ ∧ r.run swapped = r.run operations := by
  intro r ask vote before after operations own swapped
  have hrun : (∀ o ∈ operations, o.key?.isSome) ∧ r.StaysUp operations ∧
      ((operations.zip (answers operations r)).filter (·.1.concerns "a")).map (·.2) =
        [.acceptor (.promise (some ⟨⟨16⟩, none⟩)), .acceptor (.vote (some ⟨⟨16⟩, .put "a" "v"⟩)), .done,
          .acceptor (.promise (some ⟨⟨8⟩, none⟩))] ∧
      (r.run operations).facet "a" = ⟨some ⟨some ⟨8⟩, none⟩, some "v", some ⟨16⟩⟩ := by decide +kernel
  obtain ⟨hkeys, hup, hanswers, hfacet⟩ := hrun
  obtain ⟨hown, hswap⟩ := keys_apart hkeys hup
  obtain ⟨hupown, hanswers', hfacet'⟩ := hown "a"
  exact ⟨hkeys, hup, hupown, hanswers'.trans hanswers, hfacet'.trans hfacet, (hswap before _ _ after rfl (by decide)).1⟩

end Replica

end SynodStore

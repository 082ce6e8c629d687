import SynodStore.Proofs.Polls
import SynodStore.Proofs.Slots
import SynodStore.Replica.Operation

namespace SynodStore

open Scenario (Fate)

namespace Acceptor

/-- All votes that the acceptor remembers are among these, key by key. -/
def VotesIn (P : String → Vote → Prop) (a : Acceptor) : Prop :=
  ∀ k s v, a.slot? k = some s → s.accepted = some v → P k v

variable {P Q : String → Vote → Prop} {a : Acceptor}

def Blank (a : Acceptor) : Prop :=
  ∀ k, a.slot? k = none

theorem blank_fresh (id : UInt32) : (fresh id).Blank :=
  fun _ => slot?_fresh id

theorem votesIn_fresh (id : UInt32) : (fresh id).VotesIn P := by
  intro k s v hs
  rw [slot?_fresh] at hs
  cases hs

namespace VotesIn

theorem mono (h : a.VotesIn P) (hPQ : ∀ k v, P k v → Q k v) : a.VotesIn Q :=
  fun k s v hs hv => hPQ k v (h k s v hs hv)

theorem of_slot (h : a.VotesIn P) {k : String} {v : Vote} (hv : (a.slot k).accepted = some v) : P k v := by
  rw [slot] at hv
  cases hs : a.slot? k with
  | none =>
      rw [hs] at hv
      cases hv
  | some s =>
      rw [hs] at hv
      exact h k s v hs hv

theorem update (h : a.VotesIn P) {key : String} {s : Slot} (hs : ∀ v, s.accepted = some v → P key v) :
    (a.update key s).VotesIn P := by
  intro k s' v hs' hv
  by_cases hk : key = k
  · subst k
    rw [slot?_update_self] at hs'
    obtain rfl := Option.some.inj hs'
    exact hs v hv
  · rw [slot?_update_of_ne hk] at hs'
    exact h k s' v hs' hv

theorem prepare (h : a.VotesIn P) (m : Prepare) : (a.prepare m).2.VotesIn P := by
  simp only [Acceptor.prepare]
  split
  · exact h.update fun v hv => h.of_slot hv
  · exact h

theorem promise (h : a.VotesIn P) {m : Prepare} {p : Promise} (hp : (a.prepare m).1 = some p) {v : Vote}
    (hv : p.accepted = some v) : P m.key v := by
  obtain ⟨rfl, -⟩ := slot?_prepare hp
  exact h.of_slot hv

theorem accept (h : a.VotesIn P) {m : Proposal} (hm : P m.action.key m.vote) : (a.accept m).2.VotesIn P := by
  simp only [Acceptor.accept]
  split
  · refine h.update fun v hv => ?_
    obtain rfl := Option.some.inj hv
    exact hm
  · exact h

theorem vote (h : a.VotesIn P) {m : Proposal} {v : Vote} (hv : (a.accept m).1 = some v) :
    (a.accept m).2.VotesIn fun k u => if k = m.action.key then u = m.vote else P k u := by
  simp only [Acceptor.accept] at hv ⊢
  split at hv
  · rename_i ha
    rw [if_pos ha]
    intro k s u hs hu
    by_cases hk : k = m.action.key
    · subst k
      rw [slot?_update_self] at hs
      obtain rfl := Option.some.inj hs
      rw [if_pos rfl]
      exact (Option.some.inj hu).symm
    · rw [slot?_update_of_ne (Ne.symm hk)] at hs
      rw [if_neg hk]
      exact h k s u hs hu
  · cases hv

theorem clear (h : a.VotesIn P) (key : String) : (a.clear key).VotesIn fun k v => k ≠ key ∧ P k v := by
  intro k s v hs hv
  by_cases hk : key = k
  · subst k
    rw [slot?_clear_self] at hs
    cases hs
  · rw [slot?_clear_of_ne hk] at hs
    exact ⟨Ne.symm hk, h k s v hs hv⟩

end VotesIn

end Acceptor

namespace Supervisor

variable {α : Type} {P : String → Vote → Prop} {Q R : Acceptor → Prop} {s : Supervisor}

def IfUp (Q : Acceptor → Prop) (s : Supervisor) : Prop :=
  ∀ a, s.current? = some a → Q a

theorem ifUp_install (h : Q (.fresh s.id)) : s.install.IfUp Q := by
  intro a ha
  rw [current?_install] at ha
  obtain rfl := Option.some.inj ha
  exact h

theorem ifUp_wait (h : Q (.fresh s.id)) (n : Nat) : (s.wait n).IfUp Q := by
  simp only [wait]
  split
  · exact ifUp_install h
  · intro a ha
    cases ha

theorem ifUp_check_of_down (h : Q (.fresh s.id)) (hc : s.check.1 = false) : s.check.2.IfUp Q := by
  cases hl : s.lease with
  | down n =>
      simp only [check, hl]
      exact ifUp_wait h _
  | live a n =>
      cases n with
      | none => simp [check, hl] at hc
      | some n =>
          cases n with
          | zero =>
              simp only [check, hl]
              exact ifUp_wait h _
          | succ n => simp [check, hl] at hc

namespace IfUp

theorem mono (h : s.IfUp Q) (hQR : ∀ a, Q a → R a) : s.IfUp R :=
  fun a ha => hQR a (h a ha)

theorem check (h : s.IfUp Q) (hf : ∀ id, Q (.fresh id)) : s.check.2.IfUp Q := by
  cases hc : s.check.1 with
  | false => exact ifUp_check_of_down (hf _) hc
  | true =>
      intro a ha
      rw [current?_check_of_up hc] at ha
      exact h a ha

theorem checks (h : s.IfUp Q) (hf : ∀ id, Q (.fresh id)) (n : Nat) : (s.checks n).2.IfUp Q := by
  induction n generalizing s with
  | zero => exact h
  | succ n ih => exact ih (h.check hf)

theorem visit {f : Acceptor → α × Acceptor} (h : s.IfUp Q) (hf : ∀ a, Q a → R (f a).2) : (s.visit f).2.IfUp R := by
  intro a ha
  rw [current?_visit, Option.map_eq_some_iff] at ha
  obtain ⟨b, hb, rfl⟩ := ha
  exact hf b (h b hb)

theorem serve {f : Acceptor → α × Acceptor} (h : s.IfUp Q) (hR : ∀ id, R (.fresh id)) (hf : ∀ a, Q a → R (f a).2) :
    (s.serve f).2.IfUp R := by
  simp only [Supervisor.serve]
  cases hc : s.check.1 with
  | false => exact ifUp_check_of_down (hR _) hc
  | true =>
      refine IfUp.visit (Q := Q) ?_ hf
      intro a ha
      rw [current?_check_of_up hc] at ha
      exact h a ha

theorem reach {f : Acceptor → α × Acceptor} (h : s.IfUp Q) (hQ : ∀ id, Q (.fresh id))
    (hf : ∀ a, Q a → Q (f a).2) (live : Bool) : (Replica.reach live f s).2.IfUp Q := by
  cases live with
  | false => exact h.visit hf
  | true => exact h.serve hQ hf

theorem crash (h : s.IfUp Q) : s.crash.IfUp Q := by
  intro a ha
  rw [current?_crash] at ha
  exact h a ha

theorem clear (h : s.IfUp (·.VotesIn P)) (key : String) :
    (s.clear key).IfUp (·.VotesIn fun k v => k ≠ key ∧ P k v) :=
  h.visit fun _ ha => ha.clear key

end IfUp

end Supervisor

namespace Replica

def Operation.proposal? : Operation → Option Proposal
  | acceptor _ (.accept m) => some m
  | learn m => some m
  | _ => none

variable {P : String → Vote → Prop} {r : Replica}

def VotesIn (P : String → Vote → Prop) (r : Replica) : Prop :=
  r.supervisor.IfUp (·.VotesIn P)

theorem votesIn_start (id : UInt32) (plan : Option CrashPlan) (stream : KeyStream) :
    (start id plan stream).VotesIn P :=
  Supervisor.ifUp_install (Acceptor.votesIn_fresh _)

namespace VotesIn

theorem answer (h : r.VotesIn P) {q : Request} (hq : ∀ m, q = .accept m → P m.action.key m.vote) :
    (r.answer q).2.VotesIn P := by
  cases q with
  | prepare m => exact Supervisor.IfUp.serve h Acceptor.votesIn_fresh fun a ha => ha.prepare m
  | accept m => exact Supervisor.IfUp.serve h Acceptor.votesIn_fresh fun a ha => ha.accept (hq m rfl)
  | learn m => exact (Supervisor.IfUp.clear h _).mono fun a ha => ha.mono fun k v hv => hv.2

theorem promise (h : r.VotesIn P) {m : Prepare} {p : Promise} (hp : (r.answer (.prepare m)).1 = .promise (some p))
    {v : Vote} (hv : p.accepted = some v) : P m.key v := by
  obtain ⟨a, ha, hpa, -⟩ := Supervisor.current?_serve (Option.join_eq_some_iff.1 (Reply.promise.inj hp))
  exact (h a ha).promise hpa hv

theorem vote (h : r.VotesIn P) {m : Proposal} {v : Vote} (hv : (r.answer (.accept m)).1 = .vote (some v)) :
    (r.answer (.accept m)).2.VotesIn fun k u => if k = m.action.key then u = m.vote else P k u := by
  obtain ⟨a, ha, hva, ha'⟩ := Supervisor.current?_serve (Option.join_eq_some_iff.1 (Reply.vote.inj hv))
  intro a' hcurrent
  obtain rfl := Option.some.inj (ha'.symm.trans hcurrent)
  exact (h a ha).vote hva

theorem meet (h : r.VotesIn P) {q : Request} (hq : ∀ m, q = .accept m → P m.action.key m.vote) (f : Fate) :
    (r.meet q f).2.VotesIn P := by
  simp only [Replica.meet]
  split
  · exact h.answer hq
  · exact h

theorem learn (h : r.VotesIn P) (m : Proposal) :
    (r.learn m).VotesIn fun k v => k ≠ m.action.key ∧ P k v :=
  Supervisor.IfUp.clear h _

theorem perform {o : Operation} (h : r.VotesIn P) (ho : ∀ m, o.proposal? = some m → P m.action.key m.vote) :
    (perform o r).2.VotesIn P := by
  cases o with
  | check times => exact Supervisor.IfUp.checks h Acceptor.votesIn_fresh times
  | crash => exact Supervisor.IfUp.crash h
  | reset => exact Supervisor.ifUp_install (Acceptor.votesIn_fresh _)
  | store key value => exact h
  | learn m => exact (h.learn m).mono fun a ha => ha.mono fun k v hv => hv.2
  | acceptor live operation =>
      refine Supervisor.IfUp.reach h Acceptor.votesIn_fresh (fun a ha => ?_) live
      cases operation with
      | prepare m => exact ha.prepare m
      | accept m => exact ha.accept (ho m rfl)
      | clear key => exact (ha.clear key).mono fun k v hv => hv.2

end VotesIn

theorem promise_of_meet {m : Prepare} {f : Fate} {p : Promise} (h : (r.meet (.prepare m) f).1.promise? = some p) :
    (r.answer (.prepare m)).1 = .promise (some p) := by
  cases f with
  | pass => exact congrArg Reply.promise h
  | lost => cases h
  | refuse => cases h
  | fail => cases h

theorem vote_of_meet {m : Proposal} {f : Fate} {v : Vote} (h : (r.meet (.accept m) f).1.vote? = some v) :
    f = .pass ∧ (r.answer (.accept m)).1 = .vote (some v) := by
  cases f with
  | pass => exact ⟨rfl, congrArg Reply.vote h⟩
  | lost => cases h
  | refuse => cases h
  | fail => cases h

end Replica

namespace Cluster

variable {P Q : String → Vote → Prop} {c : Cluster} {q : Request} {fate : Nat → Fate} {peers : List Nat}

def VotesIn (P : String → Vote → Prop) (c : Cluster) : Prop :=
  ∀ r ∈ c.replicas, r.VotesIn P

theorem mem_of_visit {α : Type} {absent : α} {place : Nat} {f : Replica → α × Replica} {r : Replica}
    (hr : r ∈ (c.visit absent place f).2.replicas) : r ∈ c.replicas ∨ ∃ r₀ ∈ c.replicas, r = (f r₀).2 := by
  simp only [Cluster.visit] at hr
  split at hr
  · exact .inl hr
  · rename_i r₀ hr₀
    exact (List.mem_or_eq_of_mem_set hr).imp_right fun he => ⟨r₀, List.mem_of_getElem? hr₀, he⟩

namespace VotesIn

theorem mono (h : c.VotesIn P) (hPQ : ∀ k v, P k v → Q k v) : c.VotesIn Q :=
  fun r hr => (h r hr).mono fun _ ha => ha.mono hPQ

theorem visit {α : Type} {absent : α} {place : Nat} {f : Replica → α × Replica} (h : c.VotesIn P)
    (hf : ∀ r, r.VotesIn P → (f r).2.VotesIn P) : (c.visit absent place f).2.VotesIn P := by
  intro r hr
  rcases mem_of_visit hr with hr | ⟨r₀, hr₀, rfl⟩
  · exact h r hr
  · exact hf r₀ (h r₀ hr₀)

theorem poll (h : c.VotesIn P) (hp : peers.Perm c.places) (hq : ∀ m, q = .accept m → P m.action.key m.vote) :
    (c.poll q fate peers).2.VotesIn P := by
  intro r hr
  obtain ⟨x, r₀, hr₀, rfl⟩ := exists_of_mem_poll hp hr
  exact (h r₀ hr₀).meet hq _

theorem promises (h : c.VotesIn P) (hp : peers.Perm c.places) {m : Prepare} {p : Promise}
    (hm : p ∈ (c.poll (.prepare m) fate peers).1.filterMap Answer.promise?) {v : Vote} (hv : p.accepted = some v) :
    P m.key v := by
  obtain ⟨a, ha, hap⟩ := List.mem_filterMap.1 hm
  obtain ⟨x, r, hr, rfl⟩ := exists_of_mem_answers_poll hp ha
  exact (h r hr).promise (Replica.promise_of_meet hap) hv

/-- Where every replica is heard to vote no other vote is left for the key. -/
theorem unanimous (h : c.VotesIn P) (hp : peers.Perm c.places) {m : Proposal}
    (hv : c.replicas.length ≤ ((c.poll (.accept m) fate peers).1.filterMap Answer.vote?).length) :
    (c.poll (.accept m) fate peers).2.VotesIn fun k u => if k = m.action.key then u = m.vote else P k u := by
  have hperm : (c.poll (.accept m) fate peers).1.Perm _ := answers_poll_perm hp
  have hall : ∀ a ∈ c.replicas.mapIdx fun x r => (r.meet (.accept m) (fate x)).1, (Answer.vote? a).isSome := by
    refine List.filterMap_length_eq_length.1 (Nat.le_antisymm (List.length_filterMap_le ..) ?_)
    rw [← (hperm.filterMap _).length_eq, List.length_mapIdx]
    exact hv
  intro r hr
  rw [replicas_poll hp, List.mem_mapIdx] at hr
  obtain ⟨x, hx, rfl⟩ := hr
  obtain ⟨v, hv⟩ := Option.isSome_iff_exists.1 (hall _ (List.mem_mapIdx.2 ⟨x, hx, rfl⟩))
  obtain ⟨hf, hv⟩ := Replica.vote_of_meet hv
  rw [hf]
  exact (h _ (List.getElem_mem hx)).vote hv

end VotesIn

end Cluster

end SynodStore

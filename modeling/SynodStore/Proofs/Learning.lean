import SynodStore.Proofs.Authorship
import SynodStore.Proofs.Serving
import SynodStore.Proofs.Wiring

namespace SynodStore

open Scenario (Fate)

def lastValue? (heard : List Proposal) (k : String) : Option String :=
  (heard.find? (·.action.key = k)).bind (·.action.value?)

/-- The map is what the announcements leave in their order, and the ballots that it keeps are theirs. -/
structure Learner.Follows (l : Learner) (heard : List Proposal) : Prop where
  store : ∀ k, l.store[k]? = lastValue? heard k
  applied : ∀ k b, l.lastApplied? k = some b → ∃ p ∈ heard, p.action.key = k ∧ p.ballot = b ∧
    (heard.find? (·.action.key = k)).map (·.action) = some p.action

theorem lastValue?_cons_self (heard : List Proposal) (m : Proposal) :
    lastValue? (m :: heard) m.action.key = m.action.value? := by
  simp [lastValue?]

theorem lastValue?_cons_of_ne {heard : List Proposal} {m : Proposal} {k : String} (h : m.action.key ≠ k) :
    lastValue? (m :: heard) k = lastValue? heard k := by
  simp [lastValue?, h]

namespace Learner.Follows

variable {l : Learner} {heard : List Proposal} {m : Proposal}

theorem fresh : Learner.fresh.Follows [] := by
  constructor
  · intro k
    simp [Learner.fresh, lastValue?]
  · intro k b h
    simp [Learner.fresh, lastApplied?] at h

theorem learn (h : l.Follows heard)
    (hu : ∀ p ∈ heard, p.action.key = m.action.key → p.ballot = m.ballot → p.action = m.action) :
    (l.learn m).Follows (m :: heard) := by
  by_cases hm : l.lastApplied? m.action.key = some m.ballot
  · obtain ⟨p, hp, hk, hb, hlast⟩ := h.applied _ _ hm
    rw [hu p hp hk hb] at hlast
    have hsame : lastValue? heard m.action.key = m.action.value? := by
      obtain ⟨q, hq, ha⟩ := Option.map_eq_some_iff.1 hlast
      rw [lastValue?, hq, Option.bind_some, ha]
    rw [learn_of_applied hm]
    constructor
    · intro k
      by_cases hk : m.action.key = k
      · subst k
        rw [lastValue?_cons_self, h.store, hsame]
      · rw [lastValue?_cons_of_ne hk, h.store]
    · intro k b hb
      by_cases hk : m.action.key = k
      · subst k
        obtain rfl := Option.some.inj (hm.symm.trans hb)
        exact ⟨m, List.mem_cons_self, rfl, rfl, by simp⟩
      · obtain ⟨p, hp, hpk, hpb, hlast⟩ := h.applied k b hb
        exact ⟨p, List.mem_cons_of_mem _ hp, hpk, hpb, by simpa [hk] using hlast⟩
  · constructor
    · intro k
      by_cases hk : m.action.key = k
      · subst k
        rw [learn_of_not_applied hm, Action.getElem?_apply, if_pos rfl, lastValue?_cons_self]
      · rw [store_learn_of_ne hk, lastValue?_cons_of_ne hk, h.store]
    · intro k b hb
      by_cases hk : m.action.key = k
      · subst k
        rw [learn_of_not_applied hm, lastApplied?, getElem?_record, if_pos rfl, Option.map_eq_some_iff] at hb
        obtain ⟨_, _, rfl⟩ := hb
        exact ⟨m, List.mem_cons_self, rfl, rfl, by simp⟩
      · rw [lastApplied?_learn_of_ne hk] at hb
        obtain ⟨p, hp, hpk, hpb, hlast⟩ := h.applied k b hb
        exact ⟨p, List.mem_cons_of_mem _ hp, hpk, hpb, by simpa [hk] using hlast⟩

end Learner.Follows

def Request.announcement? : Request → Option Proposal
  | .learn m => some m
  | _ => none

namespace Minute

def heard? (x : Nat) : Minute → Option Proposal
  | served _ y q _ _ => if y = x then q.announcement? else none
  | _ => none

def announced? : Minute → Option Proposal
  | called _ q => q.announcement?
  | _ => none

end Minute

def heardAt (L : List Minute) (x : Nat) : List Proposal :=
  L.filterMap (Minute.heard? x)

def announcements (L : List Minute) : List Proposal :=
  L.filterMap Minute.announced?

theorem heardAt_cons_of_none {L : List Minute} {e : Minute} {x : Nat} (h : e.heard? x = none) :
    heardAt (e :: L) x = heardAt L x := by
  simp [heardAt, h]

theorem heardAt_cons_of_some {L : List Minute} {e : Minute} {x : Nat} {m : Proposal} (h : e.heard? x = some m) :
    heardAt (e :: L) x = m :: heardAt L x := by
  simp [heardAt, h]

theorem Session.heard?_minute (s : Session) (n x : Nat) : (s.minute n).heard? x = none := by
  simp only [minute]
  split <;> rfl

namespace Synod

variable {κ : Conditions} {c : Cluster} {v w : Synod}

theorem exists_served_of_heard {L : List Minute} {x : Nat} {m : Proposal} (h : m ∈ heardAt L x) :
    ∃ n reply held, .served n x (.learn m) reply held ∈ L := by
  obtain ⟨e, he, hm⟩ := List.mem_filterMap.1 h
  cases e with
  | served n y q reply held =>
      simp only [Minute.heard?] at hm
      split at hm
      · subst y
        cases q with
        | learn m' =>
            obtain rfl := Option.some.inj hm
            exact ⟨n, reply, held, he⟩
        | prepare m' => cases hm
        | accept m' => cases hm
      · cases hm
  | called n q => cases hm
  | closed n o => cases hm

def Learnt (w : Synod) : Prop :=
  ∀ (x : Nat) (r : Replica), w.cluster.replicas[x]? = some r → r.learner.Follows (heardAt w.minutes x)

theorem Learnt.of_same (h : w.Learnt) (hr : v.cluster.replicas = w.cluster.replicas)
    (hm : ∀ x, heardAt v.minutes x = heardAt w.minutes x) : v.Learnt := by
  intro x r hx
  rw [hm x]
  exact h x r (hr ▸ hx)

theorem Learnt.serve {q : Request} (h : w.Learnt) (n peer : Nat)
    (hu : ∀ m, q = .learn m → ∀ p ∈ heardAt w.minutes peer, p.ballot = m.ballot → p.action = m.action) :
    (w.serve n peer q).2.Learnt := by
  intro x r hx
  simp only [Synod.serve] at hx ⊢
  rcases Cluster.replica_of_call hx with ⟨rfl, r₀, hr, rfl⟩ | ⟨hp, hr⟩
  · cases q with
    | prepare m =>
        rw [heardAt_cons_of_none (by simp [Minute.heard?, Request.announcement?])]
        exact h peer r₀ hr
    | accept m =>
        rw [heardAt_cons_of_none (by simp [Minute.heard?, Request.announcement?])]
        exact h peer r₀ hr
    | learn m =>
        rw [heardAt_cons_of_some (m := m) (by simp [Minute.heard?, Request.announcement?])]
        exact (h peer r₀ hr).learn fun p hp _ => hu m rfl p hp
  · rw [heardAt_cons_of_none (by simp [Minute.heard?, hp])]
    exact h x r hr

theorem learnt_of_changes (h : Changes κ (start c) w) (hκ : ∀ o, ¬ κ.operation o)
    (hl : ∀ r ∈ c.replicas, r.learner = .fresh) (hw : c.Wired) (hb : (start c).bounded) : w.Learnt := by
  induction h with
  | refl =>
      intro x r hx
      rw [hl r (List.mem_of_getElem? hx)]
      exact Learner.Follows.fresh
  | @tail w v hu hv ih =>
      cases hv with
      | unwired | opened | asked | retried | stranded | closed =>
          exact ih.of_same rfl fun x => heardAt_cons_of_none (Session.heard?_minute _ _ _)
      | missed => exact ih.of_same rfl fun x => rfl
      | served n i t round answers peer f hs hi ha hf hc =>
          refine (ih.serve (q := round.request t.sender) n peer fun m hm p hp he => ?_).of_same rfl fun x => rfl
          obtain ⟨n', reply, held, hp⟩ := exists_served_of_heard hp
          have hcalled := called_of_running hu hs
          rw [hm] at hcalled
          have ha := authored_of_changes hu hw.issuers hb
          exact (ha.unique _ _ _ _ (called_of_served hu hp) hcalled he).2 _ rfl _ rfl
      | operated place o ho => exact absurd ho (hκ o)

end Synod

end SynodStore

import SynodStore.Proofs.Authorship
import SynodStore.Proofs.Leftovers
import SynodStore.Proofs.Rounds
import SynodStore.Proofs.Start

namespace SynodStore

namespace Proposer

def skip (n : Nat) (p : Proposer) : Proposer :=
  { p with issuer := { p.issuer with counter := p.issuer.counter + UInt64.ofNat n } }

variable {p : Proposer} {n : Nat}

theorem skip_zero : p.skip 0 = p := by
  simp [skip]

theorem advance_skip : { p.skip n with issuer := (p.skip n).issuer.advance } = p.skip (n + 1) := by
  simp only [skip, Issuer.advance, UInt64.ofNat_add, UInt64.add_assoc]
  rfl

theorem toNat_skip (h : p.issuer.counter.toNat + n < Ballot.counterBound) :
    (p.skip n).issuer.counter.toNat = p.issuer.counter.toNat + n := by
  simp only [Ballot.counterBound] at h
  simp only [skip, UInt64.toNat_add, UInt64.toNat_ofNat', Nat.add_mod_mod]
  exact Nat.mod_eq_of_lt (by omega)

end Proposer

namespace Cluster

def bounded (c : Cluster) : Bool :=
  c.proposers.all fun p => p.issuer.counter.toNat < Ballot.counterBound

variable {c s : Cluster} {place n : Nat} {p : Proposer}

theorem bounded_iff : c.bounded ↔ ∀ p ∈ c.proposers, p.issuer.counter.toNat < Ballot.counterBound := by
  simp [bounded]

/-- The cluster after the proposer at the place has come to so many more ballots, whatever became of the
replicas. -/
structure Spent (c : Cluster) (place : Nat) (p : Proposer) (n : Nat) (s : Cluster) : Prop where
  proposers : s.proposers = c.proposers.set place (p.skip n)
  length : s.replicas.length = c.replicas.length

namespace Spent

theorem refl (hp : c.proposers[place]? = some p) : c.Spent place p 0 c where
  proposers := by
    obtain ⟨hlt, rfl⟩ := List.getElem?_eq_some_iff.1 hp
    rw [Proposer.skip_zero, List.set_getElem_self]
  length := rfl

theorem getElem? (h : c.Spent place p n s) (hp : c.proposers[place]? = some p) :
    s.proposers[place]? = some (p.skip n) := by
  rw [h.proposers, List.getElem?_set_self (List.getElem?_eq_some_iff.1 hp).1]

theorem reset (h : c.Spent place p n s) (hp : c.proposers[place]? = some p) :
    s.proposers.map Proposer.reset = c.proposers.map Proposer.reset := by
  obtain ⟨hlt, rfl⟩ := List.getElem?_eq_some_iff.1 hp
  rw [h.proposers, List.map_set]
  refine (congrArg (List.set _ place) ?_).trans (List.set_getElem_self (by simpa using hlt))
  simp [Proposer.skip, Proposer.reset]

theorem issue (h : c.Spent place p n s) (hp : c.proposers[place]? = some p) :
    Cluster.issue place s = ((p.skip n).issuer.next.1, s.spend place (p.skip n)) := by
  simp only [Cluster.issue, h.getElem? hp]
  rfl

theorem spend (h : c.Spent place p n s) : c.Spent place p (n + 1) (s.spend place (p.skip n)) where
  proposers := by
    rw [Cluster.spend, h.proposers, List.set_set, Proposer.advance_skip]
  length := h.length

theorem poll (h : c.Spent place p n s) (q : Request) (fate : Nat → Scenario.Fate) (peers : List Nat) :
    c.Spent place p n (s.poll q fate peers).2 where
  proposers := (proposers_poll q fate peers).trans h.proposers
  length := (length_poll q fate peers).trans h.length

theorem bounded (h : c.Spent place p n s) (hb : c.bounded)
    (hn : p.issuer.counter.toNat + n < Ballot.counterBound) : s.bounded := by
  rw [bounded_iff] at hb ⊢
  intro j hj
  rw [h.proposers] at hj
  rcases List.mem_or_eq_of_mem_set hj with hj | rfl
  · exact hb j hj
  · rwa [Proposer.toNat_skip hn]

theorem perm (h : c.Spent place p n s) (hp : c.proposers[place]? = some p) (hw : c.Wired) : p.peers.Perm s.places := by
  rw [places, h.length]
  exact hw.peers p (List.mem_of_getElem? hp)

theorem add_lt (h : c.Spent place p n s) (hp : c.proposers[place]? = some p) (hb : c.bounded) (hs : s.bounded)
    (hn : n ≤ 4) : p.issuer.counter.toNat + n < Ballot.counterBound := by
  have hlt := bounded_iff.1 hb p (List.mem_of_getElem? hp)
  have hlt' := bounded_iff.1 hs _ (List.mem_of_getElem? (h.getElem? hp))
  simp only [Proposer.skip, UInt64.toNat_add, UInt64.toNat_ofNat', Nat.add_mod_mod] at hlt'
  simp only [Ballot.counterBound] at hlt hlt' ⊢
  rwa [Nat.mod_eq_of_lt (by omega)] at hlt'

end Spent

theorem exists_of_reset (hr : s.proposers.map Proposer.reset = c.proposers.map Proposer.reset) {j : Proposer}
    (hj : j ∈ s.proposers) : ∃ p ∈ c.proposers, p.reset = j.reset := by
  have hj := List.mem_map_of_mem (f := Proposer.reset) hj
  rw [hr] at hj
  exact List.mem_map.1 hj

theorem Wired.of_reset (h : c.Wired) (hr : s.proposers.map Proposer.reset = c.proposers.map Proposer.reset)
    (hl : s.replicas.length = c.replicas.length) : s.Wired := by
  have hmem {j : Proposer} (hj : j ∈ s.proposers) : ∃ p ∈ c.proposers, p.reset = j.reset := exists_of_reset hr hj
  refine ⟨?_, ?_, ?_, ?_⟩
  · intro j hj
    obtain ⟨p, hp, he⟩ := hmem hj
    obtain ⟨hc, -, -⟩ := Proposer.eq_of_reset he
    rw [← hc, h.size p hp, hl]
  · intro j hj
    obtain ⟨p, hp, he⟩ := hmem hj
    obtain ⟨-, -, hpeers⟩ := Proposer.eq_of_reset he
    rw [← hpeers, places, hl]
    exact h.peers p hp
  · intro j hj
    obtain ⟨p, hp, he⟩ := hmem hj
    obtain ⟨-, hid, -⟩ := Proposer.eq_of_reset he
    have hissuer : p.issuer.id = j.issuer.id := congrArg (·.issuer.id) he
    rw [← hissuer, h.issuer p hp, hid]
  · have hids := congrArg (List.map Proposer.id) hr
    simp only [List.map_map] at hids
    exact hids ▸ h.ids

theorem Spent.wired (h : c.Spent place p n s) (hp : c.proposers[place]? = some p) (hw : c.Wired) : s.Wired :=
  hw.of_reset (h.reset hp) h.length

theorem Spent.configs (h : c.Spent place p n s) (hp : c.proposers[place]? = some p) {P : Config → Prop}
    (hP : ∀ j ∈ c.proposers, P j.config) : ∀ j ∈ s.proposers, P j.config := by
  intro j hj
  obtain ⟨j₀, hj₀, he⟩ := exists_of_reset (h.reset hp) hj
  exact (Proposer.eq_of_reset he).1 ▸ hP j₀ hj₀

end Cluster

/-- A vote stands under the key of its action, which is one of these. -/
def Allowed (T : String → Action → Prop) (k : String) (v : Vote) : Prop :=
  v.action.key = k ∧ T k v.action

section

variable {T : String → Action → Prop} {S S' : Action → Prop} {k key : String} {v : Vote}

theorem allowed_update : Allowed (Function.update T key S) k v ↔
    v.action.key = k ∧ if k = key then S v.action else T k v.action := by
  rw [Allowed, Function.update_apply]
  split <;> rfl

theorem allowed_update_mono (h : ∀ a, S a → S' a) (k : String) (v : Vote)
    (hv : Allowed (Function.update T key S) k v) : Allowed (Function.update T key S') k v := by
  rw [allowed_update] at hv ⊢
  refine hv.imp_right fun hS => ?_
  split at hS
  · rename_i hk
    rw [if_pos hk]
    exact h _ hS
  · rename_i hk
    rwa [if_neg hk]

end

namespace Replica

variable {r : Replica} {q : Request} {m : Proposal}

theorem learner_answer (hq : ∀ m, q ≠ .learn m) : (r.answer q).2.learner = r.learner := by
  cases q with
  | prepare m => rfl
  | accept m => rfl
  | learn m => exact absurd rfl (hq m)

theorem learner_meet (hq : ∀ m, q ≠ .learn m) (f : Scenario.Fate) : (r.meet q f).2.learner = r.learner := by
  simp only [meet]
  split
  · exact learner_answer hq
  · rfl

theorem VotesIn.learnt {T : String → Action → Prop} (h : r.VotesIn (Allowed T)) (m : Proposal) :
    (r.learn m).VotesIn (Allowed (Function.update T m.action.key fun _ => False)) := by
  refine (h.learn m).mono fun a ha => ha.mono ?_
  rintro k v ⟨hk, hv⟩
  exact ⟨hv.1, by rw [Function.update_of_ne hk]; exact hv.2⟩

theorem forgotten_learn : (r.learn m).supervisor.IfUp fun a => a.slot? m.action.key = none :=
  Supervisor.IfUp.visit (Q := fun _ => True) (fun _ _ => trivial) fun _ _ => Acceptor.slot?_clear_self

end Replica

namespace Cluster

/-- All replicas have learnt the same, under ballots that were issued. -/
structure Level (l : Learner) (c : Cluster) : Prop where
  learner : ∀ r ∈ c.replicas, r.learner = l
  issued : ∀ k b, l.lastApplied? k = some b → ∃ j ∈ c.proposers, j.issuer.Issued b

def Forgotten (k : String) (c : Cluster) : Prop :=
  ∀ r ∈ c.replicas, r.supervisor.IfUp fun a => a.slot? k = none

structure Novel (l : Learner) (b : Ballot) (c : Cluster) : Prop where
  issued : ∃ j ∈ c.proposers, j.issuer.Issued b
  unapplied : ∀ k, l.lastApplied? k ≠ some b

variable {c s : Cluster} {l : Learner} {T T' : String → Action → Prop} {peers : List Nat} {b : Ballot}
variable {place n : Nat} {p : Proposer} {fate : Nat → Scenario.Fate} {q : Request} {m : Proposal} {key : String}

theorem Level.poll (h : c.Level l) (hp : peers.Perm c.places) (hq : ∀ m, q ≠ .learn m) :
    (c.poll q fate peers).2.Level l where
  learner r hr := by
    obtain ⟨x, r₀, hr₀, rfl⟩ := exists_of_mem_poll hp hr
    exact (Replica.learner_meet hq _).trans (h.learner r₀ hr₀)
  issued := by
    rw [proposers_poll]
    exact h.issued

theorem Novel.poll (h : c.Novel l b) : (c.poll q fate peers).2.Novel l b where
  issued := by
    rw [proposers_poll]
    exact h.issued
  unapplied := h.unapplied

theorem VotesIn.widen (h : c.VotesIn (Allowed T)) {S : Action → Prop} (hS : ∀ a, T key a → S a) :
    c.VotesIn (Allowed (Function.update T key S)) := by
  refine h.mono fun k v hv => allowed_update_mono hS k v ?_
  rwa [Function.update_eq_self]

theorem exists_of_mem_announced (hp : peers.Perm c.places) (hf : ∀ x, (fate x).carried) {r : Replica}
    (hr : r ∈ (c.poll (.learn m) fate peers).2.replicas) : ∃ r₀ ∈ c.replicas, r = r₀.learn m := by
  obtain ⟨x, r₀, hr₀, rfl⟩ := exists_of_mem_poll hp hr
  refine ⟨r₀, hr₀, ?_⟩
  rw [Replica.meet, if_pos (hf x)]
  rfl

theorem Level.announced (h : c.Level l) (hp : peers.Perm c.places) (hb : c.Novel l m.ballot) :
    (l.learn m).store = m.action.apply l.store ∧ (c.poll (.learn m) (fun _ => .pass) peers).2.Level (l.learn m) := by
  have hlearn := Learner.learn_of_not_applied (hb.unapplied m.action.key)
  refine ⟨by rw [hlearn], ?_, ?_⟩
  · intro r hr
    obtain ⟨r₀, hr₀, rfl⟩ := exists_of_mem_announced hp (fun _ => rfl) hr
    exact congrArg (·.learn m) (h.learner r₀ hr₀)
  · intro k b hk
    rw [proposers_poll]
    by_cases hkey : m.action.key = k
    · rw [hlearn, Learner.lastApplied?, Learner.getElem?_record, if_pos hkey, Option.map_eq_some_iff] at hk
      obtain ⟨_, _, rfl⟩ := hk
      exact hb.issued
    · rw [Learner.lastApplied?_learn_of_ne hkey] at hk
      exact h.issued k b hk

theorem forgotten_announced (hp : peers.Perm c.places) :
    (c.poll (.learn m) (fun _ => .pass) peers).2.Forgotten m.action.key := by
  intro r hr
  obtain ⟨r₀, -, rfl⟩ := exists_of_mem_announced hp (fun _ => rfl) hr
  exact Replica.forgotten_learn

theorem VotesIn.announced (h : c.VotesIn (Allowed T)) (hp : peers.Perm c.places) (hf : ∀ x, (fate x).carried) :
    (c.poll (.learn m) fate peers).2.VotesIn (Allowed (Function.update T m.action.key fun _ => False)) := by
  intro r hr
  obtain ⟨r₀, hr₀, rfl⟩ := exists_of_mem_announced hp hf hr
  exact (h r₀ hr₀).learnt m

/-- What holds while the proposer at a place puts an action through. All replicas learn the same as long as its
counter stays within bounds. -/
def safeguards (c : Cluster) (place : Nat) (p : Proposer) (l : Learner) (T : String → Action → Prop)
    (key : String) : Safeguards Cluster where
  idle n s := c.Spent place p n s ∧ s.VotesIn (Allowed T) ∧
    (p.issuer.counter.toNat + n < Ballot.counterBound → s.Level l)
  trying n b s := c.Spent place p n s ∧ s.VotesIn (Allowed T) ∧
    (p.issuer.counter.toNat + n < Ballot.counterBound → s.Level l ∧ s.Novel l b)
  voted n b _ s := c.Spent place p n s ∧ s.VotesIn (Allowed T) ∧
    (p.issuer.counter.toNat + n < Ballot.counterBound → s.Level l ∧ s.Novel l b)
  decided n value s := c.Spent place p n s ∧ s.VotesIn (Allowed (Function.update T key fun _ => False)) ∧
    s.Forgotten key ∧ ∃ l', p.issuer.counter.toNat + n < Ballot.counterBound →
      l'.store = value.apply l.store ∧ s.Level l'

theorem Spent.novel (h : c.Spent place p n s) (hp : c.proposers[place]? = some p) (hw : c.Wired) (hb : c.bounded)
    (hl : s.Level l) (hn : p.issuer.counter.toNat + (n + 1) < Ballot.counterBound) :
    (s.spend place (p.skip n)).Level l ∧ (s.spend place (p.skip n)).Novel l (p.skip n).issuer.upcoming := by
  have hs := h.getElem? hp
  have hcounter := Proposer.toNat_skip (p := p) (n := n) (by omega)
  have hlt : (p.skip n).issuer.counter.toNat < Ballot.counterBound := by omega
  have hbound := bounded_iff.1 (h.bounded hb (by omega))
  have hadvance : (p.skip n).issuer.advance.counter.toNat < Ballot.counterBound := by
    rw [Issuer.toNat_advance hlt]
    omega
  refine ⟨⟨hl.learner, ?_⟩, ⟨_, Synod.mem_spend hs, Issuer.issued_advance _⟩, ?_⟩
  · intro k b hk
    obtain ⟨j, hj, hi⟩ := hl.issued k b hk
    exact issued_spend hs hlt hj hi
  · intro k hk
    obtain ⟨j, hj, hi⟩ := hl.issued k _ hk
    refine Issuer.not_issued_next hadvance (hbound j hj) ?_ hi
    intro hid
    have hids := (h.wired hp hw).issuers
    rw [List.inj_on_of_nodup_map hids (List.mem_of_getElem? hs) hj hid]

theorem keeps (hp : c.proposers[place]? = some p) (hw : c.Wired) (hb : c.bounded) (l : Learner)
    (T : String → Action → Prop) (key : String) :
    (surroundings place).Keeps p.config p.id p.peers key (fun a => a.key = key ∧ T key a)
      (c.safeguards place p l T key) where
  wired n s := by
    rintro ⟨hs, -⟩
    have hpeers := peers_surroundings (hs.getElem? hp)
    exact hpeers
  issue n s := by
    rintro ⟨hs, hv, hl⟩
    have hissue : (surroundings place).issue s = _ := hs.issue hp
    rw [hissue]
    refine ⟨⟨hs.spend, hv, fun hn => (hs.novel hp hw hb (hl (by omega)) hn).1⟩, ?_⟩
    intro b hb'
    refine ⟨hs.spend, hv, fun hn => ?_⟩
    have hlt : (p.skip n).issuer.counter.toNat < Ballot.counterBound := by
      rw [Proposer.toNat_skip (by omega)]
      omega
    obtain rfl : (p.skip n).issuer.upcoming = b := by
      rw [Issuer.next_of_lt hlt] at hb'
      exact Except.ok.inj hb'
    exact hs.novel hp hw hb (hl (by omega)) hn
  resting n b s := by
    rintro ⟨hs, hv, hl⟩
    exact ⟨hs, hv, fun hn => (hl hn).1⟩
  prepare n b s := by
    rintro ⟨hs, hv, hl⟩
    have hperm := hs.perm hp hw
    rw [broadcast_eq_poll]
    refine ⟨⟨hs.poll _ _ _, hv.poll hperm (by simp), fun hn => ⟨?_, (hl hn).2.poll⟩⟩, ?_⟩
    · exact (hl hn).1.poll hperm (by simp)
    · intro q hq v hqv
      exact hv.promises hperm hq hqv
  accept n b value s := by
    rintro ⟨hs, hv, hl⟩ ⟨rfl, hT⟩
    have hperm := hs.perm hp hw
    have hvotes : (s.poll (.accept ⟨b, p.id, value⟩) (fun _ => .pass) p.peers).2.VotesIn (Allowed T) := by
      refine hv.poll hperm fun m hm => ?_
      cases hm
      exact ⟨rfl, hT⟩
    have hlevel (hn : p.issuer.counter.toNat + n < Ballot.counterBound) :
        (s.poll (.accept ⟨b, p.id, value⟩) (fun _ => .pass) p.peers).2.Level l := (hl hn).1.poll hperm (by simp)
    rw [broadcast_eq_poll]
    exact ⟨⟨hs.poll _ _ _, hvotes, hlevel⟩,
      fun _ => ⟨hs.poll _ _ _, hvotes, fun hn => ⟨hlevel hn, (hl hn).2.poll⟩⟩⟩
  learn n b value s := by
    rintro ⟨hs, hv, hl⟩ ⟨rfl, -⟩
    have hperm := hs.perm hp hw
    rw [broadcast_eq_poll]
    exact ⟨hs.poll _ _ _, hv.announced hperm fun _ => rfl, forgotten_announced hperm,
      l.learn ⟨b, p.id, value⟩, fun hn => (hl hn).1.announced hperm (m := ⟨b, p.id, value⟩) (hl hn).2⟩

/-- What a write comes to that has the cluster to itself, from where so many ballots are used on. -/
inductive Written (c : Cluster) (place : Nat) (p : Proposer) (used : Nat) (l : Learner) (T : String → Action → Prop)
    (action : Action) : Except Failure Ballot × Cluster → Prop
  | committed (b : Ballot) (s : Cluster) (n : Nat) (l' : Learner) (hu : used ≤ n) (hn : n ≤ 4)
      (hs : c.Spent place p n s) (hv : s.VotesIn (Allowed (Function.update T action.key fun _ => False)))
      (hf : s.Forgotten action.key)
      (hl : p.issuer.counter.toNat + n < Ballot.counterBound → l'.store = action.apply l.store ∧ s.Level l') :
      Written c place p used l T action (.ok b, s)
  | failed (failure : Failure) (s : Cluster) (n : Nat) (l' : Learner) (hu : used ≤ n) (hn : n ≤ 4)
      (hs : c.Spent place p n s)
      (hv : s.VotesIn (Allowed (Function.update T action.key fun a => T action.key a ∨ a = action)))
      (hl : p.issuer.counter.toNat + n < Ballot.counterBound →
        (l'.store = l.store ∨ ∃ a, a.key = action.key ∧ T action.key a ∧ l'.store = a.apply l.store) ∧ s.Level l') :
      Written c place p used l T action (.error failure, s)

theorem Written.recovered {l' : Learner} {action a : Action} {used : Nat} {result : Except Failure Ballot × Cluster}
    (h : c.Written place p used l' (Function.update T action.key fun _ => False) action result) (hn : n ≤ used)
    (hkey : a.key = action.key) (ha : T action.key a)
    (hl : p.issuer.counter.toNat + used < Ballot.counterBound → l'.store = a.apply l.store) :
    c.Written place p n l T action result := by
  cases h with
  | committed b s i l'' hu hi hs hv hf hl'' =>
      rw [Function.update_idem] at hv
      refine .committed b s i l'' (hn.trans hu) hi hs hv hf fun hlt => ?_
      obtain ⟨hstore, hlevel⟩ := hl'' hlt
      rw [hl (by omega), Action.apply_apply hkey] at hstore
      exact ⟨hstore, hlevel⟩
  | failed failure s i l'' hu hi hs hv hl'' =>
      rw [Function.update_idem, Function.update_self] at hv
      refine .failed failure s i l'' (hn.trans hu) hi hs ?_ fun hlt => ?_
      · exact hv.mono (allowed_update_mono fun x => Or.imp_left False.elim)
      · obtain ⟨hstore, hlevel⟩ := hl'' hlt
        rw [Function.update_self] at hstore
        refine ⟨.inr ⟨a, hkey, ha, ?_⟩, hlevel⟩
        rcases hstore with hstore | ⟨_, -, hF, -⟩
        · rw [hstore, hl (by omega)]
        · exact hF.elim

section

variable (hp : c.proposers[place]? = some p) (hw : c.Wired) (hb : c.bounded)
variable (hc : p.config.shortfall = .strict)

include hp hw hb hc

/-- An attempt decides the action itself, or a vote that was left behind. That one is announced everywhere, so that
the attempts that follow start from a key without votes. -/
theorem written_succ {action : Action} {m : Nat} (hs : c.Spent place p n s) (hn : n ≤ 2) (hv : s.VotesIn (Allowed T))
    (hl : p.issuer.counter.toNat + n < Ballot.counterBound → s.Level l)
    (hnext : ∀ a s' n' l', n ≤ n' → n' ≤ n + 2 → a.key = action.key → T action.key a → c.Spent place p n' s' →
      s'.VotesIn (Allowed (Function.update T action.key fun _ => False)) →
      (p.issuer.counter.toNat + n' < Ballot.counterBound → l'.store = a.apply l.store ∧ s'.Level l') →
      c.Written place p n l T action ((surroundings place).attempts p.config p.id action m s')) :
    c.Written place p n l T action ((surroundings place).attempts p.config p.id action (m + 1) s) := by
  let U := Function.update T action.key fun a => T action.key a ∨ a = action
  have hself : U action.key = fun a => T action.key a ∨ a = action := Function.update_self ..
  have hvotes : s.VotesIn (Allowed U) := hv.widen fun a => Or.inl
  have hround := (keeps hp hw hb l U action.key).round hc (n := n) ⟨rfl, hself ▸ .inr rfl⟩ ⟨hs, hvotes, hl⟩
  rw [Surroundings.attempts_eq]
  generalize (surroundings place).round p.config p.id action s = result at hround ⊢
  cases hround with
  | failed failure s j hj hs =>
      obtain ⟨hs, hv, hl⟩ := hs
      exact .failed failure s (n + j) l (by omega) (by omega) hs hv fun hn => ⟨.inl rfl, hl hn⟩
  | decided d s j hj hQ hs =>
      obtain ⟨hs, hv, hf, l', hl'⟩ := hs
      rw [Function.update_idem] at hv
      dsimp only
      by_cases hd : d.action = action
      · rw [if_pos hd]
        rw [hd] at hl'
        exact .committed d.ballot s (n + j) l' (by omega) (by omega) hs hv hf hl'
      · rw [if_neg hd]
        obtain ⟨hkey, hT⟩ := hQ
        rw [hself] at hT
        exact hnext d.action s (n + j) l' (by omega) (by omega) hkey (hT.resolve_right hd) hs hv hl'

theorem written_settled (hs : c.Spent place p n s) (hn : n ≤ 2) (hv : s.VotesIn (Allowed T))
    (action : Action) (hT : ∀ a, ¬ T action.key a)
    (hl : p.issuer.counter.toNat + n < Ballot.counterBound → s.Level l) (m : Nat) :
    c.Written place p n l T action ((surroundings place).attempts p.config p.id action m s) := by
  cases m with
  | zero =>
      exact .failed _ s n l le_rfl (by omega) hs (hv.widen fun a => Or.inl) fun hlt => ⟨.inl rfl, hl hlt⟩
  | succ m => exact written_succ hp hw hb hc hs hn hv hl fun a _ _ _ _ _ _ ha => (hT a ha).elim

theorem written_propose (hv : c.VotesIn (Allowed T)) (hl : c.Level l) (action : Action) :
    c.Written place p 0 l T action (propose place action c) := by
  rw [propose_of_some hp]
  cases p.config.maxRounds.toNat with
  | zero =>
      exact .failed _ c 0 l le_rfl (by decide) (.refl hp) (hv.widen fun a => Or.inl) fun _ => ⟨.inl rfl, hl⟩
  | succ m =>
      refine written_succ hp hw hb hc (.refl hp) (by decide) hv (fun _ => hl) ?_
      intro a s n l' hn hn' hkey ha hs hv hl'
      have hsettled := written_settled hp hw hb hc hs (by omega) hv action (by simp) (fun hlt => (hl' hlt).2) m
      exact hsettled.recovered hn hkey ha fun hlt => (hl' hlt).1

end

end Cluster

end SynodStore

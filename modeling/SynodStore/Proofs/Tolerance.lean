import SynodStore.Proofs.Isolation

namespace SynodStore

theorem Acceptor.votes_of_admits {a : Acceptor} {m : Prepare} {m' : Proposal}
    (h : (a.slot m.key).admitsPrepare m.ballot) (hk : m'.action.key = m.key) (hb : m'.ballot = m.ballot) :
    (a.prepare m).1.isSome ∧ ((a.prepare m).2.accept m').1.isSome := by
  simp [prepare, accept, h, hk, hb, slot_update_self, Slot.admitsAccept]

namespace Supervisor

variable {α : Type} {s : Supervisor} {a : Acceptor} {remaining : Option Nat}

theorem serve_of_live (h : s.lease = .live a remaining) (hr : remaining.all (1 ≤ ·)) (f : Acceptor → α × Acceptor) :
    s.serve f = (some (f a).1, { s with lease := .live (f a).2 (remaining.map (· - 1)) }) := by
  cases remaining with
  | none => exact serve_of_steady h f
  | some n =>
      obtain _ | n := n
      · cases hr
      · simp [serve, check, visit, h]

end Supervisor

namespace Replica

variable {r : Replica} {m : Prepare} {m' : Proposal}

/-- An acceptor is up for two more checks, and has not promised as high a ballot for the key. -/
def able (key : String) (b : Ballot) (r : Replica) : Bool :=
  match r.supervisor.lease with
  | .live a remaining => remaining.all (2 ≤ ·) && (a.slot key).admitsPrepare b
  | .down _ => false

theorem votes_of_able (h : r.able m.key m.ballot) (hk : m'.action.key = m.key) (hb : m'.ballot = m.ballot) :
    (r.prepare m).1.isSome ∧ ((r.prepare m).2.accept m').1.isSome := by
  cases hl : r.supervisor.lease with
  | down n => simp [able, hl] at h
  | live a remaining =>
      simp only [able, hl, Bool.and_eq_true] at h
      obtain ⟨hr, ha⟩ := h
      have hfirst : remaining.all (1 ≤ ·) := by cases remaining <;> simp_all; omega
      have hsecond : (remaining.map (· - 1)).all (1 ≤ ·) := by cases remaining <;> simp_all; omega
      have hprepare := Supervisor.serve_of_live hl hfirst (·.prepare m)
      have haccept := Supervisor.serve_of_live (s := (r.supervisor.serve (·.prepare m)).2) (by rw [hprepare]) hsecond
        (·.accept m')
      obtain ⟨hpromise, hvote⟩ := Acceptor.votes_of_admits ha hk hb
      simp only [prepare, accept, haccept]
      rw [hprepare]
      exact ⟨hpromise, hvote⟩

end Replica

namespace Cluster

variable {c : Cluster} {place : Nat} {peers : List Nat} {q : Request}

theorem replicas_broadcast (hp : peers.Perm c.places) :
    ((surroundings place).broadcast peers q c).2.replicas = c.replicas.map fun r => (r.answer q).2 := by
  rw [broadcast_eq_poll, replicas_poll hp]
  exact List.ext_getElem (by simp) fun x _ _ => by simp [Replica.meet, Scenario.Fate.carried]

theorem answers_broadcast (hp : peers.Perm c.places) :
    ((surroundings place).broadcast peers q c).1.Perm (c.replicas.map fun r => .ok (r.answer q).1) := by
  rw [broadcast_eq_poll]
  refine (answers_poll_perm hp).trans (.of_eq ?_)
  exact List.ext_getElem (by simp) fun x _ _ => by simp [Replica.meet, Scenario.Fate.carried, Scenario.Fate.answer]

theorem perm_broadcast (hp : peers.Perm c.places) :
    peers.Perm ((surroundings place).broadcast peers q c).2.places := by
  rwa [places, replicas_broadcast hp, List.length_map]

theorem promises_broadcast (hp : peers.Perm c.places) (m : Prepare) :
    (((surroundings place).broadcast peers (.prepare m) c).1.filterMap Answer.promise?).Perm
      (c.replicas.filterMap fun r => (r.prepare m).1) := by
  refine ((answers_broadcast hp).filterMap _).trans (.of_eq ?_)
  rw [List.filterMap_map]
  rfl

theorem votes_broadcast (hp : peers.Perm c.places) (m : Proposal) :
    (((surroundings place).broadcast peers (.accept m) c).1.filterMap Answer.vote?).Perm
      (c.replicas.filterMap fun r => (r.accept m).1) := by
  refine ((answers_broadcast hp).filterMap _).trans (.of_eq ?_)
  rw [List.filterMap_map]
  rfl

end Cluster

namespace Replica

variable {r : Replica}

def completed (m : Prepare) (m' : Proposal) (r : Replica) : Replica :=
  ((r.prepare m).2.accept m').2.learn m'

theorem learnt_completed (m : Prepare) (m' : Proposal)
    (h : r.learner.lastApplied? m'.action.key ≠ some m'.ballot) :
    (r.completed m m').learner.store = m'.action.apply r.learner.store ∧
      (r.completed m m').learner.count = r.learner.count + 1 ∧
      (r.completed m m').supervisor.IfUp (·.slot? m'.action.key = none) := by
  have hlearner : (r.completed m m').learner = r.learner.learn m' := rfl
  rw [hlearner, Learner.learn_of_not_applied h]
  exact ⟨rfl, rfl, forgotten_learn⟩

end Replica

namespace Cluster

variable {c : Cluster} {place : Nat} {p : Proposer} {action : Action}

/-- The value that a round under the message is bound to put forward: that of a highest vote for the key among the
replicas that promise, or the action itself if they hold none. -/
def Chosen (m : Prepare) (action value : Action) (c : Cluster) : Prop :=
  (value = action ∧ ∀ r ∈ c.replicas, (r.prepare m).1.isSome → r.vote? m.key = none) ∨
    ∃ r ∈ c.replicas, (r.prepare m).1.isSome ∧ ∃ v, r.vote? m.key = some v ∧ v.action = value ∧
      ∀ r' ∈ c.replicas, (r'.prepare m).1.isSome → ∀ v', r'.vote? m.key = some v' → v'.ballot ≤ v.ballot

theorem chosen_of_promises {m : Prepare} {promises : List Promise}
    (h : promises.Perm (c.replicas.filterMap fun r => (r.prepare m).1)) (action : Action) :
    c.Chosen m action ((chooseValue promises).getD action) := by
  have hmem {r : Replica} (hr : r ∈ c.replicas) (hp : (r.prepare m).1.isSome) :
      ∃ p ∈ promises, p.accepted = r.vote? m.key := by
    obtain ⟨p, hp⟩ := Option.isSome_iff_exists.1 hp
    exact ⟨p, h.mem_iff.2 (List.mem_filterMap.2 ⟨r, hr, hp⟩), Replica.accepted_of_promise hp⟩
  rcases chooseValue_spec promises action with ⟨hnone, hvalue⟩ | ⟨p, hp, v, hv, hvalue, hmax⟩
  · refine .inl ⟨hvalue, fun r hr hpromise => ?_⟩
    obtain ⟨p, hp, hv⟩ := hmem hr hpromise
    rw [← hv, hnone p hp]
  · obtain ⟨r, hr, hpromise⟩ := List.mem_filterMap.1 (h.mem_iff.1 hp)
    refine .inr ⟨r, hr, Option.isSome_of_eq_some hpromise, v, ?_, hvalue, fun r' hr' hpromise' v' hv' => ?_⟩
    · rw [← Replica.accepted_of_promise hpromise, hv]
    · obtain ⟨p', hp', hv''⟩ := hmem hr' hpromise'
      exact hmax p' hp' v' (hv''.trans hv')

theorem Chosen.key {m : Prepare} {action value : Action} (h : c.Chosen m action value) (ha : action.key = m.key)
    (hr : ∀ r ∈ c.replicas, r.Reachable) : value.key = m.key := by
  rcases h with ⟨rfl, -⟩ | ⟨r, hr', -, v, hv, rfl, -⟩
  · exact ha
  · exact (Replica.votesIn_iff.1 (hr r hr').votesIn _ _ hv).1

/-- A round that enough replicas are able to serve comes through at its first attempt, and all replicas hear of it. -/
theorem round_of_able (hp : c.proposers[place]? = some p) (hw : p.peers.Perm c.places)
    (hn : p.issuer.counter.toNat < Ballot.counterBound)
    (hm : p.config.majority ≤ c.replicas.countP (·.able action.key p.issuer.upcoming))
    (hk : ∀ value, c.Chosen ⟨p.issuer.upcoming, action.key, p.id⟩ action value → value.key = action.key) :
    let m : Prepare := ⟨p.issuer.upcoming, action.key, p.id⟩
    ∃ value after, c.Chosen m action value ∧ round place action c = (.ok ⟨p.issuer.upcoming, value⟩, after) ∧
      after.proposers = (c.spend place p).proposers ∧
      after.replicas = c.replicas.map (·.completed m ⟨p.issuer.upcoming, p.id, value⟩) := by
  intro m
  let e := surroundings place
  let first := e.broadcast p.peers (.prepare m) (c.spend place p)
  let promises := first.1.filterMap Answer.promise?
  let value := (chooseValue promises).getD action
  let m' : Proposal := ⟨p.issuer.upcoming, p.id, value⟩
  let second := e.broadcast p.peers (.accept m') first.2
  let third := e.broadcast p.peers (.learn m') second.2
  have hw₀ : p.peers.Perm (c.spend place p).places := hw
  have hw₁ : p.peers.Perm first.2.places := perm_broadcast hw₀
  have hw₂ : p.peers.Perm second.2.places := perm_broadcast hw₁
  have hreplicas₁ : first.2.replicas = c.replicas.map fun r => (r.prepare m).2 := replicas_broadcast hw₀
  have hpromises : promises.Perm (c.replicas.filterMap fun r => (r.prepare m).1) := promises_broadcast hw₀ m
  have hchosen : c.Chosen m action value := chosen_of_promises hpromises action
  have hvalue : value.key = action.key := hk value hchosen
  have hable (r : Replica) (hr : r.able action.key p.issuer.upcoming) :
      (r.prepare m).1.isSome ∧ ((r.prepare m).2.accept m').1.isSome := Replica.votes_of_able hr hvalue rfl
  have hpromised : p.config.majority ≤ promises.length := by
    rw [hpromises.length_eq, List.length_filterMap_eq_countP]
    exact hm.trans (List.countP_mono_left fun r _ hr => (hable r hr).1)
  have hvoted : p.config.majority ≤ (second.1.filterMap Answer.vote?).length := by
    rw [(votes_broadcast hw₁ m').length_eq, List.length_filterMap_eq_countP, hreplicas₁, List.countP_map]
    exact hm.trans (List.countP_mono_left fun r _ hr => (hable r hr).2)
  have hne : p.peers ≠ [] := by
    intro he
    have hlength : p.peers.length = c.replicas.length := hw.length_eq.trans List.length_range
    have hpos : 0 < c.replicas.length := ((Nat.succ_pos _).trans_le hm).trans_le List.countP_le_length
    rw [← hlength, he] at hpos
    cases hpos
  refine ⟨value, third.2, hchosen, ?_, ?_, ?_⟩
  · calc round place action c
      _ = e.carry p.config p.id p.peers (.first action p.issuer.upcoming) (c.spend place p) := by
        rw [round_of_some hp]
        exact Surroundings.round_of_issued action (peers_surroundings hp) hne (issue_of_lt hp hn)
      _ = e.carry p.config p.id p.peers ⟨action, p.issuer.upcoming, false, .accept value⟩ first.2 :=
        Surroundings.carry_of_ask rfl (Round.ask_accept _ rfl hpromised rfl)
      _ = e.carry p.config p.id p.peers
          ⟨action, p.issuer.upcoming, false, .learn value (.ok ⟨p.issuer.upcoming, value⟩)⟩ second.2 :=
        Surroundings.carry_of_ask rfl (Round.ask_learn rfl hvoted)
      _ = (.ok ⟨p.issuer.upcoming, value⟩, third.2) := Surroundings.carry_of_announced rfl rfl
  · have hproposers (q : Request) (s : Cluster) : (e.broadcast p.peers q s).2.proposers = s.proposers := by
      rw [broadcast_eq_poll, proposers_poll]
    rw [hproposers, hproposers, hproposers]
  · rw [replicas_broadcast hw₂, replicas_broadcast hw₁, hreplicas₁, List.map_map, List.map_map]
    rfl

/-- A round that has the replicas to itself comes through at its first attempt if a majority is able to serve it,
whatever has become of the other replicas. It takes effect at all of them and leaves nothing of the key behind. -/
theorem round_tolerates (action : Action) (hp : c.proposers[place]? = some p) (hw : p.peers.Perm c.places)
    (hr : ∀ r ∈ c.replicas, r.Reachable) (hn : p.issuer.counter.toNat < Ballot.counterBound)
    (hl : ∀ r ∈ c.replicas, r.learner.lastApplied? action.key ≠ some p.issuer.upcoming)
    (hm : p.config.majority ≤ c.replicas.countP (·.able action.key p.issuer.upcoming)) :
    ∃ value after, round place action c = (.ok ⟨p.issuer.upcoming, value⟩, after) ∧
      after.proposers = (c.spend place p).proposers ∧
      c.Chosen ⟨p.issuer.upcoming, action.key, p.id⟩ action value ∧
      List.Forall₂ (fun before after : Replica =>
        after.learner.store = value.apply before.learner.store ∧ after.learner.count = before.learner.count + 1 ∧
        (∀ a, after.supervisor.current? = some a → a.slot? action.key = none) ∧
        ∀ k, k ≠ action.key → after.get? k = before.get? k) c.replicas after.replicas := by
  obtain ⟨value, after, hchosen, hround, hproposers, hreplicas⟩ := round_of_able hp hw hn hm fun _ h => h.key rfl hr
  have hkey : value.key = action.key := hchosen.key rfl hr
  refine ⟨value, after, hround, hproposers, hchosen, ?_⟩
  rw [hreplicas, List.forall₂_map_right_iff, List.forall₂_same]
  intro r hmem
  obtain ⟨hstore, hcount, hforgotten⟩ := Replica.learnt_completed ⟨p.issuer.upcoming, action.key, p.id⟩
    ⟨p.issuer.upcoming, p.id, value⟩ (hkey ▸ hl r hmem)
  refine ⟨hstore, hcount, hkey ▸ hforgotten, fun k hk => ?_⟩
  rw [Replica.get?, Replica.get?, hstore, Action.getElem?_apply, if_neg (hkey ▸ hk.symm)]

/-- The first replica holds a vote and crashes after two more checks. The last one is about to crash, and has promised
a higher ballot. -/
theorem round_tolerates_crashing :
    let act (o : Replica.Operation) (r : Replica) : Replica := (Replica.perform o r).2
    let plan : CrashPlan := ⟨4, 4, 1⟩
    let first := act (.check 1) (act (.acceptor true (.accept ⟨⟨7⟩, 1, .put "k" "v"⟩)) (.start 0 plan (.ofSeed 5)))
    let second := act (.learn ⟨⟨5⟩, 1, .put "k" "u"⟩) (.start 1 none (.ofSeed 5))
    let third := act .crash (act (.acceptor true (.prepare ⟨⟨900⟩, "k", 2⟩)) (.start 2 plan (.ofSeed 5)))
    let p : Proposer := ⟨0, .steady 3, ⟨0, 0, by decide⟩, [2, 0, 1], .direct⟩
    let c : Cluster := ⟨[first, second, third], [p]⟩
    c.proposers[0]? = some p ∧ p.peers.Perm c.places ∧ (∀ r ∈ c.replicas, r.Reachable) ∧
      p.issuer.counter.toNat < Ballot.counterBound ∧
      (∀ r ∈ c.replicas, r.learner.lastApplied? "k" ≠ some p.issuer.upcoming) ∧
      p.config.majority = c.replicas.countP (·.able "k" p.issuer.upcoming) ∧
      ∃ after, round 0 (.put "k" "x") c = (.ok ⟨⟨16⟩, .put "k" "v"⟩, after) ∧
        List.Forall₂ (fun before after : Replica =>
          after.learner.store = before.learner.store.insert "k" "v" ∧
          after.learner.count = before.learner.count + 1 ∧
          ∀ a, after.supervisor.current? = some a → a.slot? "k" = none) c.replicas after.replicas := by
  intro act plan first second third p c
  have hp : c.proposers[0]? = some p := rfl
  have hw : p.peers.Perm c.places := by decide
  have hr : ∀ r ∈ c.replicas, r.Reachable := by
    intro r hr
    simp only [c, List.mem_cons, List.not_mem_nil, or_false] at hr
    rcases hr with rfl | rfl | rfl
    · exact .perform (.perform (.start ..) _) _
    · exact .perform (.start ..) _
    · exact .perform (.perform (.start ..) _) _
  have hrun : (∀ r ∈ c.replicas, r.learner.lastApplied? "k" ≠ some p.issuer.upcoming) ∧
      p.config.majority = c.replicas.countP (·.able "k" p.issuer.upcoming) ∧
      (round 0 (.put "k" "x") c).1 = .ok ⟨⟨16⟩, .put "k" "v"⟩ := by decide +kernel
  obtain ⟨hl, hm, hround⟩ := hrun
  obtain ⟨value, after, hround', -, -, hafter⟩ :=
    round_tolerates (.put "k" "x") hp hw hr (by decide) hl hm.le
  obtain ⟨hb, rfl⟩ : p.issuer.upcoming = ⟨16⟩ ∧ value = .put "k" "v" := by
    rw [hround'] at hround
    exact Vote.mk.inj (Except.ok.inj hround)
  refine ⟨hp, hw, hr, by decide, hl, hm, after, hb ▸ hround', hafter.imp ?_⟩
  rintro r r' ⟨hstore, hcount, hforgotten, -⟩
  exact ⟨hstore, hcount, hforgotten⟩

end Cluster

end SynodStore

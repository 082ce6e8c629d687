import SynodStore.Proofs.Isolation

namespace SynodStore

namespace Action

def preemptedIn (action : Action) : Except Failure Vote → Bool
  | .ok d => d.action ≠ action
  | .error _ => false

/-- What a write comes to that goes through such rounds: the outcome of the first that is not pre-empted. -/
def verdict (action : Action) (limit : Nat) : List (Except Failure Vote) → Except Failure Ballot
  | [] => .error (.exhausted limit)
  | o :: os => if action.preemptedIn o then action.verdict limit os else o.map (·.ballot)

theorem verdict_ne_exhausted {action : Action} {limit n : Nat} {o : Except Failure Vote}
    (h : action.preemptedIn o = false) (ho : o ≠ .error (.exhausted n)) :
    action.verdict limit [o] ≠ .error (.exhausted n) := by
  simp only [verdict, h, Bool.false_eq_true, if_false]
  cases o with
  | ok d => exact fun he => by cases he
  | error failure => exact fun he => ho (by rw [Except.error.inj he])

end Action

namespace Surroundings

variable {σ : Type} {e : Surroundings (StateM σ)} {c : Config} {sender : UInt32} {peers : List Nat} {s : σ}
variable {action : Action}

/-- The outcomes of the rounds of a write, which ends with the first one that is not pre-empted. -/
def rounds (e : Surroundings (StateM σ)) (c : Config) (sender : UInt32) (action : Action) :
    Nat → σ → List (Except Failure Vote) × σ
  | 0, s => ([], s)
  | n + 1, s =>
    let p := e.round c sender action s
    if action.preemptedIn p.1 then
      let q := e.rounds c sender action n p.2
      (p.1 :: q.1, q.2)
    else ([p.1], p.2)

theorem attempts_eq_verdict (n : Nat) (s : σ) :
    e.attempts c sender action n s =
      (action.verdict c.maxRounds.toNat (e.rounds c sender action n s).1, (e.rounds c sender action n s).2) := by
  induction n generalizing s with
  | zero => rfl
  | succ n ih =>
      rw [attempts_eq, rounds]
      generalize e.round c sender action s = p
      obtain ⟨failure | d, s'⟩ := p
      · simp [Action.preemptedIn, Action.verdict, Except.map]
      · by_cases hd : d.action = action
        · simp [Action.preemptedIn, Action.verdict, Except.map, hd]
        · simp [Action.preemptedIn, Action.verdict, hd, ih]

theorem round_ne_exhausted (hp : e.peers s = (peers, s)) (n : Nat) :
    (e.round c sender action s).1 ≠ .error (.exhausted n) := by
  let I : Round → σ → Prop := fun r _ =>
    ∀ value outcome, r.stage = .learn value outcome → outcome ≠ .error (.exhausted n)
  refine round_of_advances (I := I) (O := fun outcome _ => outcome ≠ .error (.exhausted n)) hp ?_ (by simp)
    ⟨?_, by simp⟩
  · intro r s hr
    have hconcl := r.conclusion c (e.broadcast peers (r.request sender) s).1
    generalize r.conclude c (e.broadcast peers (r.request sender) s).1 = progress at hconcl ⊢
    cases hconcl with
    | unpromised | outvoted => exact fun h => by cases h
    | promised => exact fun _ _ h => by cases h
    | accepted value hr' | degraded value hr' =>
        intro _ _ h
        cases h
        exact fun h => by cases h
    | retry value hr' =>
        refine ⟨fun b _ _ _ h => ?_, fun fault _ h => ?_⟩ <;> cases h
    | announced value outcome hr' => exact hr value outcome hr'
  · exact fun b _ _ _ h => by cases h

theorem rounds_of_not_preempted (hp : e.peers s = (peers, s))
    (h : action.preemptedIn (e.round c sender action s).1 = false) (limit n : Nat) :
    (e.rounds c sender action n s).1.countP action.preemptedIn = 0 ∧
      (1 ≤ n → ∀ k, action.verdict limit (e.rounds c sender action n s).1 ≠ .error (.exhausted k)) := by
  cases n with
  | zero => exact ⟨rfl, fun hn => absurd hn (by decide)⟩
  | succ n =>
      have hrounds : (e.rounds c sender action (n + 1) s).1 = [(e.round c sender action s).1] := by simp [rounds, h]
      rw [hrounds]
      exact ⟨by simp [h], fun _ k => Action.verdict_ne_exhausted h (round_ne_exhausted hp k)⟩

end Surroundings

def Stage.Offers (Q : Action → Prop) : Stage → Prop
  | prepare => True
  | accept value => Q value
  | learn value outcome => Q value ∧ ∀ d, outcome = .ok d → d.action = value

namespace Cluster

open Surroundings

variable {c : Cluster} {place : Nat} {peers : List Nat} {T : String → Action → Prop} {q : Request} {key : String}

/-- A proposer is wired so, and all votes at those replicas are allowed. The other replicas do not matter to it. -/
structure Facing (place : Nat) (peers : List Nat) (T : String → Action → Prop) (c : Cluster) : Prop where
  wired : c.peers place = peers
  votes : c.Each fun x r => x ∈ peers → r.VotesIn (Allowed T)

namespace Facing

theorem peers_eq (h : c.Facing place peers T) : (surroundings place).peers c = (peers, c) :=
  congrArg (·, c) h.wired

theorem mono {S S' : Action → Prop} (h : c.Facing place peers (Function.update T key S)) (hS : ∀ a, S a → S' a) :
    c.Facing place peers (Function.update T key S') where
  wired := h.wired
  votes := h.votes.mono fun _ _ hv hx => (hv hx).mono fun _ ha => ha.mono (allowed_update_mono hS)

theorem issue (h : c.Facing place peers T) : (Cluster.issue place c).2.Facing place peers T where
  wired := (peers_issue place c).trans h.wired
  votes x r hr := h.votes x r (replicas_issue place c ▸ hr)

theorem broadcast (h : c.Facing place peers T) (hq : ∀ m, q = .accept m → Allowed T m.action.key m.vote) :
    ((surroundings place).broadcast peers q c).2.Facing place peers T where
  wired := by rw [broadcast_eq_poll, ← h.wired, Cluster.peers, Cluster.peers, proposers_poll]
  votes := h.votes.broadcast fun x _ r hr hx => (hr hx).answer hq

theorem promises (h : c.Facing place peers T) {m : Prepare} {p : Promise}
    (hp : p ∈ ((surroundings place).broadcast peers (.prepare m) c).1.filterMap Answer.promise?) {v : Vote}
    (hv : p.accepted = some v) : Allowed T m.key v := by
  obtain ⟨a, ha, hap⟩ := List.mem_filterMap.1 hp
  rcases h.votes.answers (fun x _ r hr hx => (hr hx).answer (by simp)) ha with rfl | ⟨x, hx, r, hr, rfl⟩
  · cases hap
  · exact (hr hx).promise (congrArg Reply.promise hap) hv

theorem announced (h : c.Facing place peers T) (m : Proposal) :
    ((surroundings place).broadcast peers (.learn m) c).2.Facing place peers
      (Function.update T m.action.key fun _ => False) where
  wired := (h.broadcast (q := .learn m) (by simp)).wired
  votes := h.votes.asked (fun x _ r hr hx => (hr hx).answer (by simp)) fun x hx r hr => (hr hx).learnt m

end Facing

structure Candid (place : Nat) (peers : List Nat) (T : String → Action → Prop) (action : Action) (r : Round)
    (c : Cluster) : Prop where
  own : r.action = action
  facing : c.Facing place peers T
  offer : r.stage.Offers fun a => a.key = action.key ∧ T action.key a

/-- A round that decides leaves no vote for its key where the proposer is wired to. -/
def Settled (place : Nat) (peers : List Nat) (T : String → Action → Prop) (action : Action)
    (outcome : Except Failure Vote) (c : Cluster) : Prop :=
  ∀ d, outcome = .ok d → (d.action.key = action.key ∧ T action.key d.action) ∧
    c.Facing place peers (Function.update T action.key fun _ => False)

variable {config : Config} {sender : UInt32} {action : Action} {r : Round}

theorem Candid.broadcast (h : c.Candid place peers T action r) (sender : UInt32) :
    ((surroundings place).broadcast peers (r.request sender) c).2.Facing place peers T := by
  refine h.facing.broadcast fun m hm => ?_
  obtain ⟨hr, -⟩ := Round.request_eq_accept hm
  have ho := h.offer
  rw [hr] at ho
  exact ⟨rfl, ho.1 ▸ ho.2⟩

variable (hT : T action.key action)

include hT

theorem Candid.advances (h : c.Candid place peers T action r) :
    (surroundings place).Advances (Candid place peers T action) (Settled place peers T action) r.action
      ((surroundings place).broadcast peers (r.request sender) c).2
      (r.conclude config ((surroundings place).broadcast peers (r.request sender) c).1) := by
  have hnext := h.broadcast sender
  obtain ⟨rfl, hf, ho⟩ := h
  have hconcl := r.conclusion config ((surroundings place).broadcast peers (r.request sender) c).1
  generalize r.conclude config ((surroundings place).broadcast peers (r.request sender) c).1 = progress at hconcl ⊢
  cases hconcl with
  | unpromised => exact fun d hd => by cases hd
  | outvoted => exact fun d hd => by cases hd
  | retry => exact ⟨fun b _ => ⟨rfl, hnext.issue, trivial⟩, fun fault _ d hd => by cases hd⟩
  | promised hr _ =>
      refine ⟨rfl, hnext, ?_⟩
      have hreq : r.request sender = .prepare ⟨r.ballot, r.action.key, sender⟩ := by rw [Round.request, hr]
      rw [hreq]
      cases hv : chooseValue (((surroundings place).broadcast peers
          (.prepare ⟨r.ballot, r.action.key, sender⟩) c).1.filterMap Answer.promise?) with
      | none => exact ⟨rfl, hT⟩
      | some value =>
          obtain ⟨p, hp, v, hpv, rfl⟩ := exists_of_chooseValue hv
          exact hf.promises hp hpv
  | degraded value hr _ _ _ =>
      rw [hr] at ho
      exact ⟨rfl, hnext, ho, fun d hd => by cases hd⟩
  | accepted value hr _ =>
      rw [hr] at ho
      refine ⟨rfl, hnext, ho, fun d hd => ?_⟩
      cases hd
      rfl
  | announced value outcome hr =>
      rw [hr] at ho
      obtain ⟨hvalue, hd⟩ := ho
      intro d hd'
      obtain rfl := hd d hd'
      have hreq : r.request sender = .learn ⟨r.ballot, sender, d.action⟩ := by rw [Round.request, hr]
      have hlearnt := hf.announced ⟨r.ballot, sender, d.action⟩
      rw [hreq]
      exact ⟨hvalue, hvalue.1 ▸ hlearnt⟩

variable (config sender)

theorem settled_round (h : c.Facing place peers T) :
    let p := (surroundings place).round config sender action c
    Settled place peers T action p.1 p.2 := by
  refine round_of_advances (I := Candid place peers T action) h.peers_eq (fun r s hr => hr.advances hT) ?_ ⟨?_, ?_⟩
  · exact fun d hd => by cases hd
  · exact fun b _ => ⟨rfl, h.issue, trivial⟩
  · exact fun fault _ d hd => by cases hd

theorem not_preemptedIn_round (h : c.Facing place peers T) (honly : ∀ a, T action.key a → a = action) :
    action.preemptedIn ((surroundings place).round config sender action c).1 = false := by
  have hround := settled_round config sender hT h
  generalize (surroundings place).round config sender action c = p at hround ⊢
  obtain ⟨failure | d, s⟩ := p
  · rfl
  · obtain ⟨⟨-, hd⟩, -⟩ := hround d rfl
    simp [Action.preemptedIn, honly _ hd]

/-- The decision of another action leaves nothing that could pre-empt the next round. -/
theorem not_preempted_twice (h : c.Facing place peers T)
    (hfirst : action.preemptedIn ((surroundings place).round config sender action c).1) :
    let s := ((surroundings place).round config sender action c).2
    (surroundings place).peers s = (peers, s) ∧
      action.preemptedIn ((surroundings place).round config sender action s).1 = false := by
  have hround := settled_round config sender hT h
  generalize (surroundings place).round config sender action c = p at hround hfirst ⊢
  obtain ⟨failure | d, s⟩ := p
  · cases hfirst
  · obtain ⟨-, hs⟩ := hround d rfl
    have hs : s.Facing place peers (Function.update T action.key (· = action)) := hs.mono fun _ => False.elim
    have hself : Function.update T action.key (· = action) action.key action := by simp
    exact ⟨hs.peers_eq, not_preemptedIn_round config sender hself hs (by simp)⟩

omit hT

/-- A write that has replicas to itself is pre-empted at most once, as the votes left for other actions are gone when
one of them has been decided. So two rounds are enough for it, whether it succeeds or fails. -/
theorem preempted_once {p : Proposer} (hp : c.proposers[place]? = some p) (hr : ∀ r ∈ c.replicas, r.Reachable)
    (action : Action) :
    let run := (surroundings place).rounds p.config p.id action p.config.maxRounds.toNat c
    propose place action c = (action.verdict p.config.maxRounds.toNat run.1, run.2) ∧
      run.1.countP action.preemptedIn ≤ 1 ∧
      (2 ≤ p.config.maxRounds.toNat → ∀ n, (propose place action c).1 ≠ .error (.exhausted n)) := by
  intro run
  have hrun : propose place action c = (action.verdict p.config.maxRounds.toNat run.1, run.2) := by
    rw [propose_of_some hp, attempts_eq_verdict]
  have hfacing : c.Facing place p.peers fun _ _ => True :=
    ⟨peers_of_some hp, fun x r hx _ => (hr r (List.mem_of_getElem? hx)).votesIn⟩
  refine ⟨hrun, ?_⟩
  rw [hrun]
  cases hfirst : action.preemptedIn ((surroundings place).round p.config p.id action c).1 with
  | false =>
      obtain ⟨hcount, hne⟩ := rounds_of_not_preempted hfacing.peers_eq hfirst p.config.maxRounds.toNat
        p.config.maxRounds.toNat
      exact ⟨hcount.le.trans (by decide), fun hn => hne (by omega)⟩
  | true =>
      obtain ⟨hpeers, hsecond⟩ := not_preempted_twice p.config p.id trivial hfacing hfirst
      simp only [run]
      generalize p.config.maxRounds.toNat = limit
      cases limit with
      | zero => exact ⟨by simp [rounds], fun hn => absurd hn (by decide)⟩
      | succ m =>
          obtain ⟨hcount, hne⟩ := rounds_of_not_preempted hpeers hsecond (m + 1) m
          simp only [rounds, hfirst, if_true, List.countP_cons_of_pos, Action.verdict, hcount]
          exact ⟨le_rfl, fun hn => hne (by omega)⟩

/-- Two replicas have been left with different votes. The one is recovered, and the other one is gone with it, although
the third replica crashes between the rounds. -/
theorem preempted_once_crossed :
    let left (id : UInt32) (b : UInt64) (v : String) : Replica :=
      (Replica.perform (.acceptor false (.accept ⟨⟨b⟩, id, .put "k" v⟩)) (.start id none (.ofSeed 5))).2
    let config : Config := { Config.steady 3 with shortfall := .degraded, maxRounds := 2 }
    let p : Proposer := ⟨0, config, ⟨0, 0, by decide⟩, [1, 0, 2, 1], .direct⟩
    let c : Cluster := ⟨[.start 0 (some ⟨2, 2, 1⟩) (.ofSeed 5), left 1 7 "v", left 2 9 "w"], [p]⟩
    let run := (surroundings 0).rounds p.config p.id (.put "k" "x") p.config.maxRounds.toNat c
    c.proposers[0]? = some p ∧ (∀ r ∈ c.replicas, r.Reachable) ∧
      run.1 = [.ok ⟨⟨16⟩, .put "k" "w"⟩, .ok ⟨⟨32⟩, .put "k" "x"⟩] ∧
      run.1.countP (Action.preemptedIn (.put "k" "x")) ≤ 1 ∧
      ∀ n, (propose 0 (.put "k" "x") c).1 ≠ .error (.exhausted n) := by
  intro left config p c run
  have hleft (id : UInt32) (b : UInt64) (v : String) : (left id b v).Reachable := .perform (.start ..) _
  have hr : ∀ r ∈ c.replicas, r.Reachable := by
    intro r hr
    rcases List.mem_cons.1 hr with rfl | hr
    · exact .start ..
    · rcases List.mem_pair.1 hr with rfl | rfl <;> exact hleft ..
  have hrun : run.1 = [.ok ⟨⟨16⟩, .put "k" "w"⟩, .ok ⟨⟨32⟩, .put "k" "x"⟩] := by decide +kernel
  have hp : c.proposers[0]? = some p := rfl
  obtain ⟨-, hcount, hne⟩ := preempted_once hp hr (.put "k" "x")
  exact ⟨hp, hr, hrun, hcount, hne (by decide)⟩

end Cluster

end SynodStore

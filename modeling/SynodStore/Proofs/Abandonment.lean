import SynodStore.Proofs.Generations
import SynodStore.Proofs.Tolerance

namespace SynodStore

theorem Issuer.eq_upcoming {i : Issuer} {b : Ballot} (h : i.next.1 = .ok b) : b = i.upcoming := by
  simp only [next] at h
  split at h
  · cases h
  · exact (Except.ok.inj h).symm

namespace Replica

variable {P Q Q' : String → Vote → Prop} {r r' : Replica} {m : Proposal}

theorem VotesIn.refused (h : r.VotesIn P) (hm : (r.accept m).1 = none) : (r.accept m).2.VotesIn P := by
  have hr := Supervisor.reaching_serve (·.accept m) r.supervisor
  simp only [accept] at hm ⊢
  generalize r.supervisor.serve (·.accept m) = p at hm hr ⊢
  cases hr with
  | missed ha =>
      cases ha with
      | same _ hc => exact fun a ha => h a (hc a ha)
      | renewed _ hc =>
          intro a ha
          obtain ⟨id, rfl⟩ := hc a ha
          exact Acceptor.votesIn_fresh id
  | served hs ht _ =>
      intro a ha
      obtain rfl := Option.some.inj (ht.symm.trans ha)
      rw [Acceptor.accept_of_refused hm]
      exact h _ hs

structure Kept (Q : String → Vote → Prop) (r r' : Replica) : Prop where
  learner : r'.learner = r.learner
  votes : ∀ k v, r'.vote? k = some v → r.vote? k = some v ∨ Q k v

namespace Kept

theorem votesIn (h : r.Kept Q r') : r'.VotesIn fun k v => r.vote? k = some v ∨ Q k v :=
  votesIn_iff.2 h.votes

theorem mono (h : r.Kept Q r') (hQ : ∀ k v, Q k v → Q' k v) : r.Kept Q' r' :=
  ⟨h.learner, fun k v hv => (h.votes k v hv).imp_right (hQ k v)⟩

theorem prepare (h : r.Kept Q r') (m : Prepare) : r.Kept Q (r'.prepare m).2 :=
  ⟨h.learner, votesIn_iff.1 (h.votesIn.answer (q := .prepare m) (by simp))⟩

theorem accept (h : r.Kept Q r') (hm : Q m.action.key m.vote) : r.Kept Q (r'.accept m).2 := by
  refine ⟨h.learner, votesIn_iff.1 (h.votesIn.answer (q := .accept m) fun m' he => ?_)⟩
  obtain rfl := Request.accept.inj he
  exact .inr hm

theorem refused (h : r.Kept Q r') (hm : (r'.accept m).1 = none) : r.Kept Q (r'.accept m).2 :=
  ⟨h.learner, votesIn_iff.1 (h.votesIn.refused hm)⟩

end Kept

end Replica

namespace Cluster

variable {c s : Cluster} {place : Nat} {p : Proposer} {action value : Action} {peers : List Nat}
variable {Q : Nat → String → Vote → Prop} {q : Request} {m : Proposal}

/-- No replica has learnt anything, nor voted for anything but this. -/
def Unmoved (Q : Nat → String → Vote → Prop) (c s : Cluster) : Prop :=
  s.Each fun x r' => ∃ r, c.replicas[x]? = some r ∧ r.Kept (Q x) r'

namespace Unmoved

theorem refl (c : Cluster) : c.Unmoved (fun _ _ _ => False) c :=
  fun _ r hr => ⟨r, hr, rfl, fun _ _ => .inl⟩

theorem vote_cases (h : c.Unmoved Q s) {x : Nat} {k : String} {v : Vote}
    (hv : s.replicas[x]?.bind (·.vote? k) = some v) : c.replicas[x]?.bind (·.vote? k) = some v ∨ Q x k v := by
  obtain ⟨r', hr', hv⟩ := Option.bind_eq_some_iff.1 hv
  obtain ⟨r, hr, hkept⟩ := h x r' hr'
  rw [hr]
  exact hkept.votes k v hv

variable (place) in
theorem issue (h : c.Unmoved Q s) : c.Unmoved Q ((surroundings place).issue s).2 :=
  fun x r hr => h x r (replicas_issue place s ▸ hr)

variable (place peers) in
theorem prepare (h : c.Unmoved Q s) (m : Prepare) :
    c.Unmoved Q ((surroundings place).broadcast peers (.prepare m) s).2 :=
  Each.broadcast h fun _ _ _ ⟨r, hr, hkept⟩ => ⟨r, hr, hkept.prepare m⟩

theorem promises (h : c.Unmoved (fun _ _ _ => False) s) {m : Prepare} {p : Promise}
    (hp : p ∈ ((surroundings place).broadcast peers (.prepare m) s).1.filterMap Answer.promise?) {v : Vote}
    (hv : p.accepted = some v) : ∃ r ∈ c.replicas, r.vote? m.key = some v := by
  obtain ⟨a, ha, hap⟩ := List.mem_filterMap.1 hp
  rcases Each.answers (q := .prepare m) h (fun _ _ _ ⟨r, hr, hkept⟩ => ⟨r, hr, hkept.prepare m⟩) ha with
    rfl | ⟨x, -, r', ⟨r, hr, hkept⟩, rfl⟩
  · cases hap
  · have hpromise : (r'.prepare m).1 = some p := hap
    refine ⟨r, List.mem_of_getElem? hr, (hkept.votes _ _ ?_).resolve_right id⟩
    rw [← Replica.accepted_of_promise hpromise, hv]

theorem voting (h : c.Unmoved (fun _ _ _ => False) s) (hp : peers.Nodup) (m : Proposal) :
    ∃ voters ⊆ peers, voters.Nodup ∧
      voters.length = (((surroundings place).broadcast peers (.accept m) s).1.filterMap Answer.vote?).length ∧
      c.Unmoved (fun x k v => x ∈ voters ∧ k = m.action.key ∧ v = m.vote)
        ((surroundings place).broadcast peers (.accept m) s).2 := by
  let vote (x : Nat) : Option Vote := s.replicas[x]?.bind fun r => (r.accept m).1
  have hvotes : ((s.poll (.accept m) (fun _ => .pass) peers).1.filterMap Answer.vote?) = peers.filterMap vote := by
    rw [answers_poll hp, List.filterMap_map]
    refine List.filterMap_congr fun x _ => ?_
    cases hx : s.replicas[x]? with
    | none => simp only [Function.comp_apply, vote, hx]; rfl
    | some r => simp only [Function.comp_apply, vote, hx]; rfl
  rw [broadcast_eq_poll]
  refine ⟨peers.filter fun x => (vote x).isSome, List.filter_subset_self _, hp.filter _, ?_, fun x r'' hr'' => ?_⟩
  · rw [hvotes, List.length_filterMap_eq_countP, List.countP_eq_length_filter]
  · rw [getElem?_poll hp, Option.map_eq_some_iff] at hr''
    obtain ⟨r', hr', rfl⟩ := hr''
    obtain ⟨r, hr, hkept⟩ := h x r' hr'
    refine ⟨r, hr, ?_⟩
    by_cases hx : x ∈ peers
    · rw [if_pos hx]
      cases hv : (r'.accept m).1 with
      | none => exact (hkept.refused hv).mono fun _ _ => False.elim
      | some v =>
          have hvoter : x ∈ peers.filter fun x => (vote x).isSome :=
            List.mem_filter.2 ⟨hx, by simp only [vote, hr', Option.bind_some, hv, Option.isSome_some]⟩
          exact Replica.Kept.accept (hkept.mono fun _ _ => False.elim) ⟨hvoter, rfl, rfl⟩
    · rw [if_neg hx]
      exact hkept.mono fun _ _ => False.elim

end Unmoved

def Eligible (action value : Action) (c : Cluster) : Prop :=
  value = action ∨ ∃ r ∈ c.replicas, ∃ v, r.vote? action.key = some v ∧ v.action = value

/-- The first attempt has put forward a value under its ballot. It has too few votes for it, and they are all that is
new. -/
structure Outvoted (c : Cluster) (place : Nat) (p : Proposer) (action value : Action) (s : Cluster) : Prop where
  spent : c.Spent place p 2 s
  eligible : c.Eligible action value
  votes : ∃ voters ⊆ p.peers, voters.Nodup ∧ voters.length < p.config.majority ∧
    c.Unmoved (fun x k v => x ∈ voters ∧ k = value.key ∧ v = ⟨p.issuer.upcoming, value⟩) s

inductive Underway (c : Cluster) (place : Nat) (p : Proposer) (action : Action) : Round → Cluster → Prop
  | preparing {s : Cluster} (hs : c.Spent place p 1 s) (hl : c.Unmoved (fun _ _ _ => False) s) :
      Underway c place p action (.first action p.issuer.upcoming) s
  | voting {s : Cluster} {value : Action} (hs : c.Spent place p 1 s) (hl : c.Unmoved (fun _ _ _ => False) s)
      (hv : c.Eligible action value) :
      Underway c place p action ⟨action, p.issuer.upcoming, false, .accept value⟩ s
  | again {s : Cluster} {value : Action} (b : Ballot) (h : c.Outvoted place p action value s) :
      Underway c place p action (.second action b) s
  | pressing {s : Cluster} (b : Ballot) (value : Action) :
      Underway c place p action ⟨action, b, true, .accept value⟩ s
  | announcing {s : Cluster} {r : Round} {value : Action} {outcome : Except Failure Vote}
      (hr : r.stage = .learn value outcome) (ho : ∀ n m, outcome ≠ .error (.quorumNotReached .prepare n m)) :
      Underway c place p action r s

def Abandoned (c : Cluster) (place : Nat) (p : Proposer) (action : Action) (outcome : Except Failure Vote)
    (s : Cluster) : Prop :=
  ∀ n m, outcome = .error (.quorumNotReached .prepare n m) →
    c.Spent place p 1 s ∧ c.Unmoved (fun _ _ _ => False) s ∨ ∃ value, c.Outvoted place p action value s

theorem Spent.broadcast {n : Nat} (h : c.Spent place p n s) (peers : List Nat) (q : Request) :
    c.Spent place p n ((surroundings place).broadcast peers q s).2 :=
  broadcast_eq_poll place peers q ▸ h.poll q _ peers

theorem Spent.issue_next {n : Nat} (h : c.Spent place p n s) (hp : c.proposers[place]? = some p) :
    c.Spent place p (n + 1) ((surroundings place).issue s).2 := by
  have hissue : (surroundings place).issue s = _ := h.issue hp
  rw [hissue]
  exact h.spend

theorem Outvoted.prepare (h : c.Outvoted place p action value s) (m : Prepare) :
    c.Outvoted place p action value ((surroundings place).broadcast p.peers (.prepare m) s).2 where
  spent := h.spent.broadcast _ _
  eligible := h.eligible
  votes := by
    obtain ⟨voters, hsub, hnodup, hlength, hunmoved⟩ := h.votes
    exact ⟨voters, hsub, hnodup, hlength, hunmoved.prepare place p.peers m⟩

theorem Unmoved.eligible (h : c.Unmoved (fun _ _ _ => False) s) (b : Ballot) (sender : UInt32) (peers : List Nat)
    (action : Action) : c.Eligible action ((chooseValue
      (((surroundings place).broadcast peers (.prepare ⟨b, action.key, sender⟩) s).1.filterMap
        Answer.promise?)).getD action) := by
  cases hv : chooseValue (((surroundings place).broadcast peers (.prepare ⟨b, action.key, sender⟩) s).1.filterMap
      Answer.promise?) with
  | none => exact .inl rfl
  | some value =>
      obtain ⟨q, hq, v, hqv, rfl⟩ := exists_of_chooseValue hv
      obtain ⟨r, hr, hrv⟩ := h.promises hq hqv
      exact .inr ⟨r, hr, v, hrv, rfl⟩

theorem Underway.advances (hp : c.proposers[place]? = some p) (hn : p.peers.Nodup) {r : Round}
    (h : c.Underway place p action r s) :
    (surroundings place).Advances (c.Underway place p action) (c.Abandoned place p action) r.action
      ((surroundings place).broadcast p.peers (r.request p.id) s).2
      (r.conclude p.config ((surroundings place).broadcast p.peers (r.request p.id) s).1) := by
  have hconcl := r.conclusion p.config ((surroundings place).broadcast p.peers (r.request p.id) s).1
  generalize r.conclude p.config ((surroundings place).broadcast p.peers (r.request p.id) s).1 = progress at hconcl ⊢
  cases h with
  | preparing hs hl =>
      cases hconcl with
      | unpromised => exact fun _ _ _ => .inl ⟨hs.broadcast _ _, hl.prepare _ _ _⟩
      | promised => exact .voting (hs.broadcast _ _) (hl.prepare _ _ _) (hl.eligible _ _ _ _)
      | retry _ hr | outvoted _ hr | degraded _ hr | accepted _ hr | announced _ _ hr => cases hr
  | @voting s value hs hl hv =>
      cases hconcl with
      | unpromised hr | promised hr | announced _ _ hr => cases hr
      | outvoted _ _ hr | degraded _ _ hr => cases hr
      | accepted => exact .announcing rfl (by simp)
      | retry _ _ _ hm =>
          have hs' := hs.broadcast p.peers (.accept ⟨p.issuer.upcoming, p.id, value⟩)
          obtain ⟨voters, hsub, hnodup, hlength, hunmoved⟩ := hl.voting hn ⟨p.issuer.upcoming, p.id, value⟩
          have houtvoted : c.Outvoted place p action value ((surroundings place).issue _).2 :=
            ⟨hs'.issue_next hp, hv, voters, hsub, hnodup, hlength.trans_lt hm, hunmoved.issue place⟩
          exact ⟨fun b _ => .again b houtvoted, fun _ _ _ _ he => by cases he⟩
  | again b h =>
      cases hconcl with
      | unpromised => exact fun _ _ _ => .inr ⟨_, h.prepare _⟩
      | promised => exact .pressing _ _
      | retry _ hr | outvoted _ hr | degraded _ hr | accepted _ hr | announced _ _ hr => cases hr
  | pressing b value =>
      cases hconcl with
      | unpromised hr | promised hr | announced _ _ hr => cases hr
      | retry _ _ hr => cases hr
      | outvoted => exact fun _ _ ho => by cases ho
      | accepted | degraded => exact .announcing rfl (by simp)
  | announcing hr ho =>
      cases hconcl with
      | unpromised hr' | promised hr' => rw [hr] at hr'; cases hr'
      | retry _ hr' | outvoted _ hr' | degraded _ hr' | accepted _ hr' => rw [hr] at hr'; cases hr'
      | announced value outcome hr' =>
          rw [hr] at hr'
          cases hr'
          exact fun n m he => absurd he (ho n m)

/-- A round has the replicas to itself, and enough of them are able to serve it. It is for the key of the vote, and of
the replicas that promise one still holds the vote and none another one as high. -/
structure Recalls (c : Cluster) (place : Nat) (p : Proposer) (action : Action) (v : Vote) : Prop where
  proposer : c.proposers[place]? = some p
  wired : p.peers.Perm c.places
  room : p.issuer.counter.toNat < Ballot.counterBound
  able : p.config.majority ≤ c.replicas.countP (·.able action.key p.issuer.upcoming)
  unlearnt : ∀ r ∈ c.replicas, r.learner.lastApplied? action.key ≠ some p.issuer.upcoming
  key : v.action.key = action.key
  held : ∃ r ∈ c.replicas, (r.prepare ⟨p.issuer.upcoming, action.key, p.id⟩).1.isSome ∧ r.vote? action.key = some v
  highest : ∀ r ∈ c.replicas, (r.prepare ⟨p.issuer.upcoming, action.key, p.id⟩).1.isSome →
    ∀ v' ∈ r.vote? action.key, v' = v ∨ v'.ballot < v.ballot

theorem Recalls.eq_of_chosen {v : Vote} (h : c.Recalls place p action v)
    (hv : c.Chosen ⟨p.issuer.upcoming, action.key, p.id⟩ action value) : value = v.action := by
  obtain ⟨r, hr, hpromise, hheld⟩ := h.held
  rcases hv with ⟨-, hnone⟩ | ⟨r', hr', hpromise', v', hv', rfl, hmax⟩
  · cases hheld.symm.trans (hnone r hr hpromise)
  · rcases h.highest r' hr' hpromise' v' hv' with rfl | hlt
    · rfl
    · exact absurd (hmax r hr hpromise v hheld) (Ballot.not_le.2 hlt)

theorem Recalls.round {v : Vote} (h : c.Recalls place p action v) :
    ∃ after, round place action c = (.ok ⟨p.issuer.upcoming, v.action⟩, after) ∧
      List.Forall₂ (fun before after : Replica => after.learner.store = v.action.apply before.learner.store)
        c.replicas after.replicas := by
  obtain ⟨value, after, hchosen, hround, -, hreplicas⟩ :=
    round_of_able h.proposer h.wired h.room h.able fun value hv => h.eq_of_chosen hv ▸ h.key
  obtain rfl := h.eq_of_chosen hchosen
  refine ⟨after, hround, ?_⟩
  rw [hreplicas, List.forall₂_map_right_iff, List.forall₂_same]
  intro r hr
  exact (Replica.learnt_completed ⟨p.issuer.upcoming, action.key, p.id⟩ ⟨p.issuer.upcoming, p.id, v.action⟩
    (h.key ▸ h.unlearnt r hr)).1

/-- A round that fails in a prepare phase has taught no replica anything. If it fails at once no replica has a new
vote. If that is the prepare phase of the retry fewer than a majority have come to hold the value that the first
attempt put forward, and any later round that recalls such a vote decides that value after all. -/
theorem round_abandons (hp : c.proposers[place]? = some p) (hn : p.peers.Nodup) {n k : Nat}
    (h : round place action c = (.error (.quorumNotReached .prepare n k), s)) :
    c.Spent place p 1 s ∧ c.Unmoved (fun _ _ _ => False) s ∨
      ∃ value, c.Outvoted place p action value s ∧ ∀ (later : Cluster) (place' : Nat) (p' : Proposer) (action' : Action),
        later.Recalls place' p' action' ⟨p.issuer.upcoming, value⟩ →
        ∃ after, round place' action' later = (.ok ⟨p'.issuer.upcoming, value⟩, after) ∧
          List.Forall₂ (fun before after : Replica => after.learner.store = value.apply before.learner.store)
            later.replicas after.replicas := by
  have hround : c.Abandoned place p action (round place action c).1 (round place action c).2 := by
    rw [round_of_some hp]
    refine Surroundings.round_of_advances (I := c.Underway place p action) (peers_surroundings hp)
      (fun r s hr => hr.advances hp hn) (fun _ _ he => by cases he) ⟨fun b hb => ?_, fun _ _ _ _ he => by cases he⟩
    have hissue := (Spent.refl hp).issue hp
    rw [p.skip_zero] at hissue
    obtain rfl : b = p.issuer.upcoming := Issuer.eq_upcoming ((congrArg Prod.fst hissue).symm.trans hb)
    exact .preparing ((Spent.refl hp).issue_next hp) ((Unmoved.refl c).issue place)
  rw [h] at hround
  rcases hround n k rfl with hfirst | ⟨value, houtvoted⟩
  · exact .inl hfirst
  · exact .inr ⟨value, houtvoted, fun later place' p' action' hrecalls => hrecalls.round⟩

/-- Two replicas crash before they are asked for their votes. The third one has recovered a vote by itself when the
retry fails. When the others are back the next write comes to what the failed one had recovered. -/
theorem round_abandons_recovered :
    let act (o : Replica.Operation) (r : Replica) : Replica := (Replica.perform o r).2
    let plan : CrashPlan := ⟨4, 4, 10⟩
    let config : Config := { Config.steady 3 with crash := plan }
    let p : Proposer := ⟨0, config, ⟨0, 0, by decide⟩, [2, 0, 1], .direct⟩
    let c : Cluster := ⟨[act (.acceptor false (.accept ⟨⟨7⟩, 2, .put "k" "u"⟩)) (.start 0 none (.ofSeed 5)),
      act (.check 3) (.start 1 plan (.ofSeed 6)), act (.check 3) (.start 2 plan (.ofSeed 7))], [p]⟩
    let s : Cluster := (round 0 (.put "k" "v") c).2
    let later : Cluster := { s with replicas := s.replicas.map (act (.check 10)) }
    c.proposers[0]? = some p ∧ p.peers.Nodup ∧
      round 0 (.put "k" "v") c = (.error (.quorumNotReached .prepare 1 2), s) ∧
      c.Outvoted 0 p (.put "k" "v") (.put "k" "u") s ∧
      later.Recalls 0 (p.skip 2) (.put "k" "w") ⟨⟨16⟩, .put "k" "u"⟩ ∧
      ∃ after, round 0 (.put "k" "w") later = (.ok ⟨⟨48⟩, .put "k" "u"⟩, after) ∧
        List.Forall₂ (fun before after : Replica => after.learner.store = before.learner.store.insert "k" "u")
          later.replicas after.replicas := by
  intro act plan config p c s later
  have hp : c.proposers[0]? = some p := rfl
  have hrun : (round 0 (.put "k" "v") c).1 = .error (.quorumNotReached .prepare 1 2) ∧
      c.replicas[0]?.bind (·.vote? "k") = some ⟨⟨7⟩, .put "k" "u"⟩ ∧
      s.replicas[0]?.bind (·.vote? "k") = some ⟨⟨16⟩, .put "k" "u"⟩ ∧
      p.config.majority ≤ later.replicas.countP (·.able "k" ⟨48⟩) ∧
      (∀ r ∈ later.replicas, r.learner.lastApplied? "k" ≠ some ⟨48⟩) ∧
      (∃ r ∈ later.replicas, (r.prepare ⟨⟨48⟩, "k", 0⟩).1.isSome ∧ r.vote? "k" = some ⟨⟨16⟩, .put "k" "u"⟩) ∧
      ∀ r ∈ later.replicas, (r.prepare ⟨⟨48⟩, "k", 0⟩).1.isSome →
        ∀ v ∈ r.vote? "k", v = ⟨⟨16⟩, .put "k" "u"⟩ ∨ v.ballot < ⟨16⟩ := by decide +kernel
  have hfirst : p.issuer.upcoming = ⟨16⟩ := by decide
  have hthird : (p.skip 2).issuer.upcoming = ⟨48⟩ := by decide
  rw [← hthird] at hrun
  obtain ⟨hround, hbefore, hafter, hable, hunlearnt, hheld, hhighest⟩ := hrun
  have hround : round 0 (.put "k" "v") c = (.error (.quorumNotReached .prepare 1 2), s) := Prod.ext hround rfl
  obtain ⟨value, houtvoted, hlater⟩ := (round_abandons hp (by decide) hround).resolve_left fun ⟨_, hunmoved⟩ => by
    cases hbefore.symm.trans ((hunmoved.vote_cases hafter).resolve_right id)
  obtain ⟨voters, -, -, -, hunmoved⟩ := houtvoted.votes
  obtain rfl : .put "k" "u" = value := by
    rcases hunmoved.vote_cases hafter with hold | ⟨-, -, hnew⟩
    · cases hbefore.symm.trans hold
    · exact congrArg Vote.action hnew
  have hwired : p.peers.Perm later.places := by
    have hlength : later.replicas.length = 3 := (List.length_map _).trans houtvoted.spent.length
    rw [Cluster.places, hlength]
    decide
  have hrecalls : later.Recalls 0 (p.skip 2) (.put "k" "w") ⟨⟨16⟩, .put "k" "u"⟩ :=
    ⟨houtvoted.spent.getElem? hp, hwired, by decide, hable, hunlearnt, rfl, hheld, hhighest⟩
  rw [hfirst] at hlater
  obtain ⟨after, hround', hstores⟩ := hlater later 0 (p.skip 2) (.put "k" "w") hrecalls
  exact ⟨hp, by decide, hround, houtvoted, hrecalls, after, hthird ▸ hround', hstores⟩

/-- The vote of a replica that could not be matched in the first attempt stays behind. -/
theorem not_unmoved_of_abandoned :
    ¬ ∀ (c s : Cluster) (place : Nat) (p : Proposer) (action : Action) (n k : Nat),
      (∀ r ∈ c.replicas, r.Reachable) → c.proposers[place]? = some p → p.config.validate = .ok () →
      p.peers = c.places → round place action c = (.error (.quorumNotReached .prepare n k), s) →
      c.Unmoved (fun _ _ _ => False) s := by
  intro h
  let act (o : Replica.Operation) (r : Replica) : Replica := (Replica.perform o r).2
  let plan : CrashPlan := ⟨4, 4, 10⟩
  let p : Proposer := ⟨0, { Config.steady 2 with crash := plan }, ⟨0, 0, by decide⟩, [0, 1], .direct⟩
  let c : Cluster := ⟨[.start 0 plan (.ofSeed 5), act (.check 3) (.start 1 plan (.ofSeed 6))], [p]⟩
  have hr : ∀ r ∈ c.replicas, r.Reachable := by
    intro r hr
    rcases List.mem_pair.1 hr with rfl | rfl
    · exact .start ..
    · exact .perform (.start ..) _
  have hrun : (round 0 (.put "k" "v") c).1 = .error (.quorumNotReached .prepare 1 2) ∧
      c.replicas[0]?.bind (·.vote? "k") = none ∧
      (round 0 (.put "k" "v") c).2.replicas[0]?.bind (·.vote? "k") = some ⟨⟨16⟩, .put "k" "v"⟩ := by decide +kernel
  obtain ⟨hround, hbefore, hafter⟩ := hrun
  have hunmoved := h c _ 0 p (.put "k" "v") 1 2 hr rfl rfl rfl (Prod.ext hround rfl)
  cases hbefore.symm.trans ((hunmoved.vote_cases hafter).resolve_right id)

end Cluster

end SynodStore

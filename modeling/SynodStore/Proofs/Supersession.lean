import SynodStore.Proofs.Writing

namespace SynodStore

open Scenario (Fate)

namespace Conditions

def faulty : Conditions where
  fate _ f := f ≠ .refuse
  operation _ := false

def heard : Conditions where
  fate
    | .learn _, f => f.carried
    | _, f => f ≠ .refuse
  operation _ := false

end Conditions

namespace Cluster

def appliers (m : Proposal) (fate : Nat → Fate) (peers : List Nat) (c : Cluster) : List Nat :=
  peers.filter fun x =>
    (fate x).carried && c.replicas[x]?.any (·.learner.lastApplied? m.action.key ≠ some m.ballot)

def applications (q : Request) (fate : Nat → Fate) (peers : List Nat) (c : Cluster) : List (Nat × Action) :=
  match q with
  | .learn m => (c.appliers m fate peers).map (·, m.action)
  | _ => []

theorem count_poll {m : Proposal} {fate : Nat → Fate} {peers : List Nat} {c : Cluster} (h : peers.Nodup) (x : Nat) :
    (c.poll (.learn m) fate peers).2.replicas[x]?.map (·.learner.count) =
      c.replicas[x]?.map fun r => r.learner.count + if x ∈ c.appliers m fate peers then 1 else 0 := by
  rw [getElem?_poll h, Option.map_map]
  cases hr : c.replicas[x]? with
  | none => rfl
  | some r =>
      simp only [Option.map_some, Function.comp_apply, appliers, List.mem_filter, hr, Option.any_some, Option.some_inj]
      by_cases hx : x ∈ peers <;> cases hf : (fate x).carried <;>
        by_cases hb : r.learner.lastApplied? m.action.key = some m.ballot <;>
        simp [hx, hf, hb, Replica.meet, Replica.answer, Replica.learn, Learner.learn_of_applied,
          Learner.learn_of_not_applied]

end Cluster

structure Observed where
  cluster : Cluster
  applied : List (Nat × Action)

def Observed.surroundings (fate : Request → Nat → Fate) (place : Nat) : Surroundings (StateM Observed) where
  peers o := (o.cluster.peers place, o)
  issue o := ((Cluster.issue place o.cluster).1, { o with cluster := (Cluster.issue place o.cluster).2 })
  broadcast peers q o :=
    ((o.cluster.poll q (fate q) peers).1,
      ⟨(o.cluster.poll q (fate q) peers).2, o.applied ++ o.cluster.applications q (fate q) peers⟩)

/-- A write, what its caller was told and what learners applied meanwhile. -/
structure Account where
  action : Action
  outcome : Except Failure Ballot
  applied : List (Nat × Action)

/-- An action was committed, and after that another one for its key, since when it was not put forward again. The
latest account stands first. -/
def Superseded (log : List Account) (a : Action) : Prop :=
  ∃ recent b older, log = recent ++ b :: older ∧ b.outcome.isOk ∧ b.action.key = a.key ∧ b.action ≠ a ∧
    (∃ r ∈ older, r.outcome.isOk ∧ r.action = a) ∧ ∀ r ∈ recent, r.action ≠ a

def pending : List Account → String → List Action
  | [], _ => []
  | r :: log, k =>
    if r.action.key = k then r.action :: if r.outcome.isOk then [] else pending log k else pending log k

namespace Cluster

def observe (fate : Request → Nat → Fate) (place : Nat) (action : Action) (c : Cluster) : Account × Cluster :=
  let p := c.proposeIn (Observed.surroundings fate place) place action ⟨c, []⟩
  (⟨action, p.1, p.2.applied⟩, p.2.cluster)

/-- Writes that follow one another, whose calls meet fates that the conditions allow. -/
inductive History (κ : Conditions) (c : Cluster) : List Account → Cluster → Prop
  | start (hb : c.bounded) : History κ c [] c
  | write {log : List Account} {d : Cluster} (h : History κ c log d) (fate : Request → Nat → Fate) (place : Nat)
      (action : Action) (hf : ∀ q x, κ.fate q (fate q x)) (hb : (d.observe fate place action).2.bounded) :
      History κ c ((d.observe fate place action).1 :: log) (d.observe fate place action).2

/-- No learner applies an action that was superseded, unless it is being put forward again. -/
def Supersedes (κ : Conditions) (c : Cluster) : Prop :=
  ∀ r log d, History κ c (r :: log) d → ∀ a, Superseded log a → r.action ≠ a → ∀ x, (x, a) ∉ r.applied

end Cluster

section

variable {log : List Account} {r : Account} {a : Action} {k : String}

theorem pending_cons_of_ne (h : r.action.key ≠ k) : pending (r :: log) k = pending log k :=
  if_neg h

theorem pending_cons_self : pending (r :: log) r.action.key =
    r.action :: if r.outcome.isOk then [] else pending log r.action.key :=
  if_pos rfl

theorem pending_cons_ok (h : r.outcome.isOk) : (fun k x => x ∈ pending (r :: log) k) =
    Function.update (fun k x => x ∈ pending log k) r.action.key fun x => x = r.action := by
  funext k x
  by_cases hk : k = r.action.key
  · subst k
    simp [pending_cons_self, h]
  · rw [Function.update_of_ne hk, pending_cons_of_ne (Ne.symm hk)]

theorem pending_cons_error (h : ¬ r.outcome.isOk) : (fun k x => x ∈ pending (r :: log) k) =
    Function.update (fun k x => x ∈ pending log k) r.action.key
      fun x => x ∈ pending log r.action.key ∨ x = r.action := by
  funext k x
  by_cases hk : k = r.action.key
  · subst k
    simp [pending_cons_self, h, or_comm]
  · rw [Function.update_of_ne hk, pending_cons_of_ne (Ne.symm hk)]

theorem not_mem_pending (h : Superseded log a) : a ∉ pending log a.key := by
  obtain ⟨recent, b, older, rfl, hok, hkey, hne, -, hrecent⟩ := h
  induction recent with
  | nil => simp [pending, hkey, hok, Ne.symm hne]
  | cons r recent ih =>
      obtain ⟨hr, hrecent⟩ := List.forall_mem_cons.1 hrecent
      have hrest := ih hrecent
      rw [List.cons_append, pending]
      split
      · split <;> simp [Ne.symm hr, hrest]
      · exact hrest

end

namespace Observed

structure Within (c : Cluster) (place : Nat) (p : Proposer) (T : String → Action → Prop) (Q : Action → Prop)
    (n : Nat) (o : Observed) : Prop where
  spent : c.Spent place p n o.cluster
  votes : o.cluster.VotesIn (Allowed T)
  applied : ∀ y ∈ o.applied, Q y.2

variable {c : Cluster} {place n : Nat} {p : Proposer} {T T' : String → Action → Prop} {Q : Action → Prop}
variable {o : Observed} {fate : Request → Nat → Fate} {peers : List Nat} {q : Request} {key : String}

theorem Within.mono (h : Within c place p T Q n o) (hT : ∀ k v, Allowed T k v → Allowed T' k v) :
    Within c place p T' Q n o :=
  ⟨h.spent, h.votes.mono hT, h.applied⟩

/-- What may be relied on while the proposer at a place puts an action through, with these votes and the action
itself to choose from. The last clause tells of a cluster where every replica has to vote. -/
def safeguards (c : Cluster) (place : Nat) (p : Proposer) (T : String → Action → Prop) (key : String) :
    Safeguards Observed where
  idle n := Within c place p T (fun a => a.key = key ∧ T key a) n
  trying n _ := Within c place p T (fun a => a.key = key ∧ T key a) n
  voted n _ value o := Within c place p T (fun a => a.key = key ∧ T key a) n o ∧
    (c.replicas.length ≤ 2 → o.cluster.VotesIn (Allowed (Function.update T key (· = value))))
  decided n value := Within c place p (Function.update T key (· = value)) (fun a => a.key = key ∧ T key a) n

theorem Within.poll (h : Within c place p T Q n o) (hp : peers.Perm o.cluster.places)
    (hq : ∀ m, q = .accept m → Allowed T m.action.key m.vote) (hl : ∀ m, q = .learn m → Q m.action) :
    Within c place p T Q n ((surroundings fate place).broadcast peers q o).2 where
  spent := h.spent.poll q _ _
  votes := h.votes.poll hp hq
  applied y hy := by
    rcases List.mem_append.1 hy with hy | hy
    · exact h.applied y hy
    · cases q with
      | prepare m | accept m => cases hy
      | learn m =>
          obtain ⟨x, -, rfl⟩ := List.mem_map.1 hy
          exact hl m rfl

/-- One value is all that can be left of a key once it was decided, if all replicas had to vote for it or all of
them are told. -/
theorem keeps (fate : Request → Nat → Fate) (hp : c.proposers[place]? = some p) (hw : c.Wired)
    (T : String → Action → Prop) (key : String)
    (hf : c.replicas.length ≤ 2 ∨ ∀ m x, (fate (.learn m) x).carried) :
    (surroundings fate place).Keeps p.config p.id p.peers key (fun a => a.key = key ∧ T key a)
      (safeguards c place p T key) where
  wired n o h := by
    have hpeers := Cluster.peers_of_some (h.spent.getElem? hp)
    exact congrArg (·, o) hpeers
  issue n o h := by
    have hissue : (surroundings fate place).issue o =
        ((p.skip n).issuer.next.1, ⟨o.cluster.spend place (p.skip n), o.applied⟩) := by
      simp only [surroundings, h.spent.issue hp]
    rw [hissue]
    have hnext : Within c place p T (fun a => a.key = key ∧ T key a) (n + 1)
        ⟨o.cluster.spend place (p.skip n), o.applied⟩ := ⟨h.spent.spend, h.votes, h.applied⟩
    exact ⟨hnext, fun _ _ => hnext⟩
  resting n b o h := h
  prepare n b o h := by
    have hperm := h.spent.perm hp hw
    exact ⟨h.poll hperm (by simp) (by simp), fun q hq v hv => h.votes.promises hperm hq hv⟩
  accept n b value o h hQ := by
    obtain ⟨rfl, hT⟩ := hQ
    let m : Proposal := ⟨b, p.id, value⟩
    have hperm := h.spent.perm hp hw
    have hpoll : Within c place p T (fun a => a.key = value.key ∧ T value.key a) n
        ((surroundings fate place).broadcast p.peers (.accept m) o).2 := by
      refine h.poll hperm (fun m hm => ?_) (by simp)
      cases hm
      exact ⟨rfl, hT⟩
    refine ⟨hpoll, fun hm => ⟨hpoll, fun hlen => ?_⟩⟩
    have hall : o.cluster.replicas.length ≤
        ((o.cluster.poll (.accept m) (fate (.accept m)) p.peers).1.filterMap Answer.vote?).length := by
      rw [hw.majority (List.mem_of_getElem? hp)] at hm
      rw [h.spent.length]
      exact le_trans (by omega) hm
    refine (h.votes.unanimous hperm hall).mono fun k v hv => allowed_update.2 ?_
    split at hv
    · rename_i hk
      obtain rfl : v = m.vote := hv
      exact ⟨hk.symm, (if_pos hk).symm ▸ rfl⟩
    · rename_i hk
      exact ⟨hv.1, (if_neg hk).symm ▸ hv.2⟩
  learn n b value o h hQ := by
    obtain ⟨h, hvoted⟩ := h
    obtain ⟨rfl, hT⟩ := hQ
    have hperm := h.spent.perm hp hw
    have hpoll : Within c place p T (fun a => a.key = value.key ∧ T value.key a) n
        ((surroundings fate place).broadcast p.peers (.learn ⟨b, p.id, value⟩) o).2 := by
      refine h.poll hperm (by simp) fun m hm => ?_
      cases hm
      exact ⟨rfl, hT⟩
    refine ⟨hpoll.spent, ?_, hpoll.applied⟩
    rcases hf with hlen | hcarried
    · exact (hvoted hlen).poll hperm (by simp)
    · exact (h.votes.announced hperm (hcarried _)).mono (allowed_update_mono fun _ => False.elim)

end Observed

namespace Cluster

structure Confined (size : Nat) (log : List Account) (c : Cluster) : Prop where
  wired : c.Wired
  length : c.replicas.length = size
  strict : ∀ p ∈ c.proposers, p.config.shortfall = .strict
  votes : c.VotesIn (Allowed fun k a => a ∈ pending log k)

variable {c d : Cluster} {log : List Account} {size place : Nat} {p : Proposer} {κ : Conditions}
variable {fate : Request → Nat → Fate} {action : Action}

theorem observe_of_none (hp : c.proposers[place]? = none) :
    c.observe fate place action = (⟨action, .error .unwired, []⟩, c) := by
  simp only [observe, proposeIn, hp]
  rfl

theorem observe_of_some (hp : c.proposers[place]? = some p) :
    c.observe fate place action =
      let q := (Observed.surroundings fate place).attempts p.config p.id action p.config.maxRounds.toNat ⟨c, []⟩
      (⟨action, q.1, q.2.applied⟩, q.2.cluster) := by
  simp only [observe, proposeIn, hp]
  rfl

theorem observe_pass (place : Nat) (action : Action) (c : Cluster) :
    ((c.observe (fun _ _ => .pass) place action).1.outcome, (c.observe (fun _ _ => .pass) place action).2) =
      propose place action c := by
  have hviews : (Cluster.surroundings place).Views (Observed.surroundings (fun _ _ => .pass) place) (·.cluster) :=
    ⟨fun _ => rfl, fun _ => rfl, fun _ _ _ => broadcast_eq_poll ..⟩
  cases hp : c.proposers[place]? with
  | none => rw [observe_of_none hp, propose_of_none hp]
  | some p =>
      rw [observe_of_some hp, propose_of_some hp]
      exact (hviews.attempts p.config p.id action _ ⟨c, []⟩).symm

theorem History.of_observe {r : Account} {d' : Cluster} (h : History κ c log d) (hf : ∀ q x, κ.fate q (fate q x))
    (he : d.observe fate place action = (r, d')) (hb : d'.bounded) : History κ c (r :: log) d' := by
  have hw := h.write fate place action hf
  rw [he] at hw
  exact hw hb

namespace Confined

theorem of_fresh (h : c.Fresh) (hw : c.Wired) (hs : ∀ p ∈ c.proposers, p.config.shortfall = .strict) :
    c.Confined c.replicas.length [] where
  wired := hw
  length := rfl
  strict := hs
  votes r hr := by
    obtain ⟨id, stream, rfl⟩ := h r hr
    exact Replica.votesIn_start _ _ _

theorem of_within (h : c.Confined size log) (hp : c.proposers[place]? = some p) {T : String → Action → Prop}
    {Q : Action → Prop} {n : Nat} {o : Observed} (ho : o.Within c place p T Q n) {log' : List Account}
    (hT : (fun k a => a ∈ pending log' k) = T) : o.cluster.Confined size log' where
  wired := ho.spent.wired hp h.wired
  length := ho.spent.length.trans h.length
  strict := ho.spent.configs hp (P := (·.shortfall = .strict)) h.strict
  votes := hT ▸ ho.votes

theorem write (h : c.Confined size log) (hf : size ≤ 2 ∨ ∀ m x, (fate (.learn m) x).carried) (place : Nat)
    (action : Action) :
    (c.observe fate place action).2.Confined size ((c.observe fate place action).1 :: log) ∧
      ∀ y ∈ (c.observe fate place action).1.applied,
        y.2.key = action.key ∧ (y.2 ∈ pending log action.key ∨ y.2 = action) := by
  let U := Function.update (fun k a => a ∈ pending log k) action.key
    fun a => a ∈ pending log action.key ∨ a = action
  have hself : U action.key = fun a => a ∈ pending log action.key ∨ a = action := Function.update_self ..
  have hvotes : c.VotesIn (Allowed U) := h.votes.widen fun a => Or.inl
  cases hp : c.proposers[place]? with
  | none =>
      rw [observe_of_none hp]
      refine ⟨⟨h.wired, h.length, h.strict, ?_⟩, nofun⟩
      rw [pending_cons_error (by simp [Except.isOk, Except.toBool])]
      exact hvotes
  | some p =>
      have hstart : Observed.Within c place p U (fun a => a.key = action.key ∧ U action.key a) 0 ⟨c, []⟩ :=
        ⟨.refl hp, hvotes, nofun⟩
      have hrun := (Observed.keeps fate hp h.wired U action.key (h.length.symm ▸ hf)).attempts
        (h.strict p (List.mem_of_getElem? hp)) ⟨rfl, hself ▸ .inr rfl⟩ ?_ hstart p.config.maxRounds.toNat
      · rw [observe_of_some hp]
        generalize (Observed.surroundings fate place).attempts p.config p.id action p.config.maxRounds.toNat
          ⟨c, []⟩ = result at hrun ⊢
        obtain ⟨outcome, o⟩ := result
        cases outcome with
        | ok b =>
            obtain ⟨n, ho⟩ := hrun
            refine ⟨h.of_within hp ho ?_, fun y hy => by simpa only [hself] using ho.applied y hy⟩
            rw [pending_cons_ok rfl, Function.update_idem]
        | error failure =>
            obtain ⟨n, ho⟩ := hrun
            refine ⟨h.of_within hp ho ?_, fun y hy => by simpa only [hself] using ho.applied y hy⟩
            rw [pending_cons_error (by simp [Except.isOk, Except.toBool])]
      · rintro n value o ⟨-, hU⟩ ho
        refine ho.mono fun k v hv => ?_
        rw [← Function.update_eq_self action.key U]
        exact allowed_update_mono (fun a ha => ha ▸ hU) k v hv

end Confined

theorem confined_of_history (hc : c.Confined size []) (hf : size ≤ 2 ∨ ∀ m f, κ.fate (.learn m) f → f.carried)
    (h : History κ c log d) : d.Confined size log := by
  induction h with
  | start hb => exact hc
  | write _ fate place action hfate hb ih =>
      exact (ih.write (hf.imp_right fun hf m x => hf m _ (hfate _ x)) place action).1

theorem supersedes_of_confined (hc : c.Confined size [])
    (hf : size ≤ 2 ∨ ∀ m f, κ.fate (.learn m) f → f.carried) : c.Supersedes κ := by
  intro r log d h a ha hne x hx
  cases h with
  | write h fate place action hfate hb =>
      have hlog := confined_of_history hc hf h
      obtain ⟨hkey, hmem⟩ := (hlog.write (hf.imp_right fun hf m x => hf m _ (hfate _ x)) place action).2 _ hx
      rcases hmem with hmem | hmem
      · exact not_mem_pending ha (hkey ▸ hmem)
      · exact hne hmem.symm

end Cluster

end SynodStore

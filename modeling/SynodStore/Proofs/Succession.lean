import SynodStore.Proofs.Writing

namespace SynodStore

structure Receipt where
  action : Action
  outcome : Except Failure Ballot

/-- The writes to a key that came to nothing since the last one that was committed. The latest receipt stands
first. -/
def unsettled (log : List Receipt) (k : String) : List Action :=
  ((log.filter (·.action.key = k)).takeWhile (!·.outcome.isOk)).map (·.action)

namespace Replica.Operation

def outage : Operation → Bool
  | check _ | crash | reset => true
  | _ => false

variable {o : Operation}

theorem proposal?_of_outage (h : o.outage) : o.proposal? = none := by
  cases o with
  | check times | crash | reset => rfl
  | acceptor live operation | learn m | store key value => cases h

theorem learner_of_outage (h : o.outage) (r : Replica) : (perform o r).2.learner = r.learner := by
  cases o with
  | check times | crash | reset => rfl
  | acceptor live operation | learn m | store key value => cases h

end Replica.Operation

namespace Cluster

/-- Writes that follow one another, each of which has the cluster to itself, with outages in between. -/
inductive Course (c : Cluster) : List Receipt → Cluster → Prop
  | start (hb : c.bounded) : Course c [] c
  | disturb {log : List Receipt} {d : Cluster} (h : Course c log d) (place : Nat) (o : Replica.Operation)
      (ho : o.outage) : Course c log (d.visit Replica.Outcome.done place (Replica.perform o)).2
  | write {log : List Receipt} {d : Cluster} (h : Course c log d) (place : Nat) (action : Action)
      (hb : (propose place action d).2.bounded) :
      Course c (⟨action, (propose place action d).1⟩ :: log) (propose place action d).2

structure Ready (config : Config) (c : Cluster) : Prop where
  replicas : ∀ r ∈ c.replicas, ∃ id stream, r = .start id config.crash stream
  wired : c.Wired
  config : ∀ p ∈ c.proposers, p.config = config

theorem ready_of_startDirect {config : Config} {entropy : UInt64} {clock : Nat → Int} {c : Cluster}
    (h : startDirect config entropy clock = .ok c) : c.Ready config where
  replicas r hr := by
    rw [(started_of_startDirect h).1.replicas] at hr
    obtain ⟨i, -, rfl⟩ := List.mem_map.1 hr
    exact ⟨_, _, rfl⟩
  wired := wired_of_startDirect h
  config p hp := config_of_startDirect h hp

end Cluster

section

variable {log : List Receipt} {a : Action} {k : String}

theorem unsettled_cons_of_ne (outcome : Except Failure Ballot) (h : a.key ≠ k) :
    unsettled (⟨a, outcome⟩ :: log) k = unsettled log k := by
  simp [unsettled, h]

theorem unsettled_cons_ok (b : Ballot) : (fun k x => x ∈ unsettled (⟨a, .ok b⟩ :: log) k) =
    Function.update (fun k x => x ∈ unsettled log k) a.key fun _ => False := by
  funext k
  by_cases hk : k = a.key
  · subst k
    simp [unsettled, Except.isOk, Except.toBool]
  · rw [Function.update_of_ne hk, unsettled_cons_of_ne _ (Ne.symm hk)]

theorem unsettled_cons_error (failure : Failure) : (fun k x => x ∈ unsettled (⟨a, .error failure⟩ :: log) k) =
    Function.update (fun k x => x ∈ unsettled log k) a.key fun x => x ∈ unsettled log a.key ∨ x = a := by
  funext k x
  by_cases hk : k = a.key
  · subst k
    simp [unsettled, Except.isOk, Except.toBool, or_comm]
  · rw [Function.update_of_ne hk, unsettled_cons_of_ne _ (Ne.symm hk)]

end

namespace Cluster

/-- Where writes leave the cluster: all maps are equal, and only what writes left unsettled can still be decided. -/
structure Orderly (log : List Receipt) (c : Cluster) : Prop where
  wired : c.Wired
  strict : ∀ p ∈ c.proposers, p.config.shortfall = .strict
  bounded : c.bounded
  level : ∃ l, c.Level l
  votes : c.VotesIn (Allowed fun k a => a ∈ unsettled log k)

variable {c d s : Cluster} {log : List Receipt} {place n : Nat} {p : Proposer} {l : Learner} {action : Action}

namespace Orderly

theorem of_ready {config : Config} (h : c.Ready config) (hs : config.shortfall = .strict) (hb : c.bounded) :
    c.Orderly [] where
  wired := h.wired
  strict p hp := by rw [h.config p hp, hs]
  bounded := hb
  level := by
    refine ⟨.fresh, ?_, ?_⟩
    · intro r hr
      obtain ⟨id, stream, rfl⟩ := h.replicas r hr
      rfl
    · intro k b hk
      simp [Learner.fresh, Learner.lastApplied?] at hk
  votes r hr := by
    obtain ⟨id, stream, rfl⟩ := h.replicas r hr
    exact Replica.votesIn_start _ _ _

theorem disturb (h : c.Orderly log) {o : Replica.Operation} (ho : o.outage) :
    (c.visit Replica.Outcome.done place (Replica.perform o)).2.Orderly log where
  wired := h.wired.of_reset (congrArg _ (proposers_visit _ _)) (length_visit _ _)
  strict := by
    rw [proposers_visit]
    exact h.strict
  bounded := by
    rw [Cluster.bounded, proposers_visit]
    exact h.bounded
  level := by
    obtain ⟨l, hl⟩ := h.level
    refine ⟨l, ?_, ?_⟩
    · intro r hr
      rcases mem_of_visit hr with hr | ⟨r₀, hr₀, rfl⟩
      · exact hl.learner r hr
      · exact (Replica.Operation.learner_of_outage ho r₀).trans (hl.learner r₀ hr₀)
    · rw [proposers_visit]
      exact hl.issued
  votes := h.votes.visit fun r hr => hr.perform fun m hm => by
    rw [Replica.Operation.proposal?_of_outage ho] at hm
    cases hm

theorem of_spent (h : c.Orderly log) (hp : c.proposers[place]? = some p) (hs : c.Spent place p n s) (hb : s.bounded)
    {log' : List Receipt} (hl : s.Level l) (hv : s.VotesIn (Allowed fun k a => a ∈ unsettled log' k)) :
    s.Orderly log' where
  wired := hs.wired hp h.wired
  strict := hs.configs hp (P := (·.shortfall = .strict)) h.strict
  bounded := hb
  level := ⟨l, hl⟩
  votes := hv

/-- A write that is committed takes its effect, and one that fails has none or that of an unsettled one. -/
theorem write (h : c.Orderly log) (place : Nat) (action : Action) (hb : (propose place action c).2.bounded) :
    (propose place action c).2.Orderly (⟨action, (propose place action c).1⟩ :: log) ∧
      ∃ before after : Store, (∀ r ∈ c.replicas, r.learner.store = before) ∧
        (∀ r ∈ (propose place action c).2.replicas, r.learner.store = after) ∧
        match (propose place action c).1 with
        | .ok _ => after = action.apply before ∧ (propose place action c).2.Forgotten action.key
        | .error _ => after = before ∨ ∃ a ∈ unsettled log action.key, after = a.apply before := by
  obtain ⟨l, hl⟩ := h.level
  have hbefore : ∀ r ∈ c.replicas, r.learner.store = l.store := fun r hr => congrArg _ (hl.learner r hr)
  cases hp : c.proposers[place]? with
  | none =>
      rw [propose_of_none hp]
      refine ⟨⟨h.wired, h.strict, h.bounded, h.level, ?_⟩, l.store, l.store, hbefore, hbefore, .inl rfl⟩
      rw [unsettled_cons_error]
      exact h.votes.widen fun a => Or.inl
  | some p =>
      have hstrict := h.strict p (List.mem_of_getElem? hp)
      have hw := written_propose hp h.wired h.bounded hstrict h.votes hl action
      generalize propose place action c = result at hb hw ⊢
      cases hw with
      | committed b s n l' hu hn hs hv hf hl' =>
          obtain ⟨hstore, hl'⟩ := hl' (hs.add_lt hp h.bounded hb hn)
          refine ⟨h.of_spent hp hs hb hl' ?_, l.store, l'.store, hbefore, ?_, hstore, hf⟩
          · rwa [unsettled_cons_ok]
          · exact fun r hr => congrArg _ (hl'.learner r hr)
      | failed failure s n l' hu hn hs hv hl' =>
          obtain ⟨hstore, hl'⟩ := hl' (hs.add_lt hp h.bounded hb hn)
          refine ⟨h.of_spent hp hs hb hl' ?_, l.store, l'.store, hbefore, ?_, hstore.imp_right ?_⟩
          · rwa [unsettled_cons_error]
          · exact fun r hr => congrArg _ (hl'.learner r hr)
          · rintro ⟨a, -, ha, hstore⟩
            exact ⟨a, ha, hstore⟩

end Orderly

theorem orderly_of_course {config : Config} (hc : c.Ready config) (hs : config.shortfall = .strict)
    (h : Course c log d) : d.Orderly log := by
  induction h with
  | start hb => exact .of_ready hc hs hb
  | disturb _ place o ho ih => exact ih.disturb ho
  | write _ place action hb ih => exact (ih.write place action hb).1

theorem mem_unsettled {a : Action} {k : String} (h : a ∈ unsettled log k) : a.key = k := by
  obtain ⟨r, hr, rfl⟩ := List.mem_map.1 h
  simpa using (List.mem_filter.1 (List.takeWhile_subset _ hr)).2

/-- Writes that follow one another refine a single map, whatever outages come between them. A write that is
committed takes exactly its own effect, and one that fails has none, or that of a write to the same key that had
failed since the last one that was committed there. -/
theorem refines_of_course (config : Config) (hv : config.validate = .ok ()) (hs : config.shortfall = .strict) :
    (∀ entropy clock, ∃ c, startDirect config entropy clock = .ok c ∧ c.Ready config) ∧
    ∀ c log d, c.Ready config → Course c log d → ∀ place action, (propose place action d).2.bounded →
      ∃ before after : Store, (∀ r ∈ d.replicas, r.learner.store = before) ∧
        (∀ r ∈ (propose place action d).2.replicas, r.learner.store = after) ∧
        (∀ b, (propose place action d).1 = .ok b →
          after = action.apply before ∧ (propose place action d).2.Forgotten action.key) ∧
        (∀ failure, (propose place action d).1 = .error failure →
          after = before ∨ ∃ a ∈ unsettled log action.key, after = a.apply before) ∧
        ∀ k, k ≠ action.key → after[k]? = before[k]? := by
  constructor
  · intro entropy clock
    obtain ⟨c, hc, -⟩ := exists_startDirect hv entropy clock
    exact ⟨c, hc, ready_of_startDirect hc⟩
  · intro c log d hc h place action hb
    obtain ⟨-, before, after, hbefore, hafter, hout⟩ := (orderly_of_course hc hs h).write place action hb
    refine ⟨before, after, hbefore, hafter, ?_, ?_, ?_⟩
    · intro b ho
      rwa [ho] at hout
    · intro failure ho
      rwa [ho] at hout
    · intro k hk
      cases ho : (propose place action d).1 with
      | ok b =>
          rw [ho] at hout
          rw [hout.1, Action.getElem?_apply, if_neg hk.symm]
      | error failure =>
          rw [ho] at hout
          obtain rfl | ⟨a, ha, rfl⟩ := hout
          · rfl
          · rw [Action.getElem?_apply, if_neg (mem_unsettled ha ▸ hk.symm)]

/-- Two replicas crash while they are asked for their votes, and the vote of the third decides the only round of the
next write. -/
theorem refines_of_course_recovered :
    let config : Config := { Config.steady 3 with crash := some ⟨4, 4, 10⟩, maxRounds := 1, seed := some 5 }
    ∃ c d log, startDirect config 0 (fun _ => 0) = .ok c ∧ Course c log d ∧
      (propose 0 (.put "k" "w") d).2.bounded ∧ (propose 0 (.put "k" "w") d).1 = .error (.exhausted 1) ∧
      ∃ before after : Store, (∀ r ∈ d.replicas, r.learner.store = before) ∧
        (∀ r ∈ (propose 0 (.put "k" "w") d).2.replicas, r.learner.store = after) ∧
        (after = before ∨ ∃ a ∈ unsettled log "k", after = a.apply before) ∧
        before["k"]? = none ∧ after["k"]? = some "v" := by
  intro config
  let outage (place : Nat) (o : Replica.Operation) (c : Cluster) : Cluster :=
    (c.visit Replica.Outcome.done place (Replica.perform o)).2
  let c := (startDirect config 0 fun _ => 0).toOption.getD ⟨[], []⟩
  let first := propose 0 (.put "k" "v") (outage 2 (.check 3) (outage 1 (.check 3) c))
  let d := outage 2 (.check 10) (outage 1 (.check 10) first.2)
  have hc : startDirect config 0 (fun _ => 0) = .ok c := by
    obtain ⟨c', hc', -⟩ := @exists_startDirect config rfl 0 fun _ => 0
    simp only [c, hc']
    rfl
  have hrun : c.bounded ∧ first.2.bounded ∧ (propose 0 (.put "k" "w") d).2.bounded ∧
      (propose 0 (.put "k" "w") d).1 = .error (.exhausted 1) ∧ d.values "k" = [none, none, none] ∧
      (propose 0 (.put "k" "w") d).2.values "k" = [some "v", some "v", some "v"] := by decide +kernel
  obtain ⟨hb, hb', hb'', ho, hbefore', hafter'⟩ := hrun
  have h : Course c [⟨.put "k" "v", first.1⟩] d := by
    have h := (Course.start hb).disturb 1 (.check 3) rfl |>.disturb 2 (.check 3) rfl
    exact (h.write 0 (.put "k" "v") hb').disturb 1 (.check 10) rfl |>.disturb 2 (.check 10) rfl
  obtain ⟨before, after, hbefore, hafter, -, hfailed, -⟩ :=
    (refines_of_course config rfl rfl).2 c _ d (ready_of_startDirect hc) h 0 (.put "k" "w") hb''
  have hread {d : Cluster} {store : Store} {l : List (Option String)} {v : Option String} (hd : d.values "k" = v :: l)
      (hs : ∀ r ∈ d.replicas, r.learner.store = store) : store["k"]? = v := by
    obtain ⟨r, rs, hr, hv, -⟩ := List.map_eq_cons_iff.1 hd
    rw [← hv, Replica.get?, hs r (hr ▸ List.mem_cons_self)]
  exact ⟨c, d, _, hc, h, hb'', ho, before, after, hbefore, hafter, hfailed _ ho, hread hbefore' hbefore,
    hread hafter' hafter⟩

end Cluster

end SynodStore

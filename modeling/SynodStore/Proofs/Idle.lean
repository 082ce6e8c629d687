import SynodStore.Proofs.Writing

namespace SynodStore

namespace Acceptor

variable {a : Acceptor} {k : String}

def Bare (k : String) (a : Acceptor) : Prop :=
  ∀ k', k ≠ k' → a.slot? k' = none

theorem tracked_eq_zero (h : a.Blank) : a.tracked = 0 := by
  have he : a.slots = ∅ := Std.ExtTreeMap.ext_getElem? fun k => (h k).trans Std.ExtTreeMap.getElem?_empty.symm
  rw [tracked, he, Std.ExtTreeMap.size_empty]

end Acceptor

namespace Replica

def Steady (Q : Acceptor → Prop) (r : Replica) : Prop :=
  ∃ a, r.supervisor.lease = .live a none ∧ Q a

variable {r : Replica} {Q : Acceptor → Prop} {b : Ballot} {sender : UInt32} {action : Action}

theorem Steady.prepare (h : r.Steady Acceptor.Blank) (b : Ballot) (k : String) (sender : UInt32) :
    (r.answer (.prepare ⟨b, k, sender⟩)).1 = .promise (some ⟨b, none⟩) ∧
      (r.answer (.prepare ⟨b, k, sender⟩)).2.Steady fun a => a.slot k = ⟨some b, none⟩ ∧ a.Bare k := by
  obtain ⟨a, hl, ha⟩ := h
  have hslot : a.slot k = .fresh := by rw [Acceptor.slot, ha, Option.getD_none]
  simp only [answer, Replica.prepare, Supervisor.serve_of_steady hl, Acceptor.prepare, hslot, Option.join_some]
  refine ⟨rfl, _, rfl, ?_, fun k' hk => ?_⟩
  · exact Acceptor.slot_update_self _ _
  · exact (Acceptor.slot?_update_of_ne hk _).trans (ha k')

theorem Steady.accept (h : r.Steady fun a => a.slot action.key = ⟨some b, none⟩ ∧ a.Bare action.key)
    (sender : UInt32) :
    (r.answer (.accept ⟨b, sender, action⟩)).1 = .vote (some ⟨b, action⟩) ∧
      (r.answer (.accept ⟨b, sender, action⟩)).2.Steady (·.Bare action.key) := by
  obtain ⟨a, hl, hslot, ha⟩ := h
  have hadmits : (a.slot action.key).admitsAccept b := by simp [hslot, Slot.admitsAccept]
  simp only [answer, Replica.accept, Supervisor.serve_of_steady hl, Acceptor.accept, hadmits, if_true,
    Option.join_some]
  exact ⟨rfl, _, rfl, fun k' hk => (Acceptor.slot?_update_of_ne hk _).trans (ha k' hk)⟩

theorem Steady.learn (h : r.Steady (·.Bare action.key)) :
    (r.learn ⟨b, sender, action⟩).Steady Acceptor.Blank := by
  obtain ⟨a, hl, ha⟩ := h
  refine ⟨a.clear action.key, by simp [Replica.learn, Supervisor.clear, Supervisor.visit, hl], fun k => ?_⟩
  by_cases hk : action.key = k
  · subst k
    exact Acceptor.slot?_clear_self
  · exact (Acceptor.slot?_clear_of_ne hk).trans (ha k hk)

theorem id_answer (q : Request) (r : Replica) : (r.answer q).2.id = r.id := by
  cases q with
  | prepare m | accept m | learn m => rfl

theorem id_meet (q : Request) (f : Scenario.Fate) (r : Replica) : (r.meet q f).2.id = r.id := by
  simp only [meet]
  split
  · exact id_answer q r
  · rfl

end Replica

namespace Cluster

/-- Nothing is under way, and nothing was left behind. All replicas have learnt the same, and all acceptors are up
for good and remember no key. -/
structure Idle (n : Nat) (l : Learner) (c : Cluster) : Prop where
  wired : c.Wired
  bounded : c.bounded
  rounds : ∀ p ∈ c.proposers, 0 < p.config.maxRounds.toNat
  inhabited : 0 < n
  staffed : c.proposers.length = n
  ids : c.replicas.map (·.id.toNat) = List.range n
  level : c.Level l
  steady : ∀ r ∈ c.replicas, r.Steady Acceptor.Blank

variable {c s : Cluster} {n place : Nat} {l : Learner} {p : Proposer} {peers : List Nat} {q : Request}
variable {Q R : Replica → Prop} {reply : Reply} {config : Config} {sender : UInt32} {b : Ballot} {action : Action}

theorem Idle.length (h : c.Idle n l) : c.replicas.length = n := by
  simpa using congrArg List.length h.ids

theorem ids_poll {fate : Nat → Scenario.Fate} (hp : peers.Perm c.places) :
    (c.poll q fate peers).2.replicas.map (·.id.toNat) = c.replicas.map (·.id.toNat) := by
  rw [replicas_poll hp]
  refine List.ext_getElem (by simp) fun x hx hx' => ?_
  simp only [List.getElem_map, List.getElem_mapIdx]
  exact congrArg _ (Replica.id_meet q _ _)

theorem poll_alike (hp : peers.Perm c.places) (h : ∀ r ∈ c.replicas, Q r)
    (hq : ∀ r, Q r → (r.answer q).1 = reply ∧ R (r.answer q).2) :
    (c.poll q (fun _ => .pass) peers).1 = List.replicate c.replicas.length (.ok reply) ∧
      ∀ r ∈ (c.poll q (fun _ => .pass) peers).2.replicas, R r := by
  constructor
  · refine List.eq_replicate_iff.2 ⟨?_, fun a ha => ?_⟩
    · rw [(answers_poll_perm hp).length_eq, List.length_mapIdx]
    · obtain ⟨x, r, hr, rfl⟩ := exists_of_mem_answers_poll hp ha
      exact congrArg Except.ok (hq r (h r hr)).1
  · intro r hr
    obtain ⟨x, r₀, hr₀, rfl⟩ := exists_of_mem_poll hp hr
    exact (hq r₀ (h r₀ hr₀)).2

/-- A round that all replicas promise and vote in commits its own action, and no acceptor remembers it. -/
theorem carry_alone (place : Nat) (sender : UInt32) (b : Ballot) (action : Action)
    (hp : peers.Perm s.places) (hm : config.majority ≤ s.replicas.length)
    (h : ∀ r ∈ s.replicas, r.Steady Acceptor.Blank) :
    let asked := (s.poll (.prepare ⟨b, action.key, sender⟩) (fun _ => .pass) peers).2
    let voted := (asked.poll (.accept ⟨b, sender, action⟩) (fun _ => .pass) peers).2
    let told := (voted.poll (.learn ⟨b, sender, action⟩) (fun _ => .pass) peers).2
    (surroundings place).carry config sender peers (.first action b) s = (.ok ⟨b, action⟩, told) ∧
      ∀ r ∈ told.replicas, r.Steady Acceptor.Blank := by
  intro asked voted told
  obtain ⟨hpromises, hasked⟩ := poll_alike hp h fun r hr => hr.prepare b action.key sender
  have hp₁ : peers.Perm asked.places := by rwa [places, length_poll]
  obtain ⟨hvotes, hvoted⟩ := poll_alike hp₁ hasked fun r hr => hr.accept sender
  have hp₂ : peers.Perm voted.places := by rwa [places, length_poll]
  constructor
  · have hprepare : (surroundings place).broadcast peers (.prepare ⟨b, action.key, sender⟩) s =
        (List.replicate s.replicas.length (.ok (.promise (some ⟨b, none⟩))), asked) :=
      (broadcast_eq_poll ..).trans (Prod.ext hpromises rfl)
    have haccept : (surroundings place).broadcast peers (.accept ⟨b, sender, action⟩) asked =
        (List.replicate asked.replicas.length (.ok (.vote (some ⟨b, action⟩))), voted) :=
      (broadcast_eq_poll ..).trans (Prod.ext hvotes rfl)
    have hpromised (n : Nat) : (List.replicate n (.ok (.promise (some ⟨b, none⟩)))).filterMap Answer.promise? =
        List.replicate n ⟨b, none⟩ := List.filterMap_replicate_of_some rfl
    have haccepted (n : Nat) : (List.replicate n (.ok (.vote (some ⟨b, action⟩)))).filterMap Answer.vote? =
        List.replicate n ⟨b, action⟩ := List.filterMap_replicate_of_some rfl
    rw [Surroundings.carry_of_ask hprepare (Round.ask_accept none rfl ?_ ?_),
      Surroundings.carry_of_ask haccept (Round.ask_learn rfl ?_)]
    · exact Surroundings.carry_of_announced (congrArg Prod.snd (broadcast_eq_poll ..)) rfl
    · rwa [haccepted, List.length_replicate, length_poll]
    · rwa [hpromised, List.length_replicate]
    · rw [hpromised]
      exact chooseValue_eq_none fun p hp => (List.eq_of_mem_replicate hp).symm ▸ rfl
  · intro r hr
    obtain ⟨r₀, hr₀, rfl⟩ := exists_of_mem_announced hp₂ (fun _ => rfl) hr
    exact (hvoted r₀ hr₀).learn

namespace Idle

theorem propose_eq (h : c.Idle n l) (hp : c.proposers[place]? = some p) (action : Action) :
    let started := c.spend place p
    let asked := (started.poll (.prepare ⟨p.issuer.upcoming, action.key, p.id⟩) (fun _ => .pass) p.peers).2
    let voted := (asked.poll (.accept ⟨p.issuer.upcoming, p.id, action⟩) (fun _ => .pass) p.peers).2
    let told := (voted.poll (.learn ⟨p.issuer.upcoming, p.id, action⟩) (fun _ => .pass) p.peers).2
    Cluster.propose place action c = (.ok p.issuer.upcoming, told) ∧
      ∀ r ∈ told.replicas, r.Steady Acceptor.Blank := by
  intro started asked voted told
  have hmem := List.mem_of_getElem? hp
  have hperm := h.wired.peers p hmem
  have hmajority : p.config.majority ≤ started.replicas.length := by
    have hlength := h.length
    have hinhabited := h.inhabited
    rw [h.wired.majority hmem]
    exact Nat.succ_le_of_lt (Nat.div_lt_self (by omega) (by decide))
  obtain ⟨hcarry, hsteady⟩ := carry_alone (s := started) place p.id p.issuer.upcoming action hperm hmajority h.steady
  refine ⟨?_, hsteady⟩
  have hne : p.peers ≠ [] := by
    intro he
    have hlength := hperm.length_eq
    rw [he, places, List.length_range, h.length] at hlength
    exact absurd hlength h.inhabited.ne
  have hpeers : (surroundings place).peers c = (p.peers, c) := peers_surroundings hp
  have hissue : (surroundings place).issue c = (.ok p.issuer.upcoming, started) :=
    issue_of_lt hp (bounded_iff.1 h.bounded p hmem)
  obtain ⟨m, hm⟩ := Nat.exists_eq_succ_of_ne_zero (h.rounds p hmem).ne'
  rw [propose_of_some hp, hm, Surroundings.attempts_eq, Surroundings.round_of_issued action hpeers hne hissue, hcarry]
  exact if_pos rfl

theorem propose (h : c.Idle n l) (hp : c.proposers[place]? = some p) (action : Action)
    (hb : (Cluster.propose place action c).2.bounded) :
    ∃ b l', (Cluster.propose place action c).1 = .ok b ∧ l'.store = action.apply l.store ∧
      (Cluster.propose place action c).2.Idle n l' := by
  obtain ⟨he, hsteady⟩ := h.propose_eq hp action
  rw [he] at hb ⊢
  have hs₀ := (Spent.refl hp).spend
  rw [p.skip_zero] at hs₀
  have hp₀ := hs₀.perm hp h.wired
  have hs₁ := hs₀.poll (.prepare ⟨p.issuer.upcoming, action.key, p.id⟩) (fun _ => .pass) p.peers
  have hp₁ := hs₁.perm hp h.wired
  have hs₂ := hs₁.poll (.accept ⟨p.issuer.upcoming, p.id, action⟩) (fun _ => .pass) p.peers
  have hp₂ := hs₂.perm hp h.wired
  have hs₃ := hs₂.poll (.learn ⟨p.issuer.upcoming, p.id, action⟩) (fun _ => .pass) p.peers
  obtain ⟨hlevel, hnovel⟩ :=
    (Spent.refl hp).novel hp h.wired h.bounded h.level (hs₃.add_lt hp h.bounded hb (by decide))
  rw [p.skip_zero] at hlevel hnovel
  obtain ⟨hstore, hlevel⟩ := ((hlevel.poll hp₀ (by simp)).poll hp₁ (by simp)).announced hp₂
    (m := ⟨p.issuer.upcoming, p.id, action⟩) hnovel.poll.poll
  refine ⟨_, _, rfl, hstore, hs₃.wired hp h.wired, hb,
    hs₃.configs hp (P := (0 < ·.maxRounds.toNat)) h.rounds, h.inhabited, ?_, ?_, hlevel, hsteady⟩
  · rw [hs₃.proposers, List.length_set, h.staffed]
  · rw [ids_poll hp₂, ids_poll hp₁, ids_poll hp₀]
    exact h.ids

end Idle

theorem idle_of_startDirect {entropy : UInt64} {clock : Nat → Int} (h : startDirect config entropy clock = .ok c)
    (hc : config.crash = none) (hb : c.bounded) : c.Idle config.clusterSize.toNat .fresh where
  wired := wired_of_startDirect h
  bounded := hb
  rounds p hp := by
    rw [config_of_startDirect h hp]
    exact (Config.bounds_of_validate (validate_of_startDirect h)).2.2
  inhabited := (Config.bounds_of_validate (validate_of_startDirect h)).1
  staffed := by
    rw [← (started_of_startDirect h).1.proposers.length_eq, List.length_range]
  ids := by
    have hsize := (Config.bounds_of_validate (validate_of_startDirect h)).2.1
    rw [(started_of_startDirect h).1.replicas, List.map_map]
    refine (List.map_congr_left fun i hi => ?_).trans (List.map_id _)
    exact Proposer.toNat_ofNat_of_lt ((List.mem_range.1 hi).trans_le hsize)
  level := by
    refine ⟨fun r hr => ?_, fun k b hk => ?_⟩
    · obtain ⟨id, stream, rfl⟩ := fresh_of_startDirect h hc r hr
      rfl
    · simp [Learner.fresh, Learner.lastApplied?] at hk
  steady r hr := by
    obtain ⟨id, stream, rfl⟩ := fresh_of_startDirect h hc r hr
    exact ⟨.fresh id, rfl, Acceptor.blank_fresh id⟩

end Cluster

end SynodStore

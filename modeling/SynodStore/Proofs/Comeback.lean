import SynodStore.Proofs.Rivals
import SynodStore.Proofs.Supersession

namespace SynodStore

open Scenario (Fate)

variable {m : Nat} {c : Cluster} {q : Request} {last : Request → Fate}

def apart (m : Nat) (last : Request → Fate) (q : Request) (x : Nat) : Fate :=
  if x < m then .pass else last q

theorem map_apart (m : Nat) (last : Request → Fate) (q : Request) :
    (List.range [m, 1].sum).map (apart m last q) = groups [m, 1] [.pass, last q] := by
  have hsum : [m, 1].sum = m + 1 := rfl
  rw [hsum, List.range_succ, List.map_append]
  refine congrArg₂ _ (List.eq_replicate_iff.2 ⟨by simp, fun f hf => ?_⟩) (by simp [apart])
  obtain ⟨x, hx, rfl⟩ := List.mem_map.1 hf
  exact if_pos (List.mem_range.1 hx)

theorem fate_apart (m : Nat) (h : ∀ q, last q ≠ .refuse) (q : Request) (x : Nat) :
    Conditions.faulty.fate q (apart m last q x) := by
  simp only [Conditions.faulty, apart]
  split
  · decide
  · simpa using h q

theorem chooseValue_apart (m : Nat) (b : Ballot) (a : Answer) :
    chooseValue ((groups [m, 1] [.ok (.promise (some ⟨b, none⟩)), a]).filterMap Answer.promise?) =
      (a.promise?.bind (·.accepted)).map (·.action) := by
  have hfront : (List.replicate m (Except.ok (Reply.promise (some ⟨b, none⟩)) : Answer)).filterMap Answer.promise? =
      List.replicate m ⟨b, none⟩ := List.filterMap_replicate_of_some rfl
  simp only [chooseValue, groups, List.zipWith_cons_cons, List.zipWith_nil_left, List.flatten_cons, List.flatten_nil,
    List.append_nil, List.filterMap_append, hfront, List.filterMap_replicate_of_none, List.nil_append]
  cases ha : a.promise? with
  | none => simp [ha, highestVote]
  | some p => cases hp : p.accepted <;> simp [ha, hp, highestVote]

namespace Cluster

theorem Lineup.poll {x y : Cell} (q : Request) (last : Request → Fate) (h : c.Lineup q.key (groups [m, 1] [x, y])) :
    (c.poll q (apart m last q) (List.range [m, 1].sum)).1 =
        groups [m, 1] [.ok (x.serve q).1, (y.meet q (last q)).1] ∧
      (c.poll q (apart m last q) (List.range [m, 1].sum)).2.Lineup q.key
        (groups [m, 1] [(x.serve q).2, (y.meet q (last q)).2]) := by
  have hlen {α : Type} (a b : α) : (groups [m, 1] [a, b]).length = [m, 1].sum := length_groups rfl
  have hpoll : c.poll q (apart m last q) (List.range [m, 1].sum) =
      calls q ((List.range' ([] : List Replica).length (groups [m, 1] [x, y]).length).zip
        (groups [m, 1] [.pass, last q])) c := by
    rw [Cluster.poll, hlen, ← map_apart, List.length_nil, ← List.range_eq_range', List.map_prod_left_eq_zip]
  obtain ⟨hheard, rest, hr, hheld⟩ :=
    @calls_range' c q [] c.replicas [] _ (groups [m, 1] [.pass, last q]) (by simp) h (by rw [hlen, hlen])
  rw [hpoll]
  refine ⟨hheard.trans (zipWith_groups ..), ?_⟩
  rw [Lineup, hr, List.nil_append, List.append_nil]
  rwa [Cell.held, zipWith_groups] at hheld

theorem Lineup.exists_first {k : String} {x y : Cell} (h : c.Lineup k (groups [m, 1] [x, y])) (hm : 0 < m) :
    ∃ r, c.replicas[0]? = some r ∧ r.Holds k x := by
  obtain ⟨j, rfl⟩ := Nat.exists_eq_succ_of_ne_zero hm.ne'
  rw [Lineup, groups_cons, List.replicate_succ, List.cons_append, List.forall₂_cons_right_iff] at h
  obtain ⟨r, rs, hr, -, he⟩ := h
  exact ⟨r, by rw [he]; rfl, hr⟩

theorem mem_applications {place : Nat} {peers : List Nat} {fate : Nat → Fate} {m : Proposal} {r : Replica} {x : Cell}
    (hr : c.replicas[place]? = some r) (hx : r.Holds m.action.key x) (hb : x.applied ≠ some m.ballot)
    (hp : place ∈ peers) (hf : (fate place).carried) : (place, m.action) ∈ c.applications (.learn m) fate peers := by
  refine List.mem_map.2 ⟨place, List.mem_filter.2 ⟨hp, ?_⟩, rfl⟩
  rw [← hx.applied] at hb
  simp [hf, hr, hb]

end Cluster

namespace Cell

def after (y : Cell) (last : Request → Fate) (requests : List Request) : Cell :=
  requests.foldl (fun y q => (y.meet q (last q)).2) y

variable {x : Cell} {b : Ballot} {k v : String} {sender : UInt32}

theorem serve_prepare_of_fresh (h : x.slot = .fresh) :
    x.serve (.prepare ⟨b, k, sender⟩) = (.promise (some ⟨b, none⟩), x.promised b) := by
  have hadmits : x.slot.admitsPrepare b := by simp [h, Slot.fresh, Slot.admitsPrepare]
  rw [serve_prepare (m := ⟨b, k, sender⟩) hadmits, h]
  rfl

theorem serve_learn_voted (h : x.applied ≠ some b) :
    ((x.voted ⟨b, .put k v⟩).serve (.learn ⟨b, sender, .put k v⟩)).2 = ⟨.fresh, some b, some v⟩ := by
  simp only [serve, voted, h, if_false]
  rfl

end Cell

namespace Rivals

def untold : Request → Fate
  | .learn _ => .fail
  | _ => .pass

theorem untold_ne_refuse (q : Request) : untold q ≠ .refuse := by
  cases q <;> simp [untold]

variable {r : Rivals [m, 1].sum} {counter : UInt64} {x y : Cell} {b : Ballot} {v w : String}

/-- The first proposer has used so many ballots, and the replicas hold this of the key. -/
structure Stands (r : Rivals [m, 1].sum) (c : Cluster) (counter : UInt64) (x y : Cell) : Prop where
  lineup : c.Lineup "k" (groups [m, 1] [x, y])
  proposers : c.proposers = .first r.config [m, 1].sum counter :: .second r.config [m, 1].sum 0 :: r.others

theorem length_le_filterMap_apart {α β : Type} {f : α → Option β} {a a' : α} (h : (f a).isSome) :
    m ≤ ((groups [m, 1] [a, a']).filterMap f).length := by
  obtain ⟨z, hz⟩ := Option.isSome_iff_exists.1 h
  rw [length_filterMap_groups]
  simp [hz]

theorem Stands.round (h : r.Stands c counter x y) (last : Request → Fate) (hx : x.slot = .fresh)
    (hm : r.config.majority ≤ m) (hlt : counter.toNat < Ballot.counterBound)
    (hb : Ballot.pack (counter + 1) 0 = b) (hxb : x.applied ≠ some b)
    (hw : (((y.meet (.prepare ⟨b, "k", 0⟩) (last (.prepare ⟨b, "k", 0⟩))).1.promise?.bind (·.accepted)).map
      (·.action)).getD (.put "k" v) = .put "k" w) (applied : List (Nat × Action)) :
    ∃ o, (Observed.surroundings (apart m last) 0).round r.config 0 (.put "k" v) ⟨c, applied⟩ =
        (.ok ⟨b, .put "k" w⟩, o) ∧
      r.Stands o.cluster (counter + 1) ⟨.fresh, some b, some w⟩ (y.after last
        [.prepare ⟨b, "k", 0⟩, .accept ⟨b, 0, .put "k" w⟩, .learn ⟨b, 0, .put "k" w⟩]) ∧
      (0, .put "k" w) ∈ o.applied ∧ applied ⊆ o.applied := by
  have hp : c.proposers[0]? = some (.first r.config [m, 1].sum counter) := by rw [h.proposers]; rfl
  let n := [m, 1].sum
  let e := Observed.surroundings (apart m last) 0
  let d := c.spend 0 (.first r.config n counter)
  let asking : Request := .prepare ⟨b, "k", 0⟩
  let voting : Request := .accept ⟨b, 0, .put "k" w⟩
  let telling : Request := .learn ⟨b, 0, .put "k" w⟩
  let asked := (e.broadcast (List.range n) asking ⟨d, applied⟩).2
  let voted := (e.broadcast (List.range n) voting asked).2
  let told := (e.broadcast (List.range n) telling voted).2
  have hpromise : x.serve asking = (.promise (some ⟨b, none⟩), x.promised b) := Cell.serve_prepare_of_fresh hx
  have hvote : (x.promised b).serve voting = (.vote (some ⟨b, .put "k" w⟩), x.voted ⟨b, .put "k" w⟩) :=
    x.serve_accept_promised ⟨b, 0, .put "k" w⟩
  have hlearn : ((x.voted ⟨b, .put "k" w⟩).serve telling).2 = ⟨.fresh, some b, some w⟩ :=
    Cell.serve_learn_voted hxb
  have hd : d.Lineup "k" (groups [m, 1] [x, y]) := h.lineup
  obtain ⟨hasked, hlineup₁⟩ := Cluster.Lineup.poll asking last hd
  rw [hpromise] at hasked hlineup₁
  obtain ⟨hvoted, hlineup₂⟩ := Cluster.Lineup.poll voting last hlineup₁
  rw [hvote] at hvoted hlineup₂
  obtain ⟨-, hlineup₃⟩ := Cluster.Lineup.poll telling last hlineup₂
  rw [hlearn] at hlineup₃
  have hpos : 0 < m := (Nat.succ_pos _).trans_le hm
  refine ⟨told, ?_, ⟨hlineup₃, ?_⟩, ?_, ?_⟩
  · have hpeers : e.peers ⟨c, applied⟩ = (List.range n, ⟨c, applied⟩) := by
      simp only [e, Observed.surroundings, Cluster.peers, h.proposers]
      rfl
    have hissue : e.issue ⟨c, applied⟩ = (.ok b, ⟨d, applied⟩) := by
      simp only [e, Observed.surroundings, Cluster.issue_of_lt (p := .first r.config n counter) hp hlt]
      exact congrArg (fun b => (Except.ok b, _)) hb
    have hne : List.range n ≠ [] := by simp [n]
    rw [Surroundings.round_of_issued _ hpeers hne hissue]
    have hprepare : e.broadcast (List.range n) asking ⟨d, applied⟩ = (_, asked) := Prod.ext hasked rfl
    have haccept : e.broadcast (List.range n) voting asked = (_, voted) := Prod.ext hvoted rfl
    rw [Surroundings.carry_of_ask hprepare (Round.ask_accept _ rfl (hm.trans (length_le_filterMap_apart rfl))
      (chooseValue_apart m b _))]
    dsimp only [Round.first]
    rw [hw, Surroundings.carry_of_ask haccept (Round.ask_learn rfl (hm.trans (length_le_filterMap_apart rfl)))]
    exact Surroundings.carry_of_announced rfl rfl
  · simp only [told, voted, asked, e, Observed.surroundings, Cluster.proposers_poll, d, Cluster.spend, h.proposers]
    rfl
  · obtain ⟨q, hq, hheld⟩ := Cluster.Lineup.exists_first hlineup₂ hpos
    refine List.mem_append_right _ (Cluster.mem_applications (m := ⟨b, 0, .put "k" w⟩) hq hheld hxb ?_ ?_)
    · exact List.mem_range.2 (Nat.succ_pos _)
    · simp only [apart, if_pos hpos]
      rfl
  · simp only [told, voted, asked, e, Observed.surroundings, List.append_assoc]
    exact List.subset_append_left _ _

theorem stands_start (r : Rivals [m, 1].sum) : r.Stands r.cluster 0 .fresh .fresh where
  lineup := by
    have h := Cluster.lineup_of_fresh r.fresh "k"
    rwa [r.length, ← groups_map_const] at h
  proposers := r.proposers

theorem Stands.bounded (h : r.Stands c counter x y) (hlt : counter.toNat < Ballot.counterBound) : c.bounded := by
  have hr := Synod.bounded_iff.1 r.bounded
  rw [Cluster.bounded_iff, h.proposers]
  intro p hp
  rcases List.mem_cons.1 hp with rfl | hp
  · exact hlt
  · exact hr p (r.proposers ▸ List.mem_cons_of_mem _ hp)

theorem Stands.observe {rest : Nat} (h : r.Stands c counter x y) (hr : r.config.maxRounds.toNat = rest + 1)
    {fate : Request → Nat → Fate} {action : Action} {d : Vote} {o : Observed}
    (ho : (Observed.surroundings fate 0).round r.config 0 action ⟨c, []⟩ = (.ok d, o)) :
    c.observe fate 0 action =
      let p := if d.action = action then (.ok d.ballot, o)
        else (Observed.surroundings fate 0).attempts r.config 0 action rest o
      (⟨action, p.1, p.2.applied⟩, p.2.cluster) := by
  have hp : c.proposers[0]? = some (.first r.config [m, 1].sum counter) := by rw [h.proposers]; rfl
  have hmax : (Proposer.first r.config [m, 1].sum counter).config.maxRounds.toNat = rest + 1 := hr
  have hround : (Observed.surroundings fate 0).round (Proposer.first r.config [m, 1].sum counter).config
      (Proposer.first r.config [m, 1].sum counter).id action ⟨c, []⟩ = (.ok d, o) := ho
  rw [Cluster.observe_of_some hp, hmax]
  simp only [Surroundings.attempts_eq, hround]
  rfl

/-- The last replica votes for the first write and hears neither of it nor of the second one, so that the third one
recovers the first. -/
theorem not_supersedes {rest : Nat} (r : Rivals [m, 1].sum) (hm : r.config.majority ≤ m)
    (hr : r.config.maxRounds.toNat = rest + 1) : ¬ r.cluster.Supersedes .faulty := by
  intro h
  obtain ⟨o₁, ho₁, hs₁, -⟩ := r.stands_start.round untold (v := "v")
    (w := "v") (b := .pack 1 0) rfl hm (by decide) rfl (by decide) rfl []
  obtain ⟨o₂, ho₂, hs₂, -⟩ := hs₁.round (fun _ => .fail) (v := "w") (w := "w") (b := .pack 2 0) rfl hm
    (by decide) rfl (by decide) rfl []
  obtain ⟨o₃, ho₃, hs₃, happlied, -⟩ := hs₂.round (fun _ => .pass) (v := "x") (w := "v") (b := .pack 3 0) rfl hm
    (by decide) rfl (by decide) rfl []
  have he₁ := r.stands_start.observe hr ho₁
  have he₂ := hs₁.observe hr ho₂
  have he₃ := hs₂.observe hr ho₃
  have hne : Action.put "k" "v" ≠ .put "k" "x" := by decide
  have hne' : Action.put "k" "w" ≠ .put "k" "v" := by decide
  simp only [if_true] at he₁ he₂
  simp only [hne, if_false] at he₃
  have hlast : ((Observed.surroundings (apart m fun _ => .pass) 0).attempts r.config 0 (.put "k" "x") rest
      o₃).2.cluster.bounded ∧ (0, .put "k" "v") ∈ ((Observed.surroundings (apart m fun _ => .pass) 0).attempts r.config
        0 (.put "k" "x") rest o₃).2.applied := by
    cases rest with
    | zero => exact ⟨hs₃.bounded (by decide), happlied⟩
    | succ rest =>
        obtain ⟨o₄, ho₄, hs₄, -, hsub⟩ := hs₃.round (fun _ => .pass) (v := "x") (w := "x") (b := .pack 4 0)
          rfl hm (by decide) rfl (by decide) rfl o₃.applied
        simp only [Surroundings.attempts_eq, ho₄, if_true]
        exact ⟨hs₄.bounded (by decide), hsub happlied⟩
  have hh₁ := (Cluster.History.start (κ := .faulty) (r.stands_start.bounded (by decide))).of_observe
    (fate_apart m untold_ne_refuse) he₁ (hs₁.bounded (by decide))
  have hh₂ := hh₁.of_observe (fate_apart m fun _ => by decide) he₂ (hs₂.bounded (by decide))
  have hh₃ := hh₂.of_observe (fate_apart m fun _ => by decide) he₃ hlast.1
  exact h _ _ _ hh₃ (.put "k" "v") ⟨[], _, _, rfl, rfl, rfl, hne', ⟨_, List.mem_singleton_self _, rfl, rfl⟩, by simp⟩
    hne.symm 0 hlast.2

end Rivals

namespace Cluster

/-- However calls are lost, no superseded action comes back in a cluster of one or two replicas, and in no larger one
is that so. It is so in all clusters if announcements are not lost. -/
theorem supersedes_iff (size : UInt64) :
    ((∀ c : Cluster, c.Fresh → c.Wired → (∀ p ∈ c.proposers, p.config.shortfall = .strict) →
      c.replicas.length = size.toNat → c.Supersedes .faulty) ↔ size.toNat ≤ 2) ∧
    ∀ c : Cluster, c.Fresh → c.Wired → (∀ p ∈ c.proposers, p.config.shortfall = .strict) → c.Supersedes .heard := by
  refine ⟨⟨fun h => ?_, fun hlen c hc hw hs hsize => ?_⟩, fun c hc hw hs => ?_⟩
  · by_contra hlen
    obtain ⟨m, hm⟩ : ∃ m, size.toNat = [m, 1].sum := ⟨size.toNat - 1, by simp only [List.sum_cons, List.sum_nil]; omega⟩
    let r := Rivals.alone [m, 1].sum
    have hw : r.cluster.Wired := Rivals.wired_alone (hm ▸ size.toNat_lt)
    have hmaj : r.config.majority ≤ m := by
      have hsum : [m, 1].sum = m + 1 := rfl
      rw [r.majority hw]
      omega
    refine @Rivals.not_supersedes m 7 r hmaj rfl (h _ r.fresh hw ?_ (r.length.trans hm.symm))
    intro p hp
    obtain ⟨i, -, rfl⟩ := List.mem_map.1 hp
    rfl
  · exact supersedes_of_confined (.of_fresh hc hw hs) (.inl (hsize ▸ hlen))
  · exact supersedes_of_confined (.of_fresh hc hw hs) (.inr fun m f hf => hf)

/-- With a single round to a write the third write even fails in favour of the first. -/
theorem not_supersedes_three : ∃ c, startDirect { Config.steady 3 with maxRounds := 1 } 0 (fun _ => 0) = .ok c ∧
    c.Fresh ∧ c.Wired ∧ (∀ p ∈ c.proposers, p.config.shortfall = .strict) ∧ ¬ c.Supersedes .faulty := by
  obtain ⟨r, hr, hc⟩ := Rivals.exists_startDirect { Config.steady 3 with maxRounds := 1 } rfl rfl (by decide)
  refine ⟨_, hc, fresh_of_startDirect hc rfl, wired_of_startDirect hc, ?_, ?_⟩
  · intro p hp
    rw [config_of_startDirect hc hp]
    rfl
  · exact @Rivals.not_supersedes 2 0 r (by rw [hr]; decide) (by rw [hr]; rfl)

end Cluster

end SynodStore

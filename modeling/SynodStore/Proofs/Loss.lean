import SynodStore.Proofs.Agreement
import SynodStore.Proofs.Rivals

namespace SynodStore

namespace Cell

def unlearnt (promised : Option Ballot) (accepted : Option Vote) : Cell :=
  ⟨⟨promised, accepted⟩, none, none⟩

end Cell

namespace Rivals

section

variable {a b : Nat} (r : Rivals [a, b, b].sum) (hm : r.config.majority = a + b) (ha : 0 < a)

include hm ha

theorem reaches_decided : r.Reaches .lossy
    [.unlearnt (some (.pack 1 1)) (some ⟨.pack 1 1, .put "k" "w"⟩), .unlearnt (some (.pack 1 1)) none,
      .unlearnt (some (.pack 1 0)) (some ⟨.pack 1 1, .put "k" "w"⟩)] 1 1
    [(Mandate.first r.config [a, b, b].sum (.put "k" "v") none).facing
        ⟨.put "k" "v", .pack 1 0, false, .accept (.put "k" "v")⟩,
      (Mandate.second r.config [a, b, b].sum (.put "k" "w") none).returning (.ok ⟨.pack 1 1, .put "k" "w"⟩)] := by
  let t := Mandate.first r.config [a, b, b].sum (.put "k" "v") none
  let t' := Mandate.second r.config [a, b, b].sum (.put "k" "w") none
  have hne : List.range [a, b, b].sum ≠ [] := by simp; omega
  have hb : (1 : UInt64).toNat < Ballot.counterBound := by decide
  -- the first round is promised by all, and its accepts are under way
  have h₁ : r.Reaches .lossy [.fresh, .fresh, .fresh] 1 0 [t.facing (.first (.put "k" "v") (.pack 1 0))] :=
    (r.reaches_start .lossy).enter 0 rfl hne hb (.put "k" "v")
  have h₂ : r.Reaches .lossy
      [.unlearnt (some (.pack 1 0)) none, .unlearnt (some (.pack 1 0)) none, .unlearnt (some (.pack 1 0)) none] 1 0
      [t.facing ⟨.put "k" "v", .pack 1 0, false, .accept (.put "k" "v")⟩] := by
    refine (h₁.answer (n := 0) rfl rfl rfl rfl [.pass, .pass, .pass] rfl rfl).ask (n := 0) rfl
      (Round.ask_accept none rfl ?_ (chooseValue_groups_eq_none rfl))
    rw [length_filterMap_groups, show t.config.majority = a + b from hm]
    show a + b ≤ a + (b + (b + 0))
    omega
  -- the second one has the promises of two groups, and the votes of one of them and of the third
  have h₃ : r.Reaches .lossy
      [.unlearnt (some (.pack 1 0)) none, .unlearnt (some (.pack 1 0)) none, .unlearnt (some (.pack 1 0)) none] 1 1
      [t.facing ⟨.put "k" "v", .pack 1 0, false, .accept (.put "k" "v")⟩,
        t'.facing (.first (.put "k" "w") (.pack 1 1))] :=
    h₂.enter 1 rfl hne hb (.put "k" "w")
  have h₄ : r.Reaches .lossy
      [.unlearnt (some (.pack 1 1)) none, .unlearnt (some (.pack 1 1)) none, .unlearnt (some (.pack 1 0)) none] 1 1
      [t.facing ⟨.put "k" "v", .pack 1 0, false, .accept (.put "k" "v")⟩,
        t'.facing ⟨.put "k" "w", .pack 1 1, false, .accept (.put "k" "w")⟩] := by
    refine (h₃.answer (n := 1) rfl rfl rfl rfl [.pass, .pass, .fail] rfl rfl).ask (n := 1) rfl
      (Round.ask_accept none rfl ?_ (chooseValue_groups_eq_none rfl))
    rw [length_filterMap_groups, show t'.config.majority = a + b from hm]
    show a + b ≤ a + (b + (0 + 0))
    omega
  have h₅ : r.Reaches .lossy
      [.unlearnt (some (.pack 1 1)) (some ⟨.pack 1 1, .put "k" "w"⟩), .unlearnt (some (.pack 1 1)) none,
        .unlearnt (some (.pack 1 0)) (some ⟨.pack 1 1, .put "k" "w"⟩)] 1 1
      [t.facing ⟨.put "k" "v", .pack 1 0, false, .accept (.put "k" "v")⟩,
        t'.facing ⟨.put "k" "w", .pack 1 1, false, .learn (.put "k" "w") (.ok ⟨.pack 1 1, .put "k" "w"⟩)⟩] := by
    refine (h₄.answer (n := 1) rfl rfl rfl rfl [.pass, .fail, .pass] rfl rfl).ask (n := 1) rfl
      (Round.ask_learn rfl ?_)
    rw [length_filterMap_groups, show t'.config.majority = a + b from hm]
    show a + b ≤ a + (0 + (b + 0))
    omega
  exact (h₅.answer (n := 1) rfl rfl rfl rfl [.refuse, .refuse, .refuse] rfl rfl).finish (n := 1) rfl rfl rfl

/-- The other round then overwrites the votes that it gets, as no promise stands against its lower ballot there, and
its retry overrules the rest. -/
theorem reaches_overturned (hab : a ≤ b) : r.Reaches .lossy
    [.unlearnt (some (.pack 1 1)) (some ⟨.pack 2 0, .put "k" "v"⟩),
      .unlearnt (some (.pack 2 0)) (some ⟨.pack 2 0, .put "k" "v"⟩),
      .unlearnt (some (.pack 2 0)) (some ⟨.pack 2 0, .put "k" "v"⟩)] 2 1
    [(Mandate.first r.config [a, b, b].sum (.put "k" "v") none).returning (.ok ⟨.pack 2 0, .put "k" "v"⟩),
      (Mandate.second r.config [a, b, b].sum (.put "k" "w") none).returning (.ok ⟨.pack 1 1, .put "k" "w"⟩)] := by
  let t := Mandate.first r.config [a, b, b].sum (.put "k" "v") none
  let t' := Mandate.second r.config [a, b, b].sum (.put "k" "w") none
  have hb : (2 : UInt64).toNat < Ballot.counterBound := by decide
  -- the late accepts of the first round find no majority, but its lower ballot replaces the votes of a group
  have h₁ : r.Reaches .lossy
      [.unlearnt (some (.pack 1 1)) (some ⟨.pack 1 1, .put "k" "w"⟩), .unlearnt (some (.pack 1 1)) none,
        .unlearnt (some (.pack 1 0)) (some ⟨.pack 1 0, .put "k" "v"⟩)] 2 1
      [t.facing (.second (.put "k" "v") (.pack 2 0)), t'.returning (.ok ⟨.pack 1 1, .put "k" "w"⟩)] := by
    refine ((r.reaches_decided hm ha).answer (n := 0) rfl rfl rfl rfl [.pass, .pass, .pass] rfl rfl).retry (n := 0)
      rfl (Round.retry_accept rfl rfl ?_) rfl hb
    rw [length_filterMap_groups, show t.config.majority = a + b from hm]
    show 0 + (0 + (b + 0)) < a + b
    omega
  -- the prepares of the retry miss the only group that still has a vote for the decided value
  have h₂ : r.Reaches .lossy
      [.unlearnt (some (.pack 1 1)) (some ⟨.pack 1 1, .put "k" "w"⟩), .unlearnt (some (.pack 2 0)) none,
        .unlearnt (some (.pack 2 0)) (some ⟨.pack 1 0, .put "k" "v"⟩)] 2 1
      [t.facing ⟨.put "k" "v", .pack 2 0, true, .accept (.put "k" "v")⟩,
        t'.returning (.ok ⟨.pack 1 1, .put "k" "w"⟩)] := by
    refine (h₁.answer (n := 0) rfl rfl rfl rfl [.fail, .pass, .pass] rfl rfl).ask (n := 0) rfl
      (Round.ask_accept (some (.put "k" "v")) rfl ?_
        (chooseValue_groups (i := 2) rfl rfl (ha.trans_le hab) rfl rfl rfl))
    rw [length_filterMap_groups, show t.config.majority = a + b from hm]
    show a + b ≤ 0 + (b + (b + 0))
    omega
  have h₃ : r.Reaches .lossy
      [.unlearnt (some (.pack 1 1)) (some ⟨.pack 2 0, .put "k" "v"⟩),
        .unlearnt (some (.pack 2 0)) (some ⟨.pack 2 0, .put "k" "v"⟩),
        .unlearnt (some (.pack 2 0)) (some ⟨.pack 2 0, .put "k" "v"⟩)] 2 1
      [t.facing ⟨.put "k" "v", .pack 2 0, true, .learn (.put "k" "v") (.ok ⟨.pack 2 0, .put "k" "v"⟩)⟩,
        t'.returning (.ok ⟨.pack 1 1, .put "k" "w"⟩)] := by
    refine (h₂.answer (n := 0) rfl rfl rfl rfl [.pass, .pass, .pass] rfl rfl).ask (n := 0) rfl
      (Round.ask_learn rfl ?_)
    rw [length_filterMap_groups, show t.config.majority = a + b from hm]
    show a + b ≤ a + (b + (b + 0))
    omega
  exact (h₃.answer (n := 0) rfl rfl rfl rfl [.refuse, .refuse, .refuse] rfl rfl).finish (n := 0) rfl rfl rfl

end

end Rivals

namespace Synod

variable {c : Cluster} {w : Synod}

/-- Three majorities with a replica in common make up for lost calls: one that promised and voted in the one
round, and promises in the other. -/
theorem agrees_of_overlap (h : Run .lossy (start c) w) (hc : c.Fresh) (hw : c.Wired)
    (hlen : 2 * c.replicas.length < 3 * (c.replicas.length / 2 + 1)) : w.Agrees := by
  apply agrees_of_firm h Conditions.quiet_lossy hc hw
  intro n t d hs
  obtain ⟨p, hp, ht, -, hcalled, votes, hb, hmaj⟩ := decided h.changes Conditions.quiet_lossy hc hs
  obtain ⟨places, hn, hsub, hmaj', hfirm⟩ := exists_promises_before h.changes Conditions.quiet_lossy hc hw hcalled
  have hvn : (votes.map Prod.fst).Nodup := hb.sublist.nodup (ht.peers ▸ hw.nodup hp)
  have hvs : votes.map Prod.fst ⊆ c.places := fun x hx => hw.subset hp (ht.peers ▸ hb.sublist.subset hx)
  -- of the replicas that voted those are firm that had promised the ballot before
  refine ⟨(votes.map Prod.fst).filter (· ∈ places), hvn.filter _, ?_, ?_⟩
  · intro x hx
    obtain ⟨hx, hx'⟩ := List.mem_filter.1 hx
    obtain ⟨⟨x, v⟩, hv, rfl⟩ := List.mem_map.1 hx
    obtain ⟨held, hs⟩ := hb.served _ hv
    obtain ⟨rfl, -⟩ := vote_of_served h.changes hs
    exact hfirm _ _ _ (by simpa using hx') hs
  · have hlt := length_le_filter_mem hvn hn hvs hsub
    rw [ht.config, hw.majority hp] at hmaj
    simp only [List.length_map, Cluster.places, List.length_range] at hlt
    omega

theorem not_agrees_overturned {v w : Vote} {t t' : Mandate} {u : Synod}
    (hs : u.sessions = [t.returning (.ok v), t'.returning (.ok w)]) (hk : t.action.key = t'.action.key)
    (hne : v.action ≠ w.action) : ¬ u.Agrees := by
  intro ha
  exact hne (ha 0 1 t t' v w (by rw [hs]; rfl) (by rw [hs]; rfl) hk)

/-- Rounds agree whatever calls are lost in the clusters where any three majorities have a replica in common, and
in no others. -/
theorem agrees_iff_overlap (size : UInt64) :
    (∀ c w, c.Fresh → c.Wired → c.replicas.length = size.toNat → Run .lossy (start c) w → w.Agrees) ↔
      2 * size.toNat < 3 * (size.toNat / 2 + 1) := by
  refine ⟨?_, fun hlen c w hc hw hs h => agrees_of_overlap h hc hw (by rwa [hs])⟩
  intro h
  by_contra hlen
  obtain ⟨a, b, ha, hab, hsize, hm⟩ : ∃ a b, 0 < a ∧ a ≤ b ∧ size.toNat = a + b + b ∧ size.toNat / 2 + 1 = a + b :=
    ⟨2 * (size.toNat / 2 + 1) - size.toNat, size.toNat - (size.toNat / 2 + 1), by omega, by omega, by omega,
      by omega⟩
  have hn : [a, b, b].sum = size.toNat := by
    simp only [hsize, List.sum_cons, List.sum_nil, Nat.add_zero, Nat.add_assoc]
  let r := Rivals.alone [a, b, b].sum
  have hw : r.cluster.Wired := Rivals.wired_alone (hn ▸ size.toNat_lt)
  have hlength : r.cluster.replicas.length = size.toNat := r.length.trans hn
  have hmaj : r.config.majority = a + b := by rw [r.majority hw, hn, hm]
  obtain ⟨w, hrun, -, -, hs⟩ := r.reaches_overturned hmaj ha hab
  exact not_agrees_overturned hs rfl (by decide) (h _ w r.fresh hw hlength hrun)

theorem not_agrees_three : ∃ c w, Cluster.startDirect (.steady 3) 0 (fun _ => 0) = .ok c ∧ c.Fresh ∧ c.Wired ∧
    Run .lossy (start c) w ∧ ¬ w.Agrees := by
  obtain ⟨r, hr, hc⟩ := Rivals.exists_startDirect (.steady 3) rfl rfl (by decide)
  have hmaj : r.config.majority = 1 + 1 := by rw [hr]; rfl
  obtain ⟨w, hrun, -, -, hsessions⟩ := @Rivals.reaches_overturned 1 1 r hmaj (by decide) (by decide)
  exact ⟨_, w, hc, Cluster.fresh_of_startDirect hc rfl, Cluster.wired_of_startDirect hc, hrun,
    not_agrees_overturned hsessions rfl (by decide)⟩

end Synod

end SynodStore

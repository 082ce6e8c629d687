import SynodStore.Proofs.Convergence
import SynodStore.Proofs.Rivals

namespace SynodStore

theorem Mandate.remaining?_of_eq {t : Mandate} {decision : Vote} (h : decision.action = t.action) :
    t.remaining? (.ok decision) = none := by
  simp only [remaining?, h, if_true]
  split <;> rfl

namespace Rivals

def announcing (config : Config) (m rest : Nat) : Session :=
  ⟨.first config [m, 1].sum (.put "k" "v") (some rest),
    .running ⟨.put "k" "v", .pack 1 0, false, .learn (.put "k" "v") (.ok ⟨.pack 1 0, .put "k" "v"⟩)⟩
      ((groups [m] [.ok .learned]).map some ++ List.replicate [1].sum none)⟩

section

variable {m rest : Nat} (r : Rivals [m, 1].sum) (hm : r.config.majority ≤ [m, 1].sum)
  (hr : r.config.maxRounds.toNat = rest + 1)

include hm hr

theorem reaches_announcing : r.Reaches .calm
    [⟨.fresh, some (.pack 1 0), some "v"⟩, ⟨⟨some (.pack 1 0), some ⟨.pack 1 0, .put "k" "v"⟩⟩, none, none⟩] 1 0
    [announcing r.config m rest] := by
  let t := Mandate.first r.config [m, 1].sum (.put "k" "v") (some rest)
  have hne : List.range [m, 1].sum ≠ [] := by simp
  have hb : (1 : UInt64).toNat < Ballot.counterBound := by decide
  have h₁ : r.Reaches .calm [.fresh, .fresh] 1 0 [t.facing (.first (.put "k" "v") (.pack 1 0))] :=
    (r.reaches_start .calm).propose 0 rfl hne hb (.put "k" "v") hr
  have h₂ := h₁.vote (n := 0) none rfl rfl rfl rfl rfl hm rfl (chooseValue_groups_eq_none rfl)
  exact @Synod.Reaches.hear_front _ _ 0 t _ _ _ _ [m] [1] [_] [_] h₂ rfl rfl rfl rfl rfl [.pass] rfl rfl

theorem reaches_repeated : r.Reaches .calm
    [⟨.fresh, some (.pack 1 1), some "v"⟩, ⟨.fresh, some (.pack 1 1), some "v"⟩] 1 1
    [announcing r.config m rest,
      (Mandate.second r.config [m, 1].sum (.put "k" "v") (some rest)).returning (.ok ⟨.pack 1 1, .put "k" "v"⟩)] := by
  let t := Mandate.second r.config [m, 1].sum (.put "k" "v") (some rest)
  have hne : List.range [m, 1].sum ≠ [] := by simp
  have hb : (1 : UInt64).toNat < Ballot.counterBound := by decide
  have h₁ : r.Reaches .calm
      [⟨.fresh, some (.pack 1 0), some "v"⟩, ⟨⟨some (.pack 1 0), some ⟨.pack 1 0, .put "k" "v"⟩⟩, none, none⟩] 1 1
      [announcing r.config m rest, t.facing (.first (.put "k" "v") (.pack 1 1))] :=
    (r.reaches_announcing hm hr).propose 1 rfl hne hb (.put "k" "v") hr
  have h₂ := h₁.vote (n := 1) (some (.put "k" "v")) rfl rfl rfl rfl rfl hm rfl
    (chooseValue_groups (i := 1) rfl rfl one_pos rfl rfl rfl)
  exact (h₂.pass (n := 1) rfl rfl rfl rfl).finish (n := 1) rfl rfl (Mandate.remaining?_of_eq rfl)

theorem reaches_superseded : r.Reaches .calm
    [⟨.fresh, some (.pack 2 1), some "w"⟩, ⟨.fresh, some (.pack 2 1), some "w"⟩] 1 2
    [announcing r.config m rest,
      (Mandate.second r.config [m, 1].sum (.put "k" "v") (some rest)).returning (.ok ⟨.pack 1 1, .put "k" "v"⟩),
      (Mandate.second r.config [m, 1].sum (.put "k" "w") (some rest)).returning (.ok ⟨.pack 2 1, .put "k" "w"⟩)] := by
  let t := Mandate.second r.config [m, 1].sum (.put "k" "w") (some rest)
  have hne : List.range [m, 1].sum ≠ [] := by simp
  have hb : (2 : UInt64).toNat < Ballot.counterBound := by decide
  have h₁ : r.Reaches .calm
      [⟨.fresh, some (.pack 1 1), some "v"⟩, ⟨.fresh, some (.pack 1 1), some "v"⟩] 1 2
      [announcing r.config m rest,
        (Mandate.second r.config [m, 1].sum (.put "k" "v") (some rest)).returning (.ok ⟨.pack 1 1, .put "k" "v"⟩),
        t.facing (.first (.put "k" "w") (.pack 2 1))] :=
    (r.reaches_repeated hm hr).propose 1 rfl hne hb (.put "k" "w") hr
  have h₂ := h₁.vote (n := 2) none rfl rfl rfl rfl rfl hm rfl (chooseValue_groups_eq_none rfl)
  exact (h₂.pass (n := 2) rfl rfl rfl rfl).finish (n := 2) rfl rfl (Mandate.remaining?_of_eq rfl)

theorem reaches_diverged : r.Reaches .calm
    [⟨.fresh, some (.pack 2 1), some "w"⟩, ⟨.fresh, some (.pack 1 0), some "v"⟩] 1 2
    [(Mandate.first r.config [m, 1].sum (.put "k" "v") (some rest)).returning (.ok ⟨.pack 1 0, .put "k" "v"⟩),
      (Mandate.second r.config [m, 1].sum (.put "k" "v") (some rest)).returning (.ok ⟨.pack 1 1, .put "k" "v"⟩),
      (Mandate.second r.config [m, 1].sum (.put "k" "w") (some rest)).returning (.ok ⟨.pack 2 1, .put "k" "w"⟩)] := by
  have h := @Synod.Reaches.hear_rest _ _ 0 _ _ _ _ _ [m] [1] [_] [_] [_] (r.reaches_superseded hm hr) rfl rfl rfl rfl
    rfl rfl [.pass] rfl rfl
  exact h.finish (n := 0) rfl rfl (Mandate.remaining?_of_eq rfl)

end

end Rivals

namespace Synod

variable {c : Cluster} {w : Synod} {k : String} {cells : List Cell}

def Writing (w : Synod) : Prop :=
  ∀ s ∈ w.sessions, s.mandate.rest.isSome

theorem not_converged_of_lineup (h : w.cluster.Lineup k cells) {x y : Cell} (hx : x ∈ cells) (hy : y ∈ cells)
    (hne : x.value ≠ y.value) : ¬ w.Converged := by
  intro hw
  obtain ⟨r, hr, hrx⟩ := exists_mem_of_forall₂ h hx
  obtain ⟨r', hr', hry⟩ := exists_mem_of_forall₂ h hy
  refine hne ?_
  rw [← hrx.value, ← hry.value, Replica.get?, Replica.get?, hw r hr r' hr']

/-- Two replicas or more can be left with different values by three writes of two proposers. -/
theorem exists_diverged {config : Config} (hv : config.validate = .ok ()) (hc : config.crash = none)
    (hn : 1 < config.clusterSize.toNat) : ∃ c w, Cluster.startDirect config 0 (fun _ => 0) = .ok c ∧
      Run .calm (start c) w ∧ w.Quiescent ∧ w.Writing ∧ ¬ w.Converged := by
  have hex := Rivals.exists_startDirect config hv hc hn
  obtain ⟨m, hm⟩ : ∃ m, config.clusterSize.toNat = [m, 1].sum :=
    ⟨config.clusterSize.toNat - 1, by simp only [List.sum_cons, List.sum_nil]; omega⟩
  obtain ⟨rest, hrest⟩ : ∃ rest, config.maxRounds.toNat = rest + 1 :=
    Nat.exists_eq_succ_of_ne_zero (Config.bounds_of_validate hv).2.2.ne'
  have hmaj : config.majority ≤ [m, 1].sum := by
    rw [Config.majority, ← hm]
    omega
  rw [hm] at hex hn
  obtain ⟨r, rfl, hr⟩ := hex
  obtain ⟨w, hrun, hlineup, -, hs⟩ := r.reaches_diverged hmaj hrest
  refine ⟨_, w, hr, hrun, ?_, ?_, not_converged_of_lineup hlineup (mem_groups (i := 0) rfl rfl ?_)
    (mem_groups (i := 1) rfl rfl one_pos) (by decide)⟩
  · rw [Quiescent, hs]
    simp [Mandate.returning, Session.finished]
  · rw [Writing, hs]
    simp [Mandate.returning, Mandate.first, Mandate.second]
  · have hm' : [m, 1].sum = m + 1 := rfl
    omega

/-- Where no call is lost every replica hears every announcement once, and the maps come to be the same just when
the last announcements for each key leave the same everywhere. Only one replica is sure of that. -/
theorem converges_iff (config : Config) (hv : config.validate = .ok ()) (hc : config.crash = none) :
    (∀ entropy clock c w, Cluster.startDirect config entropy clock = .ok c → Run .calm (start c) w → w.Quiescent →
      (∀ x ∈ c.places, (heardAt w.minutes x).Perm (announcements w.minutes)) ∧
      (w.Converged ↔ ∀ k, ∀ x ∈ c.places, ∀ y ∈ c.places,
        lastValue? (heardAt w.minutes x) k = lastValue? (heardAt w.minutes y) k)) ∧
    ((∀ entropy clock c w, Cluster.startDirect config entropy clock = .ok c → Run .calm (start c) w →
      w.Quiescent → w.Writing → w.Converged) ↔ config.clusterSize.toNat = 1) := by
  refine ⟨?_, ?_, ?_⟩
  · intro entropy clock c w hstart h hq
    exact converged_iff (Cluster.fresh_of_startDirect hstart hc) (Cluster.wired_of_startDirect hstart) h hq
  · intro h
    by_contra hn
    have hpos := (Config.bounds_of_validate hv).1
    obtain ⟨c, w, hstart, hrun, hq, hwrite, hnot⟩ := exists_diverged hv hc (by omega)
    exact hnot (h 0 (fun _ => 0) c w hstart hrun hq hwrite)
  · intro hn entropy clock c w hstart hrun _ _ r hr r' hr'
    have hlen : w.cluster.replicas.length = 1 := by
      rw [length_replicas_of_changes hrun.changes]
      exact (Cluster.length_of_startDirect hstart).trans hn
    obtain ⟨r₀, hr₀⟩ := List.length_eq_one_iff.1 hlen
    rw [hr₀, List.mem_singleton] at hr hr'
    rw [hr, hr']

theorem converges_iff_three : (Config.steady 3).validate = .ok () ∧ (Config.steady 3).crash = none ∧
    ¬ ∀ entropy clock c w, Cluster.startDirect (.steady 3) entropy clock = .ok c → Run .calm (start c) w →
      w.Quiescent → w.Writing → w.Converged :=
  ⟨rfl, rfl, fun h => absurd ((converges_iff (.steady 3) rfl rfl).2.1 h) (by decide)⟩

theorem not_converges_three : ∃ c w, Cluster.startDirect (.steady 3) 0 (fun _ => 0) = .ok c ∧
    Run .calm (start c) w ∧ w.Quiescent ∧ w.Writing ∧ ¬ w.Converged :=
  exists_diverged rfl rfl (by decide)

end Synod

end SynodStore

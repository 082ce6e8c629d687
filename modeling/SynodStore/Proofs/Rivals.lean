import SynodStore.Proofs.Groups
import SynodStore.Proofs.Start

namespace SynodStore

namespace Proposer

def rival (config : Config) (n : Nat) (id : UInt32) (h : id.toNat < maxReplicas) (counter : UInt64) : Proposer :=
  ⟨id, config, ⟨id, counter, h⟩, List.range n, .direct⟩

theorem zero_lt : (0 : UInt32).toNat < maxReplicas := by decide

theorem one_lt : (1 : UInt32).toNat < maxReplicas := by decide

def first (config : Config) (n : Nat) (counter : UInt64) : Proposer :=
  .rival config n 0 zero_lt counter

def second (config : Config) (n : Nat) (counter : UInt64) : Proposer :=
  .rival config n 1 one_lt counter

theorem Started.eq_rival {config : Config} {n i : Nat} {p : Proposer} (h : p.Started config 0 i)
    (hp : p.peers = List.range n) (hl : p.link = .direct) (hi : (UInt32.ofNat i).toNat < maxReplicas) :
    p = .rival config n (UInt32.ofNat i) hi 0 := by
  obtain ⟨id, config', ⟨id', counter, hlt⟩, peers, link⟩ := p
  obtain ⟨hid, hconfig, hissuer, hcounter⟩ := h
  cases hissuer
  cases hid
  cases hconfig
  cases hcounter
  cases hp
  cases hl
  rfl

end Proposer

namespace Mandate

def first (config : Config) (n : Nat) (action : Action) (rest : Option Nat) : Mandate :=
  ⟨0, config, 0, List.range n, action, rest⟩

def second (config : Config) (n : Nat) (action : Action) (rest : Option Nat) : Mandate :=
  ⟨1, config, 1, List.range n, action, rest⟩

end Mandate

structure Rivals (n : Nat) where
  cluster : Cluster
  config : Config
  others : List Proposer
  fresh : cluster.Fresh
  length : cluster.replicas.length = n
  proposers : cluster.proposers = .first config n 0 :: .second config n 0 :: others
  bounded : (Synod.start cluster).bounded

theorem groups_map_const {α : Type} (sizes : List Nat) (x : α) :
    groups sizes (sizes.map fun _ => x) = List.replicate sizes.sum x := by
  induction sizes with
  | nil => rfl
  | cons size sizes ih => rw [List.map_cons, groups_cons, ih, List.replicate_append_replicate, List.sum_cons]

namespace Rivals

/-- What the two proposers can come to as far as one key is concerned. -/
abbrev Reaches {sizes : List Nat} (r : Rivals sizes.sum) (κ : Conditions) (cells : List Cell)
    (counter counter' : UInt64) (sessions : List Session) : Prop :=
  Synod.Reaches κ (Synod.start r.cluster) "k" (groups sizes cells)
    (.first r.config sizes.sum counter :: .second r.config sizes.sum counter' :: r.others) sessions

theorem reaches_start {sizes : List Nat} (r : Rivals sizes.sum) (κ : Conditions) :
    r.Reaches κ (sizes.map fun _ => .fresh) 0 0 [] := by
  have h := Synod.reaches_start (κ := κ) (k := "k") r.fresh r.bounded
  rwa [r.length, ← groups_map_const, r.proposers] at h

theorem majority {n : Nat} (r : Rivals n) (hw : r.cluster.Wired) : r.config.majority = n / 2 + 1 := by
  have hp : .first r.config n 0 ∈ r.cluster.proposers := r.proposers ▸ List.mem_cons_self
  have hm := hw.majority hp
  rwa [r.length] at hm

def alone (n : Nat) : Rivals n where
  cluster := .plain n [⟨0, 0, Proposer.zero_lt⟩, ⟨1, 0, Proposer.one_lt⟩]
  config := .steady n
  others := []
  fresh := Cluster.fresh_plain n _
  length := Cluster.length_plain
  proposers := rfl
  bounded := rfl

theorem wired_alone {n : Nat} (hn : n < 2 ^ 64) : (alone n).cluster.Wired :=
  Cluster.wired_plain hn (by decide)

theorem exists_startDirect (config : Config) (hv : config.validate = .ok ()) (hc : config.crash = none)
    (hn : 1 < config.clusterSize.toNat) : ∃ r : Rivals config.clusterSize.toNat,
      r.config = config ∧ Cluster.startDirect config 0 (fun _ => 0) = .ok r.cluster := by
  obtain ⟨⟨replicas, proposers⟩, hstart, hs, hwired⟩ := Cluster.exists_startDirect hv 0 fun _ => 0
  have hlen := hs.length_replicas
  have hrange : List.range config.clusterSize.toNat = 0 :: 1 :: List.range' 2 (config.clusterSize.toNat - 2) := by
    obtain ⟨m, hm⟩ : ∃ m, config.clusterSize.toNat = m + 1 + 1 := ⟨config.clusterSize.toNat - 2, by omega⟩
    rw [List.range_eq_range', hm]
    rfl
  have hproposers := hs.proposers
  rw [hrange, List.forall₂_cons_left_iff] at hproposers
  obtain ⟨p, rest, hp, hrest, he⟩ := hproposers
  rw [List.forall₂_cons_left_iff] at hrest
  obtain ⟨q, others, hq, -, rfl⟩ := hrest
  obtain rfl : proposers = p :: q :: others := he
  have heq {i : Nat} {p' : Proposer} (h : p'.Started config 0 i) (hmem : p' ∈ p :: q :: others)
      (hi : (UInt32.ofNat i).toNat < maxReplicas) :
      p' = .rival config config.clusterSize.toNat (UInt32.ofNat i) hi 0 := by
    obtain ⟨hpeers, hlink⟩ := hwired p' hmem
    rw [Cluster.places, hlen] at hpeers
    exact h.eq_rival hpeers hlink hi
  have hfirst : p = .first config config.clusterSize.toNat 0 := heq hp (by simp) (by decide)
  have hsecond : q = .second config config.clusterSize.toNat 0 := heq hq (by simp) (by decide)
  refine ⟨⟨_, config, others, hs.fresh hc, hlen, by rw [← hfirst, ← hsecond], ?_⟩, rfl, hstart⟩
  apply Synod.bounded_iff.2
  intro j hj
  obtain ⟨i, -, hj⟩ := hs.exists_of_mem hj
  rw [hj.counter]
  decide

end Rivals

end SynodStore

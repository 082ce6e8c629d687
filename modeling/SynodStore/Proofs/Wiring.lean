import SynodStore.Proofs.Synod

namespace SynodStore

/-- No replica has been called yet, and their acceptors do not crash. -/
def Cluster.Fresh (c : Cluster) : Prop :=
  ∀ r ∈ c.replicas, ∃ id stream, r = Replica.start id none stream

/-- Every proposer is wired to all replicas, each of them once, and no two share an id. -/
structure Cluster.Wired (c : Cluster) : Prop where
  size : ∀ p ∈ c.proposers, p.config.clusterSize.toNat = c.replicas.length
  peers : ∀ p ∈ c.proposers, p.peers.Perm c.places
  issuer : ∀ p ∈ c.proposers, p.issuer.id = p.id
  ids : (c.proposers.map (·.id)).Nodup

namespace Cluster.Wired

variable {c : Cluster} {p : Proposer}

theorem majority (h : c.Wired) (hp : p ∈ c.proposers) : p.config.majority = c.replicas.length / 2 + 1 := by
  rw [Config.majority, h.size p hp]

theorem nodup (h : c.Wired) (hp : p ∈ c.proposers) : p.peers.Nodup :=
  (h.peers p hp).nodup_iff.2 List.nodup_range

theorem subset (h : c.Wired) (hp : p ∈ c.proposers) : p.peers ⊆ c.places :=
  (h.peers p hp).subset

theorem issuers (h : c.Wired) : (c.proposers.map (·.issuer.id)).Nodup := by
  have he : c.proposers.map (·.issuer.id) = c.proposers.map (·.id) := List.map_congr_left h.issuer
  exact he ▸ h.ids

end Cluster.Wired

namespace Config

def steady (n : Nat) : Config :=
  { standard with clusterSize := UInt64.ofNat n, crash := none }

end Config

namespace Cluster

def plain (n : Nat) (issuers : List Issuer) : Cluster where
  replicas := (List.range n).map fun i => .start (UInt32.ofNat i) none (.ofSeed 0)
  proposers := issuers.map fun i => ⟨i.id, .steady n, i, List.range n, .direct⟩

variable {n : Nat} {issuers : List Issuer}

theorem fresh_plain (n : Nat) (issuers : List Issuer) : (plain n issuers).Fresh := by
  intro r hr
  obtain ⟨i, -, rfl⟩ := List.mem_map.1 hr
  exact ⟨_, _, rfl⟩

theorem length_plain : (plain n issuers).replicas.length = n := by
  simp [plain]

theorem wired_plain (hn : n < 2 ^ 64) (hi : (issuers.map (·.id)).Nodup) : (plain n issuers).Wired where
  size p hp := by
    obtain ⟨i, -, rfl⟩ := List.mem_map.1 hp
    rw [length_plain]
    exact UInt64.toNat_ofNat_of_lt' hn
  peers p hp := by
    obtain ⟨i, -, rfl⟩ := List.mem_map.1 hp
    rw [places, length_plain]
  issuer p hp := by
    obtain ⟨i, -, rfl⟩ := List.mem_map.1 hp
    rfl
  ids := by simpa [plain, Function.comp_def] using hi

end Cluster

end SynodStore

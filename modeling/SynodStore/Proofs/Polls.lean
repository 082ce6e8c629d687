import SynodStore.Proofs.Phases

namespace SynodStore

open Scenario (Fate)

def Replica.meet (q : Request) (f : Fate) (r : Replica) : Answer × Replica :=
  if f.carried then (f.answer q (r.answer q).1, (r.answer q).2) else (f.answer q q.refusal, r)

namespace Cluster

/-- A request to all of a list of replicas in turn. -/
def poll (q : Request) (fate : Nat → Fate) (peers : List Nat) (c : Cluster) : List Answer × Cluster :=
  calls q (peers.map fun x => (x, fate x)) c

variable {c : Cluster} {q : Request} {fate : Nat → Fate} {peers : List Nat} {place x : Nat} {p : Proposer}

theorem round_of_some (hp : c.proposers[place]? = some p) (action : Action) :
    Cluster.round place action c = (surroundings place).round p.config p.id action c := by
  have h : Cluster.round place action c = c.roundIn (surroundings place) place action c := rfl
  rw [h, roundIn, hp]

theorem propose_of_none (hp : c.proposers[place]? = none) (action : Action) :
    Cluster.propose place action c = (.error .unwired, c) := by
  have h : Cluster.propose place action c = c.proposeIn (surroundings place) place action c := rfl
  rw [h, proposeIn, hp]
  rfl

theorem propose_of_some (hp : c.proposers[place]? = some p) (action : Action) :
    Cluster.propose place action c =
      (surroundings place).attempts p.config p.id action p.config.maxRounds.toNat c := by
  have h : Cluster.propose place action c = c.proposeIn (surroundings place) place action c := rfl
  rw [h, proposeIn, hp]
  rfl

theorem peers_of_some (hp : c.proposers[place]? = some p) : c.peers place = p.peers := by
  rw [Cluster.peers, hp]
  rfl

theorem peers_surroundings (hp : c.proposers[place]? = some p) :
    (surroundings place).peers c = (p.peers, c) :=
  congrArg (·, c) (peers_of_some hp)

theorem replicas_issue (place : Nat) (c : Cluster) : (issue place c).2.replicas = c.replicas := by
  cases hp : c.proposers[place]? <;> simp [issue, hp]

theorem peers_issue (place : Nat) (c : Cluster) : (issue place c).2.peers place = c.peers place := by
  cases hp : c.proposers[place]? with
  | none => simp [issue, hp]
  | some p =>
      have hlt := (List.getElem?_eq_some_iff.1 hp).1
      simp [issue, peers, hlt]

theorem proposers_poll (q : Request) (fate : Nat → Fate) (peers : List Nat) :
    (c.poll q fate peers).2.proposers = c.proposers :=
  proposers_calls q _

theorem length_poll (q : Request) (fate : Nat → Fate) (peers : List Nat) :
    (c.poll q fate peers).2.replicas.length = c.replicas.length :=
  length_calls q _

theorem meet_of_some {r : Replica} (f : Fate) (h : c.replicas[place]? = some r) :
    meet q place f c = ((r.meet q f).1, { c with replicas := c.replicas.set place (r.meet q f).2 }) := by
  simp only [meet, Replica.meet, call_of_some h]
  split
  · rfl
  · rw [← (List.getElem?_eq_some_iff.1 h).2, List.set_getElem_self]

theorem meet_of_none (f : Fate) (h : c.replicas[place]? = none) :
    meet q place f c = (f.answer q q.refusal, c) := by
  simp only [meet, call_of_none h, ite_self]

theorem getElem?_meet (f : Fate) :
    (meet q place f c).2.replicas[x]? = c.replicas[x]?.map fun r => if place = x then (r.meet q f).2 else r := by
  cases hp : c.replicas[place]? with
  | none =>
      rw [meet_of_none f hp]
      by_cases hx : place = x
      · subst x
        rw [hp]
        rfl
      · simp only [hx, if_false, Option.map_id']
  | some r =>
      rw [meet_of_some f hp]
      by_cases hx : place = x
      · subst x
        rw [List.getElem?_set_self (List.getElem?_eq_some_iff.1 hp).1, hp, Option.map_some, if_pos rfl]
      · simp only [List.getElem?_set_ne hx, hx, if_false, Option.map_id']

theorem broadcast_eq_poll (place : Nat) (peers : List Nat) (q : Request) :
    (surroundings place).broadcast peers q c = c.poll q (fun _ => .pass) peers := by
  simp only [surroundings]
  induction peers generalizing c with
  | nil => rfl
  | cons peer peers ih =>
      have hmeet : meet q peer .pass c = (.ok (call peer q c).1, (call peer q c).2) := rfl
      rw [List.mapM_cons]
      simp only [poll, List.map_cons, calls, hmeet]
      rw [← poll, ← ih]
      rfl

theorem getElem?_poll (h : peers.Nodup) (x : Nat) :
    (c.poll q fate peers).2.replicas[x]? =
      c.replicas[x]?.map fun r => if x ∈ peers then (r.meet q (fate x)).2 else r := by
  induction peers generalizing c with
  | nil => simp [poll, calls]
  | cons peer peers ih =>
      obtain ⟨hpeer, hn⟩ := List.nodup_cons.1 h
      have hc : (c.poll q fate (peer :: peers)).2 = ((meet q peer (fate peer) c).2.poll q fate peers).2 := rfl
      rw [hc, ih hn, getElem?_meet, Option.map_map]
      congr 1
      funext r
      by_cases hx : peer = x
      · subst x
        simp [hpeer]
      · simp [hx, Ne.symm hx]

theorem answers_poll (h : peers.Nodup) :
    (c.poll q fate peers).1 =
      peers.map fun x => c.replicas[x]?.elim ((fate x).answer q q.refusal) fun r => (r.meet q (fate x)).1 := by
  induction peers generalizing c with
  | nil => rfl
  | cons peer peers ih =>
      obtain ⟨hpeer, hn⟩ := List.nodup_cons.1 h
      have hc : (c.poll q fate (peer :: peers)).1 =
          (meet q peer (fate peer) c).1 :: ((meet q peer (fate peer) c).2.poll q fate peers).1 := rfl
      rw [hc, ih hn, List.map_cons]
      congr 1
      · cases hp : c.replicas[peer]? with
        | none => rw [meet_of_none _ hp]; rfl
        | some r => rw [meet_of_some _ hp]; rfl
      · refine List.map_congr_left fun x hx => ?_
        have hne : peer ≠ x := fun he => hpeer (he ▸ hx)
        rw [getElem?_meet]
        simp only [hne, if_false, Option.map_id']

/-- In which order the replicas are polled makes no difference to any of them. -/
theorem poll_perm {order : List Nat} (h : peers.Nodup) (ho : order.Perm peers) :
    (c.poll q fate order).2 = (c.poll q fate peers).2 := by
  have hreplicas : (c.poll q fate order).2.replicas = (c.poll q fate peers).2.replicas := by
    refine List.ext_getElem? fun x => ?_
    rw [getElem?_poll (ho.nodup_iff.2 h), getElem?_poll h]
    simp only [ho.mem_iff]
  have hproposers : (c.poll q fate order).2.proposers = (c.poll q fate peers).2.proposers := by
    rw [proposers_poll, proposers_poll]
  generalize (c.poll q fate order).2 = d at hreplicas hproposers ⊢
  generalize (c.poll q fate peers).2 = d' at hreplicas hproposers ⊢
  cases d
  cases hreplicas
  cases hproposers
  rfl

theorem replicas_poll (h : peers.Perm c.places) :
    (c.poll q fate peers).2.replicas = c.replicas.mapIdx fun x r => (r.meet q (fate x)).2 := by
  refine List.ext_getElem? fun x => ?_
  rw [getElem?_poll (h.nodup_iff.2 List.nodup_range), List.getElem?_mapIdx]
  cases hx : c.replicas[x]? with
  | none => rfl
  | some r =>
      have hmem : x ∈ peers := h.mem_iff.2 (List.mem_range.2 (List.getElem?_eq_some_iff.1 hx).1)
      simp only [hmem, if_true]

theorem exists_of_mem_poll (h : peers.Perm c.places) {r : Replica} (hr : r ∈ (c.poll q fate peers).2.replicas) :
    ∃ x, ∃ r₀ ∈ c.replicas, r = (r₀.meet q (fate x)).2 := by
  rw [replicas_poll h, List.mem_mapIdx] at hr
  obtain ⟨x, hx, rfl⟩ := hr
  exact ⟨x, _, List.getElem_mem hx, rfl⟩

theorem answers_poll_perm (h : peers.Perm c.places) :
    (c.poll q fate peers).1.Perm (c.replicas.mapIdx fun x r => (r.meet q (fate x)).1) := by
  rw [answers_poll (h.nodup_iff.2 List.nodup_range)]
  refine (h.map _).trans (.of_eq ?_)
  refine List.ext_getElem (by simp [places]) fun x hx hx' => ?_
  have hlt : x < c.replicas.length := by simpa using hx'
  simp [places, hlt]

theorem exists_of_mem_answers_poll (h : peers.Perm c.places) {a : Answer} (ha : a ∈ (c.poll q fate peers).1) :
    ∃ x, ∃ r₀ ∈ c.replicas, a = (r₀.meet q (fate x)).1 := by
  rw [(answers_poll_perm h).mem_iff, List.mem_mapIdx] at ha
  obtain ⟨x, hx, rfl⟩ := ha
  exact ⟨x, _, List.getElem_mem hx, rfl⟩

end Cluster

end SynodStore

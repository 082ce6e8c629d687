import SynodStore.Proofs.Writing

namespace SynodStore

namespace Surroundings

variable {σ : Type} {e : Surroundings (StateM σ)} {c : Config} {sender : UInt32} {peers : List Nat}
variable {I : Round → σ → Prop} {O : Except Failure Vote → σ → Prop} {s : σ} {action : Action}

def Ventures (e : Surroundings (StateM σ)) (O : Except Failure Vote → σ → Prop) (P : Ballot → σ → Prop) (s : σ) :
    Prop :=
  (∀ b, (e.issue s).1 = .ok b → P b (e.issue s).2) ∧
    ∀ fault, (e.issue s).1 = .error fault → O (.error (.fault fault)) (e.issue s).2

/-- What holds before each phase of a round holds before the next one, whatever the answers lead to, and the outcome is
right. -/
def Advances (e : Surroundings (StateM σ)) (I : Round → σ → Prop) (O : Except Failure Vote → σ → Prop) (action : Action)
    (s : σ) : Progress → Prop
  | .ask next => I next s
  | .retry => e.Ventures O (fun b => I (.second action b)) s
  | .finished outcome => O outcome s

theorem carry_of_advances
    (h : ∀ r s, I r s → e.Advances I O r.action (e.broadcast peers (r.request sender) s).2
      (r.conclude c (e.broadcast peers (r.request sender) s).1)) {r : Round} (hr : I r s) :
    O (e.carry c sender peers r s).1 (e.carry c sender peers r s).2 := by
  induction hk : r.left using Nat.strongRecOn generalizing r s with
  | ind k ih =>
      subst hk
      have hstep := h r s hr
      rw [carry_eq]
      dsimp only
      cases hn : r.conclude c (e.broadcast peers (r.request sender) s).1 with
      | ask next =>
          rw [hn] at hstep
          exact ih _ (Round.left_conclude hn) hstep rfl
      | finished outcome =>
          rw [hn] at hstep
          exact hstep
      | retry =>
          rw [hn] at hstep
          obtain ⟨hissued, hfault⟩ := hstep
          dsimp only
          generalize e.issue (e.broadcast peers (r.request sender) s).2 = i at hissued hfault ⊢
          obtain ⟨fault | b, s'⟩ := i
          · exact hfault fault rfl
          · exact ih _ (Round.left_second _ _ (Round.retried_of_conclude hn)) (hissued b rfl) rfl

theorem round_of_advances (hp : e.peers s = (peers, s))
    (h : ∀ r s, I r s → e.Advances I O r.action (e.broadcast peers (r.request sender) s).2
      (r.conclude c (e.broadcast peers (r.request sender) s).1))
    (hu : O (.error .unwired) s) (hv : e.Ventures O (fun b => I (.first action b)) s) :
    O (e.round c sender action s).1 (e.round c sender action s).2 := by
  rw [round_eq, hp]
  dsimp only
  split
  · exact hu
  · obtain ⟨hissued, hfault⟩ := hv
    generalize e.issue s = i at hissued hfault ⊢
    obtain ⟨fault | b, s'⟩ := i
    · exact hfault fault rfl
    · exact carry_of_advances h (hissued b rfl)

end Surroundings

namespace Replica

/-- What a sequence of operations can make of a replica that starts empty. -/
inductive Reachable : Replica → Prop
  | start (id : UInt32) (plan : Option CrashPlan) (stream : KeyStream) : Reachable (.start id plan stream)
  | perform {r : Replica} (h : Reachable r) (o : Operation) : Reachable (perform o r).2

theorem Reachable.votesIn {r : Replica} (h : r.Reachable) : r.VotesIn (Allowed fun _ _ => True) := by
  induction h with
  | start id plan stream => exact votesIn_start id plan stream
  | perform _ o ih => exact ih.perform fun m _ => ⟨rfl, trivial⟩

def vote? (k : String) (r : Replica) : Option Vote := do
  (← (← r.supervisor.current?).slot? k).accepted

variable {r : Replica} {k : String}

theorem vote?_of_current {a : Acceptor} (h : r.supervisor.current? = some a) : r.vote? k = (a.slot k).accepted := by
  simp only [vote?, h, Option.bind_eq_bind, Option.bind_some, Acceptor.slot]
  cases a.slot? k <;> rfl

theorem votesIn_iff {P : String → Vote → Prop} : r.VotesIn P ↔ ∀ k v, r.vote? k = some v → P k v := by
  constructor
  · intro h k v hv
    simp only [vote?, Option.bind_eq_bind, Option.bind_eq_some_iff] at hv
    obtain ⟨a, ha, s, hs, hv⟩ := hv
    exact h a ha k s v hs hv
  · intro h a ha k s v hs hv
    exact h k v (by rw [vote?_of_current ha, Acceptor.slot, hs]; exact hv)

theorem accepted_of_promise {m : Prepare} {p : Promise} (h : (r.prepare m).1 = some p) :
    p.accepted = r.vote? m.key := by
  obtain ⟨a, ha, hp, -⟩ := Supervisor.current?_serve (Option.join_eq_some_iff.1 h)
  rw [vote?_of_current ha, (Acceptor.slot?_prepare hp).1]

end Replica

namespace Cluster

variable {c : Cluster} {q : Request} {place : Nat} {peers : List Nat} {R S : Nat → Replica → Prop}

def Each (R : Nat → Replica → Prop) (c : Cluster) : Prop :=
  ∀ x r, c.replicas[x]? = some r → R x r

theorem broadcast_cons (place peer : Nat) (peers : List Nat) (q : Request) :
    (surroundings place).broadcast (peer :: peers) q c =
      let p := call peer q c
      let rest := (surroundings place).broadcast peers q p.2
      (.ok p.1 :: rest.1, rest.2) := by
  simp only [broadcast_eq_poll]
  rfl

namespace Each

theorem mono (h : c.Each R) (hRS : ∀ x r, R x r → S x r) : c.Each S :=
  fun x r hr => hRS x r (h x r hr)

theorem called (h : c.Each R) (hS : ∀ r, R place r → S place (r.answer q).2)
    (hrest : ∀ x r, place ≠ x → R x r → S x r) : (Cluster.call place q c).2.Each S := by
  intro x r hr
  rcases replica_of_call hr with ⟨rfl, r₀, hr₀, rfl⟩ | ⟨hne, hr₀⟩
  · exact hS r₀ (h place r₀ hr₀)
  · exact hrest x r hne (h x r hr₀)

theorem call (h : c.Each R) (hR : ∀ r, R place r → R place (r.answer q).2) : (Cluster.call place q c).2.Each R :=
  h.called hR fun _ _ _ hr => hr

theorem broadcast (h : c.Each R) (hR : ∀ x ∈ peers, ∀ r, R x r → R x (r.answer q).2) :
    ((surroundings place).broadcast peers q c).2.Each R := by
  induction peers generalizing c with
  | nil => exact h
  | cons peer peers ih =>
      obtain ⟨hpeer, hpeers⟩ := List.forall_mem_cons.1 hR
      rw [broadcast_cons]
      exact ih (h.call hpeer) hpeers

theorem asked (h : c.Each R) (hR : ∀ x ∈ peers, ∀ r, R x r → R x (r.answer q).2)
    (hS : ∀ x ∈ peers, ∀ r, R x r → S x (r.answer q).2) :
    ((surroundings place).broadcast peers q c).2.Each fun x r => x ∈ peers → S x r := by
  induction peers generalizing c with
  | nil => exact fun x r _ hx => absurd hx List.not_mem_nil
  | cons peer peers ih =>
      obtain ⟨hpeer, hpeers⟩ := List.forall_mem_cons.1 hR
      obtain ⟨hhead, htail⟩ := List.forall_mem_cons.1 hS
      rw [broadcast_cons]
      have hfirst : (Cluster.call peer q c).2.Each fun x r => x ∉ peers → x = peer → S x r :=
        h.called (fun r hr _ _ => hhead r hr) fun x r hne _ _ he => absurd he.symm hne
      have hlast : ((surroundings place).broadcast peers q (Cluster.call peer q c).2).2.Each
          fun x r => x ∉ peers → x = peer → S x r := hfirst.broadcast fun x hx _ _ hx' => absurd hx hx'
      intro x r hr hx
      by_cases hxs : x ∈ peers
      · exact ih (h.call hpeer) hpeers htail x r hr hxs
      · exact hlast x r hr hxs ((List.mem_cons.1 hx).resolve_right hxs)

theorem answers (h : c.Each R) (hR : ∀ x ∈ peers, ∀ r, R x r → R x (r.answer q).2) {a : Answer}
    (ha : a ∈ ((surroundings place).broadcast peers q c).1) :
    a = .ok q.refusal ∨ ∃ x ∈ peers, ∃ r, R x r ∧ a = .ok (r.answer q).1 := by
  induction peers generalizing c with
  | nil => exact absurd ha List.not_mem_nil
  | cons peer peers ih =>
      obtain ⟨hpeer, hpeers⟩ := List.forall_mem_cons.1 hR
      rw [broadcast_cons] at ha
      rcases List.mem_cons.1 ha with rfl | ha
      · cases hr : c.replicas[peer]? with
        | none => exact .inl (by rw [call_of_none hr])
        | some r => exact .inr ⟨peer, List.mem_cons_self, r, h peer r hr, by rw [call_of_some hr]⟩
      · rcases ih (h.call hpeer) hpeers ha with ha | ⟨x, hx, h⟩
        · exact .inl ha
        · exact .inr ⟨x, List.mem_cons_of_mem _ hx, h⟩

end Each

end Cluster

end SynodStore

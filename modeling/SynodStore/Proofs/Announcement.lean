import SynodStore.Proofs.Serving
import SynodStore.Proofs.Wiring

namespace SynodStore

def Proposer.Majority (p : Proposer) (P : Nat → Prop) : Prop :=
  ∃ places : List Nat, places.Nodup ∧ places ⊆ p.peers ∧ p.config.majority ≤ places.length ∧ ∀ x ∈ places, P x

def PromiseFrom (L : List Minute) (b : Ballot) (x : Nat) : Prop :=
  ∃ n m answer held, .served n x (.prepare m) (.promise (some answer)) (some held) ∈ L ∧
    m.ballot = b ∧ answer.ballot = b ∧ held.promised = some b

/-- The replica has voted, and its acceptor was up and had recorded the vote when it did. -/
def VoteFrom (L : List Minute) (v : Vote) (x : Nat) : Prop :=
  ∃ n m held, .served n x (.accept m) (.vote (some v)) (some held) ∈ L ∧ m.vote = v ∧ held.accepted = some v

variable {κ : Conditions} {c : Cluster} {w : Synod} {L : List Minute} {n : Nat} {t : Mandate} {p : Proposer}
variable {b : Ballot} {value : Action}

namespace Backed

variable {β : Type} {q : Request} {reply : β → Reply} {backers : List (Nat × β)} {P : Nat → Prop}

theorem majority (h : Backed L n t.peers q reply backers) (ht : t.Of p) (hp : p.peers.Nodup)
    (hm : t.config.majority ≤ backers.length)
    (hP : ∀ x y held, .served n x q (reply y) held ∈ L → P x) : p.Majority P := by
  refine ⟨backers.map Prod.fst, ?_, ?_, ?_, ?_⟩
  · exact h.sublist.nodup (ht.peers ▸ hp)
  · exact ht.peers ▸ h.sublist.subset
  · rwa [List.length_map, ← ht.config]
  · intro x hx
    obtain ⟨y, hy, rfl⟩ := List.mem_map.1 hx
    obtain ⟨held, hs⟩ := h.served y hy
    exact hP _ _ _ hs

end Backed

namespace Synod

theorem promises_of_prepared (h : Changes κ (start c) w) (hp : Prepared (Minute.own n w.minutes) n t b value)
    (ht : t.Of p) (hn : p.peers.Nodup) : p.Majority (PromiseFrom w.minutes b) := by
  obtain ⟨promises, hb, hm, -⟩ := hp
  apply hb.majority ht hn hm
  intro x answer held hs
  have hs := Minute.own_subset hs
  obtain ⟨ha, s, rfl, hp, -⟩ := promise_of_served h hs
  exact ⟨n, _, answer, s, hs, rfl, ha, hp⟩

theorem votes_of_accepted (h : Changes κ (start c) w) (hv : Accepted (Minute.own n w.minutes) n t b value)
    (ht : t.Of p) (hn : p.peers.Nodup) : p.Majority (VoteFrom w.minutes ⟨b, value⟩) := by
  obtain ⟨votes, hb, hm⟩ := hv
  apply hb.majority ht hn hm
  intro x v held hs
  have hs := Minute.own_subset hs
  obtain ⟨rfl, s, rfl, ha⟩ := vote_of_served h hs
  exact ⟨n, _, s, hs, rfl, ha⟩

/-- A strict proposer announces what a majority voted for after a majority had promised its ballot, and a round
of it that comes to nothing has announced nothing. -/
theorem majorities_of_learn (hc : ∀ p ∈ c.proposers, p.config.shortfall = .strict ∧ p.peers.Nodup)
    (h : Run κ (start c) w) :
    (∀ n x m reply held L, .served n x (.learn m) reply held :: L <:+ w.minutes →
      ∃ p ∈ c.proposers, p.id = m.sender ∧ p.Majority (PromiseFrom L m.ballot) ∧ p.Majority (VoteFrom L m.vote)) ∧
    ∀ n (t : Mandate) failure, w.sessions[n]? = some (t.returning (.error failure)) →
      ∀ m, .called n (.learn m) ∉ w.minutes ∧ ∀ x reply held, .served n x (.learn m) reply held ∉ w.minutes := by
  have hw := h.changes
  constructor
  · intro n x m reply held L hL
    obtain ⟨u, hu, rfl, hcall⟩ := exists_call hw hL
    obtain ⟨t, round, answers, hs, hq, -, hr⟩ := hcall.running hu
    obtain ⟨p, hp, ht⟩ := mandate_of_changes hu (List.mem_of_getElem? hs)
    obtain ⟨hstrict, hn⟩ := hc p hp
    obtain ⟨outcome, hl, hb, hi⟩ := Round.request_eq_learn hq.symm
    have hg := hr.grounds
    simp only [hl, hb, Stage.Grounds] at hg
    obtain ⟨hprep, -, ho | ⟨hd, -⟩, hacc⟩ := hg
    · exact ⟨p, hp, ht.sender ▸ hi, promises_of_prepared hu hprep ht hn, votes_of_accepted hu (hacc ho) ht hn⟩
    · rw [ht.config, hstrict] at hd
      cases hd
  · intro n t failure hs m
    obtain ⟨p, hp, ht⟩ := mandate_of_changes hw (List.mem_of_getElem? hs)
    have hnone : .called n (.learn m) ∉ w.minutes := fun hm => by
      rcases (trace_of_changes hw hs).stands.announced m (Minute.mem_own.2 ⟨hm, rfl⟩) with ho | ⟨hd, -⟩
      · cases ho
      · rw [ht.config, (hc p hp).1] at hd
        cases hd
    exact ⟨hnone, fun x reply held hm => hnone (called_of_served hw hm)⟩

theorem majorities_of_learn_lost :
    let c := Cluster.plain 3 [⟨0, 0, by decide⟩]
    let events := [Event.round 0 (.put "k" "v")] ++ Event.phase 0 [.pass, .lost, .pass] ++
      Event.phase 0 [.fail, .pass, .pass] ++ [Event.call 0 1 .lost]
    let m : Proposal := ⟨.pack 1 0, 0, .put "k" "v"⟩
    (∀ p ∈ c.proposers, p.config.shortfall = .strict ∧ p.peers.Nodup) ∧
      Run .rough (start c) ((start c).play events) ∧
      ∃ held L, .served 0 1 (.learn m) .learned held :: L <:+ ((start c).play events).minutes ∧
        ∃ p ∈ c.proposers, p.id = m.sender ∧ p.Majority (PromiseFrom L m.ballot) ∧
          p.Majority (VoteFrom L m.vote) := by
  intro c events m
  have hc : ∀ p ∈ c.proposers, p.config.shortfall = .strict ∧ p.peers.Nodup := by decide +kernel
  have h : Run .rough (start c) ((start c).play events) := run_play (by decide +kernel)
  have hm : ((start c).play events).minutes.head? = some (.served 0 1 (.learn m) .learned none) := by
    decide +kernel
  obtain ⟨L, hL⟩ := List.head?_eq_some_iff.1 hm
  have hs : .served 0 1 (.learn m) .learned none :: L <:+ ((start c).play events).minutes := hL ▸ List.suffix_refl _
  exact ⟨hc, h, _, L, hs, (majorities_of_learn hc h).1 _ _ _ _ _ _ hs⟩

end Synod

end SynodStore

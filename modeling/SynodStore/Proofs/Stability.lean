import SynodStore.Proofs.Agreement

namespace SynodStore

open Scenario (Fate)

variable {c : Cluster} {w : Synod} {n x : Nat} {held : Option Slot} {L : List Minute}

theorem Met.served_of_deaf {m : Prepare} {a : Answer} (h : Met .deaf L n (.prepare m) x a) :
    ∃ reply held, .served n x (.prepare m) reply held ∈ L := by
  cases h with
  | missed f hf hc =>
      obtain rfl : f = .pass := by simpa [Conditions.deaf] using hf
      cases hc
  | served f reply held hf hc hm => exact ⟨reply, held, hm⟩

namespace Synod

/-- So all votes are firm: the accepts of a round go out when its prepares have come in. -/
theorem firm_of_deaf (h : Changes .deaf (start c) w) (hc : c.Fresh) {m : Proposal} {v : Vote}
    (hm : .served n x (.accept m) (.vote (some v)) held ∈ w.minutes) : FirmVote w.minutes v x := by
  obtain ⟨L, hL⟩ := exists_suffix_of_mem hm
  obtain ⟨u, hu, rfl, hcall⟩ := exists_call h hL
  obtain ⟨t, round, answers, -, hq, hx, hr⟩ := hcall.running hu
  obtain ⟨hst, hb, hsender⟩ := Round.request_eq_accept hq.symm
  have hprep := hr.grounds
  simp only [hst, hb, Stage.Grounds] at hprep
  have hkey := key_of_prepared hu Conditions.quiet_deaf hc (hprep.mono Minute.own_subset)
  obtain ⟨promises, hback, hmaj, -⟩ := hprep
  obtain ⟨y, hy⟩ : ∃ y, y ∈ promises := List.exists_mem_of_length_pos (Nat.lt_of_lt_of_le (Nat.succ_pos _) hmaj)
  obtain ⟨held', hs⟩ := hback.served y hy
  have hcalled := Minute.mem_own.2 ⟨called_of_served hu (Minute.own_subset hs), rfl⟩
  rcases hr.reached _ hcalled with he | hreach
  · rw [← hq] at he
    cases he
  · obtain ⟨a, ha⟩ := hreach x hx
    obtain ⟨reply, held'', hs'⟩ := ha.served_of_deaf
    exact firm_of_prepared h Conditions.quiet_deaf hc hL (Minute.own_subset hs') hkey.symm rfl

theorem agrees_of_deaf (h : Run .deaf (start c) w) (hc : c.Fresh) (hw : c.Wired) : w.Agrees := by
  apply agrees_of_firm h Conditions.quiet_deaf hc hw
  intro n t d hs
  obtain ⟨p, hp, ht, -, -, votes, hb, hmaj⟩ := decided h.changes Conditions.quiet_deaf hc hs
  refine ⟨votes.map Prod.fst, hb.sublist.nodup (ht.peers ▸ hw.nodup hp), ?_, ?_⟩
  · intro x hx
    obtain ⟨⟨x, v⟩, hy, rfl⟩ := List.mem_map.1 hx
    obtain ⟨held, hs⟩ := hb.served _ hy
    obtain ⟨rfl, -⟩ := vote_of_served h.changes hs
    exact firm_of_deaf h.changes hc hs
  · rw [ht.config, hw.majority hp] at hmaj
    rw [List.length_map]
    omega

theorem slot?_of_firm {κ : Conditions} (h : Changes κ (start c) w) (hκ : κ.Quiet) (hc : c.Fresh) (hw : c.Wired)
    {v : Vote} (hv : FirmVote w.minutes v x) : ∃ s, w.cluster.slot? x v.action.key = some s ∧
      (∃ b ∈ s.promised, v.ballot ≤ b) ∧ ∃ a ∈ s.accepted, v.ballot ≤ a.ballot := by
  obtain ⟨n, m, held, hm, rfl, hf⟩ := hv
  have hx := place_of_served h hw hm
  refine (recorded_of_changes h hκ hc).exists_slot? (m := m) ?_ hm hf
  rw [length_replicas_of_changes h]
  exact List.mem_range.1 hx

/-- Where no call is lost a value that a majority has voted for stays: every later ballot for its key carries it,
whatever rounds decide for the key is this value, and no acceptor goes back behind its vote. -/
theorem stable_of_deaf (hc : c.Fresh) (hw : c.Wired) (h : Run .deaf (start c) w) :
    (∀ (v : Vote) (places : List Nat), places.Nodup → c.replicas.length / 2 + 1 ≤ places.length →
      (∀ x ∈ places, ∃ n m held, .served n x (.accept m) (.vote (some v)) held ∈ w.minutes) →
      ∀ n m, .called n (.accept m) ∈ w.minutes → m.action.key = v.action.key → v.ballot < m.ballot →
        m.action = v.action) ∧
    w.Agrees ∧
    ∀ x k s, w.cluster.slot? x k = some s → ∀ a ∈ s.accepted, (∃ b ∈ s.promised, a.ballot ≤ b) ∧
      ∀ w', Run .deaf w w' → ∃ s', w'.cluster.slot? x k = some s' ∧ ∃ a' ∈ s'.accepted, a.ballot ≤ a'.ballot := by
  refine ⟨?_, agrees_of_deaf h hc hw, ?_⟩
  · intro v places hn hlen hv n m hm hk hlt
    refine action_of_called h Conditions.quiet_deaf hc hw hn (fun x hx => ?_) (by omega) (List.suffix_refl _) hm hk
      hlt
    obtain ⟨n', m', held, hm'⟩ := hv x hx
    exact firm_of_deaf h.changes hc hm'
  · intro x k s hs a ha
    have hrec := (recorded_of_changes h.changes Conditions.quiet_deaf hc).of_slot? hs
    obtain ⟨n, m, held, hm, rfl, rfl⟩ := hrec.source a ha
    have hfirm := firm_of_deaf h.changes hc hm
    constructor
    · obtain ⟨s', hs', hb, -⟩ := slot?_of_firm h.changes Conditions.quiet_deaf hc hw hfirm
      obtain rfl := Option.some.inj (hs.symm.trans hs')
      exact hb
    · intro w' hw'
      have hlater := hfirm.mono (suffix_of_changes hw'.changes).subset
      obtain ⟨s', hs', -, ha'⟩ := slot?_of_firm (h.trans hw').changes Conditions.quiet_deaf hc hw hlater
      exact ⟨s', hs', ha'⟩

theorem stable_of_deaf_second :
    let c := Cluster.plain 3 [⟨0, 0, by decide⟩, ⟨1, 0, by decide⟩]
    let passed := [Fate.pass, .pass, .pass]
    let refused := [Fate.refuse, .refuse, .refuse]
    let w := (start c).play
      ([.round 0 (.put "k" "v")] ++ Event.phase 0 passed ++ Event.phase 0 passed ++ Event.phase 0 refused ++
        [.round 1 (.put "k" "w")] ++ Event.phase 1 passed ++ Event.phase 1 passed ++ Event.phase 1 refused)
    c.Fresh ∧ c.Wired ∧ Run .deaf (start c) w ∧
      (∀ n m, .called n (.accept m) ∈ w.minutes → m.action.key = "k" → Ballot.pack 1 0 < m.ballot →
        m.action = .put "k" "v") ∧
      .called 1 (.accept ⟨.pack 1 1, 1, .put "k" "v"⟩) ∈ w.minutes ∧ w.Agrees := by
  intro c passed refused w
  have hc : c.Fresh := Cluster.fresh_plain _ _
  have hw : c.Wired := Cluster.wired_plain (by decide) (by decide)
  have h : Run .deaf (start c) w := run_play (by decide +kernel)
  obtain ⟨hstable, hagree, -⟩ := stable_of_deaf hc hw h
  have hvotes : ∀ x ∈ [0, 1], .served 0 x (.accept ⟨.pack 1 0, 0, .put "k" "v"⟩)
      (.vote (some ⟨.pack 1 0, .put "k" "v"⟩)) (some ⟨some (.pack 1 0), some ⟨.pack 1 0, .put "k" "v"⟩⟩) ∈
        w.minutes := by decide +kernel
  exact ⟨hc, hw, h, hstable ⟨.pack 1 0, .put "k" "v"⟩ [0, 1] (by decide) (by decide +kernel)
    fun x hx => ⟨_, _, _, hvotes x hx⟩, by decide +kernel, hagree⟩

end Synod

end SynodStore

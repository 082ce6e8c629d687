import SynodStore.Proofs.Announcement
import SynodStore.Proofs.Authorship
import SynodStore.Proofs.Quorum
import SynodStore.Proofs.Slots

namespace SynodStore

open Scenario (Fate)

def FirmVote (L : List Minute) (v : Vote) (x : Nat) : Prop :=
  ∃ n m held, .served n x (.accept m) (.vote (some v)) (some held) ∈ L ∧ m.vote = v ∧
    held.promised = some v.ballot

theorem FirmVote.mono {L L' : List Minute} {v : Vote} {x : Nat} (h : FirmVote L v x) (hL : L ⊆ L') :
    FirmVote L' v x := by
  obtain ⟨n, m, held, hm, h⟩ := h
  exact ⟨n, m, held, hL hm, h⟩

namespace Synod

/-- Rounds that decide something for a key decide the same. -/
def Agrees (w : Synod) : Prop :=
  ∀ (n n' : Nat) (t t' : Mandate) (d d' : Vote), w.sessions[n]? = some (t.returning (.ok d)) →
    w.sessions[n']? = some (t'.returning (.ok d')) → t.action.key = t'.action.key → d.action = d'.action

variable {κ : Conditions} {c : Cluster} {u w : Synod} {n x : Nat} {held : Option Slot} {L : List Minute}

theorem Recorded.of_vote {m : Proposal} {v : Vote} (h : u.Recorded)
    (hc : u.Call n x (.accept m) (.vote (some v)) held) :
    ∃ s : Slot, s.Recorded u.minutes x m.action.key ∧ s.admitsAccept m.ballot = true ∧ v = m.vote ∧
      held = some { s with accepted := some m.vote } := by
  have hr := hc.reply
  have hh := hc.held
  obtain ⟨r, hx⟩ := Cluster.replica_of_reply (q := .accept m) (by rw [← hr]; simp [Request.refusal])
  obtain ⟨a, hl, ha⟩ := h x r hx
  rw [Cluster.slot?_call hx] at hh
  rw [Cluster.call_of_some hx] at hr
  simp only [Replica.answer, Replica.accept, Supervisor.serve_of_steady hl, Option.join_some] at hr hh
  have hv : (a.accept m).1 = some v := (Reply.vote.inj hr).symm
  obtain ⟨rfl, hs⟩ := Acceptor.slot?_accept hv
  refine ⟨a.slot m.action.key, ha _, ?_, rfl, hh.trans hs⟩
  by_contra hn
  simp [Acceptor.accept, hn] at hv

theorem Recorded.of_promise {m : Prepare} {p : Promise} (h : u.Recorded)
    (hc : u.Call n x (.prepare m) (.promise (some p)) held) :
    ∃ s : Slot, s.Recorded u.minutes x m.key ∧ s.admitsPrepare m.ballot = true ∧ p = ⟨m.ballot, s.accepted⟩ := by
  have hr := hc.reply
  obtain ⟨r, hx⟩ := Cluster.replica_of_reply (q := .prepare m) (by rw [← hr]; simp [Request.refusal])
  obtain ⟨a, hl, ha⟩ := h x r hx
  rw [Cluster.call_of_some hx] at hr
  simp only [Replica.answer, Replica.prepare, Supervisor.serve_of_steady hl, Option.join_some] at hr
  have hp : (a.prepare m).1 = some p := (Reply.promise.inj hr).symm
  refine ⟨a.slot m.key, ha _, ?_, (Acceptor.slot?_prepare hp).1⟩
  by_contra hn
  simp [Acceptor.prepare, hn] at hp

theorem accepted_of_firm (h : Changes κ (start c) w) (hκ : κ.Quiet) (hc : c.Fresh) {m : Prepare} {p : Promise}
    {v : Vote} (hp : .served n x (.prepare m) (.promise (some p)) held ∈ w.minutes) (hv : FirmVote w.minutes v x)
    (hk : v.action.key = m.key) (hlt : v.ballot < m.ballot) : ∃ a, p.accepted = some a ∧ v.ballot ≤ a.ballot := by
  obtain ⟨n', m', held', hm, rfl, hf⟩ := hv
  obtain ⟨L, hL⟩ := exists_suffix_of_mem hp
  obtain ⟨L', hL'⟩ := exists_suffix_of_mem hm
  obtain ⟨u, hu, rfl, hcall⟩ := exists_call h hL
  obtain ⟨u', hu', rfl, hcall'⟩ := exists_call h hL'
  obtain ⟨s, hs, hadm, rfl⟩ := (recorded_of_changes hu hκ hc).of_promise hcall
  obtain ⟨s', hs', hadm', -, he⟩ := (recorded_of_changes hu' hκ hc).of_vote hcall'
  obtain rfl := Option.some.inj he
  rcases List.suffix_or_suffix_of_suffix hL hL' with ho | ho
  · -- the promise came first, so the vote was not firm
    rcases List.suffix_cons_iff.1 ho with ho | ho
    · cases (List.cons.inj ho).1
    · obtain ⟨b, hb, hle⟩ := hs'.prepared _ _ _ _ (ho.subset List.mem_cons_self) hk.symm
      have hb' : s'.promised = some b := hb
      obtain rfl : b = m'.ballot := Option.some.inj (hb'.symm.trans hf)
      exact absurd hle (not_le.2 hlt)
  · rcases List.suffix_cons_iff.1 ho with ho | ho
    · cases (List.cons.inj ho).1
    · exact (hs.voted _ _ _ _ (ho.subset List.mem_cons_self) hk hf).2

theorem source_of_promise (h : Changes κ (start c) w) (hκ : κ.Quiet) (hc : c.Fresh) {m : Prepare} {p : Promise}
    (hp : .served n x (.prepare m) (.promise (some p)) held ∈ w.minutes) {a : Vote} (ha : p.accepted = some a) :
    ∃ n' m' held', .served n' x (.accept m') (.vote (some a)) held' ∈ w.minutes ∧ m'.vote = a ∧
      m'.action.key = m.key := by
  obtain ⟨L, hL⟩ := exists_suffix_of_mem hp
  obtain ⟨u, hu, rfl, hcall⟩ := exists_call h hL
  obtain ⟨s, hs, -, rfl⟩ := (recorded_of_changes hu hκ hc).of_promise hcall
  obtain ⟨n', m', held', hm, hk⟩ := hs.source a ha
  exact ⟨n', m', held', hL.subset (List.mem_cons_of_mem _ hm), hk⟩

theorem key_of_prepared (h : Changes κ (start c) w) (hκ : κ.Quiet) (hc : c.Fresh) {t : Mandate} {b : Ballot}
    {value : Action} (hp : Prepared w.minutes n t b value) : value.key = t.action.key := by
  obtain ⟨promises, hb, -, rfl⟩ := hp
  cases hv : chooseValue (promises.map Prod.snd) with
  | none => rfl
  | some value =>
      obtain ⟨p, hp, a, ha, rfl⟩ := exists_of_chooseValue hv
      obtain ⟨⟨x, p⟩, hx, rfl⟩ := List.mem_map.1 hp
      obtain ⟨held, hs⟩ := hb.served _ hx
      obtain ⟨n', m', held', -, rfl, hk⟩ := source_of_promise h hκ hc hs ha
      exact hk

theorem place_of_served (h : Changes κ (start c) w) (hw : c.Wired) {q : Request} {reply : Reply}
    (hm : .served n x q reply held ∈ w.minutes) : x ∈ c.places := by
  obtain ⟨L, hL⟩ := exists_suffix_of_mem hm
  obtain ⟨u, hu, rfl, hcall⟩ := exists_call h hL
  obtain ⟨t, round, answers, hs, -, hx, -⟩ := hcall.running hu
  obtain ⟨p, hp, ht⟩ := mandate_of_changes hu (List.mem_of_getElem? hs)
  exact hw.subset hp (ht.peers ▸ hx)

theorem prepared_of_called (h : Changes κ (start c) w) {m : Proposal}
    (hL : .called n (.accept m) :: L <:+ w.minutes) :
    ∃ u t p, Changes κ (start c) u ∧ u.minutes = L ∧ p ∈ c.proposers ∧ t.Of p ∧
      Prepared L n t m.ballot m.action := by
  obtain ⟨u, u', hu, hc, rfl, hu', -⟩ := exists_change_of_suffix h hL
  obtain ⟨t, round, hs, hq⟩ := hc.facing hu'
  obtain ⟨p, hp, ht⟩ := mandate_of_changes (hu.tail hc) (List.mem_of_getElem? hs)
  have hr : Running κ (Minute.own n u'.minutes) n t round _ := (trace_of_changes (hu.tail hc) hs).stands
  obtain ⟨hst, hb, -⟩ := Round.request_eq_accept hq.symm
  have hg := hr.grounds
  simp only [hst, hb, Stage.Grounds] at hg
  refine ⟨u, t, p, hu, rfl, hp, ht, hg.of_served fun x q reply held hm => ?_⟩
  have hm := Minute.own_subset hm
  rw [hu'] at hm
  rcases List.mem_cons.1 hm with he | hm
  · cases he
  · exact hm

/-- Once so many replicas have voted firmly for a value that no majority can avoid them, every later ballot
carries it. -/
theorem action_of_called (h : Run κ (start c) w) (hκ : κ.Quiet) (hc : c.Fresh) (hw : c.Wired) {v : Vote}
    {places : List Nat} (hn : places.Nodup) (hF : ∀ x ∈ places, FirmVote w.minutes v x)
    (hlen : c.replicas.length < places.length + (c.replicas.length / 2 + 1)) (hL : L <:+ w.minutes) {m : Proposal}
    (hm : .called n (.accept m) ∈ L) (hk : m.action.key = v.action.key) (hlt : v.ballot < m.ballot) :
    m.action = v.action := by
  have hch := h.changes
  -- the induction is on the minutes before the request, as the value may come from an earlier one under such a ballot
  induction L generalizing n m with
  | nil => cases hm
  | cons e L ih =>
      rcases List.mem_cons.1 hm with rfl | hm
      · obtain ⟨u, t, p, hu, rfl, hp, ht, hprep⟩ := prepared_of_called hch hL
        have hsub : u.minutes ⊆ w.minutes := ((List.suffix_cons _ _).trans hL).subset
        have hkey := key_of_prepared hu hκ hc hprep
        obtain ⟨promises, hb, hmaj, hval⟩ := hprep
        -- one of the promises comes from a replica that has voted firmly
        have hplaces : places ⊆ c.places := fun x hx => by
          obtain ⟨_, _, _, hm, -⟩ := hF x hx
          exact place_of_served hch hw hm
        obtain ⟨x, hx, hxF⟩ := exists_mem_of_length_lt (hb.sublist.nodup (ht.peers ▸ hw.nodup hp)) hn
          (fun x hx => hw.subset hp (ht.peers ▸ hb.sublist.subset hx)) hplaces (by
            rw [ht.config, hw.majority hp] at hmaj
            simp only [Cluster.places, List.length_range, List.length_map]
            omega)
        obtain ⟨⟨x, q⟩, hq, rfl⟩ := List.mem_map.1 hx
        obtain ⟨held, hs⟩ := hb.served _ hq
        obtain ⟨a, ha, hle⟩ := accepted_of_firm hch hκ hc (hsub hs) (hF x hxF) (hk.symm.trans hkey) hlt
        -- so the value is that of a vote at least as high
        obtain ⟨r, hr, top, htop, hle', hch'⟩ := exists_chooseValue (List.mem_map_of_mem hq) ha
        obtain ⟨⟨y, r⟩, hy, rfl⟩ := List.mem_map.1 hr
        obtain ⟨held', hs'⟩ := hb.served _ hy
        obtain ⟨n', m', held', hm', rfl, hk'⟩ := source_of_promise hu hκ hc hs' htop
        have hcalled := called_of_served hu hm'
        rw [hch', Option.getD_some] at hval
        rw [hval]
        rcases (hle.trans hle').eq_or_lt with heq | hlt'
        · obtain ⟨n₀, m₀, _, hm₀, rfl, -⟩ := hF x hxF
          exact ((authored_of_changes hch hw.issuers h.bounded_start).unique _ _ _ _ (hsub hcalled)
            (called_of_served hch hm₀) heq.symm).2 _ rfl _ rfl
        · exact ih ((List.suffix_cons _ _).trans hL) hcalled (hk'.trans (hkey.symm.trans hk)) hlt'
      · exact ih ((List.suffix_cons _ _).trans hL) hm hk hlt

theorem firm_of_prepared (h : Changes κ (start c) w) (hκ : κ.Quiet) (hc : c.Fresh) {m : Proposal} {v : Vote}
    (hL : .served n x (.accept m) (.vote (some v)) held :: L <:+ w.minutes) {n' : Nat} {m' : Prepare}
    {reply : Reply} {held' : Option Slot} (hp : .served n' x (.prepare m') reply held' ∈ L)
    (hk : m'.key = m.action.key) (hb : m'.ballot = m.ballot) : FirmVote w.minutes v x := by
  obtain ⟨u, hu, rfl, hcall⟩ := exists_call h hL
  obtain ⟨s, hs, hadm, rfl, rfl⟩ := (recorded_of_changes hu hκ hc).of_vote hcall
  obtain ⟨b, hsb, hle⟩ := hs.prepared _ _ _ _ hp hk
  have hsb' : s.promised = some b := hsb
  have hge : b ≤ m.ballot := by simpa [Slot.admitsAccept, hsb'] using hadm
  obtain rfl : b = m.ballot := le_antisymm hge (hb ▸ hle)
  exact ⟨n, m, _, hL.subset List.mem_cons_self, rfl, hsb'⟩

theorem decided (h : Changes κ (start c) w) (hκ : κ.Quiet) (hc : c.Fresh) {t : Mandate} {d : Vote}
    (hs : w.sessions[n]? = some (t.returning (.ok d))) :
    ∃ p ∈ c.proposers, t.Of p ∧ d.action.key = t.action.key ∧
      .called n (.accept ⟨d.ballot, t.sender, d.action⟩) ∈ w.minutes ∧ Accepted w.minutes n t d.ballot d.action := by
  obtain ⟨p, hp, ht⟩ := mandate_of_changes h (List.mem_of_getElem? hs)
  have ho : Over κ (Minute.own n w.minutes) n t (.ok d) := (trace_of_changes h hs).stands
  obtain ⟨hprep, hcalled, -, hacc⟩ := ho.grounds d rfl
  exact ⟨p, hp, ht, key_of_prepared h hκ hc (hprep.mono Minute.own_subset), Minute.own_subset hcalled,
    (hacc rfl).mono Minute.own_subset⟩

theorem exists_promises_before (h : Changes κ (start c) w) (hκ : κ.Quiet) (hc : c.Fresh) (hw : c.Wired)
    {m : Proposal} (hm : .called n (.accept m) ∈ w.minutes) :
    ∃ places : List Nat, places.Nodup ∧ places ⊆ c.places ∧ c.replicas.length / 2 + 1 ≤ places.length ∧
      ∀ x v held, x ∈ places → .served n x (.accept m) (.vote (some v)) held ∈ w.minutes →
        FirmVote w.minutes v x := by
  obtain ⟨L, hL, hfirst⟩ := exists_first_of_mem hm
  obtain ⟨u, t, p, hu, rfl, hp, ht, hprep⟩ := prepared_of_called h hL
  have hkey := key_of_prepared hu hκ hc hprep
  obtain ⟨promises, hb, hmaj, -⟩ := hprep
  refine ⟨promises.map Prod.fst, hb.sublist.nodup (ht.peers ▸ hw.nodup hp), ?_, ?_, ?_⟩
  · intro x hx
    exact hw.subset hp (ht.peers ▸ hb.sublist.subset hx)
  · rwa [List.length_map, ← hw.majority hp, ← ht.config]
  · intro x v held hx hv
    obtain ⟨⟨x, q⟩, hq, rfl⟩ := List.mem_map.1 hx
    obtain ⟨held', hs⟩ := hb.served _ hq
    obtain ⟨L', hL'⟩ := exists_suffix_of_mem hv
    obtain ⟨u', hu', rfl, hcall⟩ := exists_call h hL'
    obtain ⟨t', round, answers, -, hr, -, hrun⟩ := hcall.running hu'
    have hcalled : .called n (.accept m) ∈ u'.minutes := hr ▸ Minute.own_subset hrun.called
    -- no vote comes before the first request for it
    have hsub : u.minutes ⊆ u'.minutes := by
      rcases List.suffix_or_suffix_of_suffix hL ((List.suffix_cons _ _).trans hL') with ho | ho
      · exact ((List.suffix_cons _ _).trans ho).subset
      · rcases List.suffix_cons_iff.1 ho with ho | ho
        · rw [ho]
          exact List.subset_cons_self _ _
        · exact absurd (ho.subset hcalled) hfirst
    exact firm_of_prepared h hκ hc hL' (hsub hs) hkey.symm rfl

theorem agrees_of_firm (h : Run κ (start c) w) (hκ : κ.Quiet) (hc : c.Fresh) (hw : c.Wired)
    (hf : ∀ (n : Nat) (t : Mandate) (d : Vote), w.sessions[n]? = some (t.returning (.ok d)) →
      ∃ places : List Nat, places.Nodup ∧ (∀ x ∈ places, FirmVote w.minutes d x) ∧
        c.replicas.length < places.length + (c.replicas.length / 2 + 1)) : w.Agrees := by
  intro n n' t t' d d' hs hs' hk
  obtain ⟨p, -, -, hkey, hcalled, -⟩ := decided h.changes hκ hc hs
  obtain ⟨p', -, -, hkey', hcalled', -⟩ := decided h.changes hκ hc hs'
  have hdk : d.action.key = d'.action.key := hkey.trans (hk.trans hkey'.symm)
  obtain ⟨places, hn, hF, hlen⟩ := hf n t d hs
  obtain ⟨places', hn', hF', hlen'⟩ := hf n' t' d' hs'
  -- the request for the later decision carries the value of the earlier one
  rcases lt_trichotomy d.ballot d'.ballot with hlt | heq | hlt
  · exact (action_of_called h hκ hc hw hn hF hlen (List.suffix_refl _) hcalled' hdk.symm hlt).symm
  · have ha := authored_of_changes h.changes hw.issuers h.bounded_start
    exact (ha.unique _ _ _ _ hcalled hcalled' heq).2 _ rfl _ rfl
  · exact action_of_called h hκ hc hw hn' hF' hlen' (List.suffix_refl _) hcalled hdk hlt

end Synod

end SynodStore

import SynodStore.Proofs.Authorship
import SynodStore.Proofs.Leftovers
import SynodStore.Proofs.Quorum

namespace SynodStore

open Scenario (Fate)

/-- Any call may fail or lose its reply, and anything may be done to a replica, except that it is handed none but
these proposals. -/
def Conditions.genuine (proposals : List Proposal) : Conditions where
  fate _ _ := true
  operation o := o.proposal?.all (· ∈ proposals)

def Cluster.Blank (c : Cluster) : Prop :=
  ∀ r ∈ c.replicas, r.supervisor.IfUp Acceptor.Blank

theorem Cluster.blank_of_start {c : Cluster} (h : ∀ r ∈ c.replicas, ∃ id plan stream, r = .start id plan stream) :
    c.Blank := by
  intro r hr
  obtain ⟨id, plan, stream, rfl⟩ := h r hr
  exact Supervisor.ifUp_install (Acceptor.blank_fresh _)

section

variable {promises promises' : List Promise} {answers answers' : List Answer}

theorem chooseValue_perm (h : promises'.Perm promises)
    (hu : ∀ p ∈ promises, ∀ q ∈ promises, ∀ v w, p.accepted = some v → q.accepted = some w → v.ballot = w.ballot →
      v.action = w.action) : chooseValue promises' = chooseValue promises := by
  have hvotes := h.filterMap (·.accepted)
  simp only [chooseValue]
  cases hv' : highestVote (promises'.filterMap (·.accepted)) with
  | none =>
      cases hv : highestVote (promises.filterMap (·.accepted)) with
      | none => rfl
      | some v =>
          obtain ⟨w, hw, -⟩ := exists_highestVote (hvotes.mem_iff.2 (mem_of_highestVote hv))
          rw [hv'] at hw
          cases hw
  | some v' =>
      have hmem := hvotes.mem_iff.1 (mem_of_highestVote hv')
      obtain ⟨v, hv, hle⟩ := exists_highestVote hmem
      have hmem' := mem_of_highestVote hv
      obtain ⟨w, hw, hle'⟩ := exists_highestVote (hvotes.mem_iff.2 hmem')
      obtain rfl : v' = w := Option.some.inj (hv'.symm.trans hw)
      obtain ⟨p, hp, hpv⟩ := List.mem_filterMap.1 hmem
      obtain ⟨q, hq, hqv⟩ := List.mem_filterMap.1 hmem'
      rw [hv, Option.map_some, Option.map_some, hu p hp q hq v' v hpv hqv (le_antisymm hle hle')]

theorem Round.conclude_perm (c : Config) (r : Round) (h : answers'.Perm answers)
    (hv : chooseValue (answers'.filterMap Answer.promise?) = chooseValue (answers.filterMap Answer.promise?)) :
    r.conclude c answers' = r.conclude c answers := by
  have hp := (h.filterMap Answer.promise?).length_eq
  have ha := (h.filterMap Answer.vote?).length_eq
  obtain ⟨action, ballot, retried, stage⟩ := r
  cases stage with
  | prepare => simp only [conclude, hp, hv]
  | accept value => simp only [conclude, ha]
  | learn value outcome => rfl

end

namespace Minute

def attempt? : Minute → Option Ballot
  | called _ (.prepare m) => some m.ballot
  | _ => none

def proposal? : Minute → Option Proposal
  | called _ q => q.proposal?
  | _ => none

end Minute

namespace Session

def answers (s : Session) : List Answer :=
  match s.status with
  | .running _ answers => answers.filterMap id
  | .returned _ => []

def promises (s : Session) : List Promise :=
  s.answers.filterMap Answer.promise?

end Session

namespace Synod

def proposals (w : Synod) : List Proposal :=
  w.minutes.filterMap Minute.proposal?

/-- Where a vote can be met with: at an acceptor, in a promise on its way or collected by a session, and in a
request that asks for it or announces it. -/
inductive Found (w : Synod) (v : Vote) : Prop
  | remembered (place : Nat) (k : String) (s : Slot) (hs : w.cluster.slot? place k = some s)
      (hv : s.accepted = some v)
  | promised (n x : Nat) (q : Request) (p : Promise) (held : Option Slot)
      (hm : .served n x q (.promise (some p)) held ∈ w.minutes) (hv : p.accepted = some v)
  | collected (s : Session) (p : Promise) (hs : s ∈ w.sessions) (hp : p ∈ s.promises) (hv : p.accepted = some v)
  | requested (n : Nat) (q : Request) (m : Proposal) (hm : .called n q ∈ w.minutes) (hq : q.proposal? = some m)
      (hv : m.vote = v)

variable {κ : Conditions} {c : Cluster} {v w : Synod} {L : List Proposal}

theorem mem_proposals {m : Proposal} : m ∈ w.proposals ↔ ∃ n q, .called n q ∈ w.minutes ∧ q.proposal? = some m := by
  constructor
  · intro h
    obtain ⟨e, he, hm⟩ := List.mem_filterMap.1 h
    cases e with
    | called n q => exact ⟨n, q, he, hm⟩
    | served n x q reply held => cases hm
    | closed n outcome => cases hm
  · rintro ⟨n, q, he, hm⟩
    exact List.mem_filterMap.2 ⟨_, he, hm⟩

theorem proposals_subset (h : Changes κ w v) : w.proposals ⊆ v.proposals :=
  List.filterMap_subset _ (suffix_of_changes h).subset

theorem votesIn_of_changes (h : Changes (.genuine L) (start c) w) (hc : c.Blank) (hL : w.proposals ⊆ L) :
    w.cluster.VotesIn fun _ x => x ∈ L.map Proposal.vote := by
  induction h with
  | refl =>
      intro r hr a ha k s x hs
      rw [hc r hr a ha k] at hs
      cases hs
  | @tail w v hw hv ih =>
      have ih := ih (List.Subset.trans (proposals_subset (.single hv)) hL)
      cases hv with
      | unwired | opened | asked | retried | stranded | closed | missed => exact ih
      | served n i t round answers peer f hs hi ha hf hcar =>
          refine ih.visit (f := (·.answer (round.request t.sender))) fun r hr => hr.answer fun m hq => ?_
          refine List.mem_map_of_mem (hL (mem_proposals.2 ⟨n, _, ?_, congrArg Request.proposal? hq⟩))
          exact List.mem_cons_of_mem _ (called_of_running hw hs)
      | operated place o ho =>
          refine ih.visit (f := Replica.perform o) fun r hr => hr.perform fun m hm => List.mem_map_of_mem ?_
          simpa [Conditions.genuine, hm] using ho

variable (h : Changes (.genuine L) (start c) w) (hc : c.Blank) (hL : w.proposals ⊆ L) {x : Vote}

include h hc hL

theorem voted_of_promise {n y : Nat} {q : Request} {p : Promise} {held : Option Slot}
    (hm : .served n y q (.promise (some p)) held ∈ w.minutes) (hx : p.accepted = some x) :
    x ∈ L.map Proposal.vote := by
  obtain ⟨l, hl⟩ := exists_suffix_of_mem hm
  obtain ⟨u, u', hu, hc', rfl, hm', huw⟩ := exists_change_of_suffix h hl
  have hcall := (hc'.call hm').1
  have hr := hcall.reply
  obtain ⟨r, hr'⟩ := Cluster.replica_of_reply (q := q) (by rw [← hr]; cases q <;> simp [Request.refusal])
  rw [Cluster.call_of_some hr'] at hr
  have hsub := List.Subset.trans (proposals_subset (huw.head hc')) hL
  have hvotes := votesIn_of_changes hu hc hsub r (List.mem_of_getElem? hr')
  cases q with
  | prepare m => exact hvotes.promise hr.symm hx
  | accept m => cases hr
  | learn m => cases hr

theorem voted_of_found (hx : w.Found x) : x ∈ L.map Proposal.vote := by
  cases hx with
  | remembered place k s hs hv =>
      simp only [Cluster.slot?, Option.bind_eq_bind, Option.bind_eq_some_iff] at hs
      obtain ⟨r, hr, a, ha, hs⟩ := hs
      exact votesIn_of_changes h hc hL r (List.mem_of_getElem? hr) a ha k s x hs hv
  | promised n y q p held hm hv => exact voted_of_promise h hc hL hm hv
  | collected s p hs hp hv =>
      obtain ⟨n, hs⟩ := List.mem_iff_getElem?.1 hs
      obtain ⟨a, ha, hap⟩ := List.mem_filterMap.1 hp
      obtain ⟨t, status⟩ := s
      cases status with
      | returned outcome => cases ha
      | running round answers =>
          have hr : Running _ (Minute.own n w.minutes) n t round answers := (trace_of_changes h hs).stands
          obtain ⟨_, ha, rfl⟩ := List.mem_filterMap.1 ha
          obtain ⟨i, hi⟩ := List.mem_iff_getElem?.1 ha
          have hlt : i < t.peers.length := hr.heard.length ▸ (List.getElem?_eq_some_iff.1 hi).1
          obtain ⟨held, hm⟩ := (hr.heard.met i _ a (List.getElem?_eq_getElem hlt) hi).promise hap
          exact voted_of_promise h hc hL (Minute.own_subset hm) hv
  | requested n q m hm hq hv => exact hv ▸ List.mem_map_of_mem (hL (mem_proposals.2 ⟨n, q, hm, hq⟩))

omit h hc hL

theorem ballot_eq_of_proposal? {q : Request} {m : Proposal} (h : q.proposal? = some m) : q.ballot = m.ballot := by
  cases q with
  | prepare m' => cases h
  | accept m' => exact congrArg Proposal.ballot (Option.some.inj h)
  | learn m' => exact congrArg Proposal.ballot (Option.some.inj h)

theorem Authored.action_eq (h : Authored w) {x y : Vote} (hx : x ∈ w.proposals.map Proposal.vote)
    (hy : y ∈ w.proposals.map Proposal.vote) (hb : x.ballot = y.ballot) : x.action = y.action := by
  obtain ⟨m, hm, rfl⟩ := List.mem_map.1 hx
  obtain ⟨m', hm', rfl⟩ := List.mem_map.1 hy
  obtain ⟨n, q, hq, hqm⟩ := mem_proposals.1 hm
  obtain ⟨n', q', hq', hqm'⟩ := mem_proposals.1 hm'
  have hbq : q.ballot = q'.ballot :=
    (ballot_eq_of_proposal? hqm).trans (hb.trans (ballot_eq_of_proposal? hqm').symm)
  exact (h.unique n q n' q' hq hq' hbq).2 m hqm m' hqm'

/-- No ballot serves two attempts, as the ballots that sessions have used are issued, and the next one is not. -/
theorem nodup_attempts (h : Changes κ (start c) w) (hc : (c.proposers.map (·.issuer.id)).Nodup)
    (hb : (start c).bounded) : (w.minutes.filterMap Minute.attempt?).Nodup := by
  induction h with
  | refl => exact List.nodup_nil
  | @tail w v hw hv ih =>
      have ha := authored_of_changes hw hc hb
      have hnew {place : Nat} {p : Proposer} (hp : w.cluster.proposers[place]? = some p)
          (hlt : p.issuer.advance.counter.toNat < Ballot.counterBound) :
          (p.issuer.upcoming :: w.minutes.filterMap Minute.attempt?).Nodup := by
        refine List.nodup_cons.2 ⟨fun hmem => ?_, ih⟩
        obtain ⟨e, he, heb⟩ := List.mem_filterMap.1 hmem
        cases e with
        | closed n outcome => cases heb
        | served n x q reply held => cases heb
        | called n q =>
            cases q with
            | prepare m =>
                obtain ⟨j, hj, hi⟩ := ha.issued n _ he
                have hbm : m.ballot = p.issuer.upcoming := Option.some.inj heb
                exact not_issued_upcoming hw hc ha (List.mem_of_getElem? hp) hlt hj (hbm ▸ hi)
            | accept m => cases heb
            | learn m => cases heb
      cases hv with
      | opened place action rest p hp hlt => exact hnew hp hlt
      | retried n t round answers p hs hall hn hp hlt => exact hnew hp hlt
      | asked n t round next answers hs hall hn =>
          have hc := round.conclusion t.config (answers.filterMap id)
          rw [hn] at hc
          cases hc <;> exact ih
      | unwired | missed | served | stranded | closed | operated => exact ih

/-- A ballot names one attempt and one action, wherever votes under it are met with, so that it does not matter in
which order the answers to a request are taken. Proposals may come to a replica late or again, but no others than
those of the sessions. -/
theorem attributed_of_genuine (hc : c.Blank) (hd : (c.proposers.map (·.issuer.id)).Nodup)
    (h : Run (.genuine w.proposals) (start c) w) :
    (w.minutes.filterMap Minute.attempt?).Nodup ∧
      (∀ u, Run (.genuine w.proposals) (start c) u → Run (.genuine w.proposals) u w →
        ∀ x y, u.Found x → w.Found y → x.ballot = y.ballot → x.action = y.action) ∧
      (∀ s ∈ w.sessions, ∀ promises, promises.Perm s.promises → chooseValue promises = chooseValue s.promises) ∧
      ∀ (t : Mandate) (round : Round) (answers : List (Option Answer)), ⟨t, .running round answers⟩ ∈ w.sessions →
        ∀ answers', answers'.Perm (answers.filterMap id) →
          round.conclude t.config answers' = round.conclude t.config (answers.filterMap id) := by
  have ha := authored_of_changes h.changes hd h.bounded_start
  have hfound (x : Vote) (hx : w.Found x) := voted_of_found h.changes hc (List.Subset.refl _) hx
  have hchoose : ∀ s ∈ w.sessions, ∀ promises, promises.Perm s.promises →
      chooseValue promises = chooseValue s.promises := by
    intro s hs promises hp
    refine chooseValue_perm hp fun p hp q hq x y hx hy => ha.action_eq (hfound x ?_) (hfound y ?_)
    · exact .collected s p hs hp hx
    · exact .collected s q hs hq hy
  refine ⟨nodup_attempts h.changes hd h.bounded_start, ?_, hchoose, ?_⟩
  · intro u hu huw x y hx hy
    exact ha.action_eq (voted_of_found hu.changes hc (proposals_subset huw.changes) hx) (hfound y hy)
  · intro t round answers hs answers' hp
    exact Round.conclude_perm _ _ hp (hchoose _ hs _ (hp.filterMap _))

/-- The accept of a first attempt reaches a replica after its acceptor was replaced, and the promises of another
round tell of votes under different ballots. -/
theorem attributed_of_genuine_late :
    let c := Cluster.plain 3 [⟨0, 0, by decide⟩, ⟨1, 2, by decide⟩]
    let late : Proposal := ⟨.pack 1 0, 0, .put "k" "v"⟩
    let events := [Event.round 0 (.put "k" "v")] ++ Event.phase 0 [.pass, .pass, .pass] ++
      Event.phase 0 [.lost, .fail, .refuse] ++ Event.phase 0 [.pass, .pass, .lost] ++ [Event.call 0 1 .lost] ++
      [.operate 2 .crash, .operate 2 .reset, .operate 2 (.acceptor true (.accept late))] ++
      [Event.round 1 (.put "k" "w"), .call 1 0 .pass, .call 1 1 .pass, .call 1 2 .pass]
    let w := (start c).play events
    let collected : List Promise := [⟨.pack 3 1, some ⟨.pack 1 0, .put "k" "v"⟩⟩,
      ⟨.pack 3 1, some ⟨.pack 2 0, .put "k" "v"⟩⟩, ⟨.pack 3 1, some ⟨.pack 1 0, .put "k" "v"⟩⟩]
    c.Blank ∧ (c.proposers.map (·.issuer.id)).Nodup ∧ Run (.genuine w.proposals) (start c) w ∧
      (w.minutes.filterMap Minute.attempt?).Nodup ∧
      w.minutes.filterMap Minute.attempt? = [.pack 3 1, .pack 2 0, .pack 1 0] ∧
      ∀ promises, promises.Perm collected → chooseValue promises = chooseValue collected := by
  intro c late events w collected
  have hc : c.Blank := Cluster.blank_of_start fun r hr => by
    obtain ⟨id, stream, rfl⟩ := Cluster.fresh_plain 3 _ r hr
    exact ⟨id, none, stream, rfl⟩
  have hd : (c.proposers.map (·.issuer.id)).Nodup := by decide +kernel
  have h : Run (.genuine w.proposals) (start c) w := run_play (by decide +kernel)
  obtain ⟨hn, -, hp, -⟩ := attributed_of_genuine hc hd h
  have hs : w.sessions[1]?.map Session.promises = some collected := by decide +kernel
  obtain ⟨s, hs, he⟩ := Option.map_eq_some_iff.1 hs
  exact ⟨hc, hd, h, hn, by decide +kernel, he ▸ hp s (List.mem_of_getElem? hs)⟩

end Synod

end SynodStore

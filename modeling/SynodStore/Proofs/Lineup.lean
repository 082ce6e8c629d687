import SynodStore.Proofs.Phases
import SynodStore.Proofs.Slots

namespace SynodStore

open Scenario (Fate)

namespace Slot

def prepare (s : Slot) (m : Prepare) : Option Promise × Slot :=
  if s.admitsPrepare m.ballot then (some ⟨m.ballot, s.accepted⟩, { s with promised := some m.ballot }) else (none, s)

def accept (s : Slot) (m : Proposal) : Option Vote × Slot :=
  if s.admitsAccept m.ballot then (some m.vote, { s with accepted := some m.vote }) else (none, s)

end Slot

/-- All that a replica has of one key. -/
structure Cell where
  slot : Slot
  applied : Option Ballot
  value : Option String

namespace Cell

def fresh : Cell := ⟨.fresh, none, none⟩

def serve (c : Cell) : Request → Reply × Cell
  | .prepare m => (.promise (c.slot.prepare m).1, { c with slot := (c.slot.prepare m).2 })
  | .accept m => (.vote (c.slot.accept m).1, { c with slot := (c.slot.accept m).2 })
  | .learn m =>
    (.learned, if c.applied = some m.ballot then { c with slot := .fresh }
      else ⟨.fresh, m.action.value?.map fun _ => m.ballot, m.action.value?⟩)

def meet (q : Request) (c : Cell) (f : Fate) : Answer × Cell :=
  if f.carried then (f.answer q (c.serve q).1, (c.serve q).2) else (f.answer q q.refusal, c)

def heard (q : Request) (cells : List Cell) (fates : List Fate) : List Answer :=
  List.zipWith (fun c f => (c.meet q f).1) cells fates

def held (q : Request) (cells : List Cell) (fates : List Fate) : List Cell :=
  List.zipWith (fun c f => (c.meet q f).2) cells fates

theorem heard_pass (q : Request) (cells : List Cell) :
    heard q cells (cells.map fun _ => .pass) = cells.map fun x => .ok (x.serve q).1 := by
  rw [heard, List.zipWith_map_right, List.zipWith_self]
  rfl

theorem held_pass (q : Request) (cells : List Cell) :
    held q cells (cells.map fun _ => .pass) = cells.map fun x => (x.serve q).2 := by
  rw [held, List.zipWith_map_right, List.zipWith_self]
  rfl

def promising (ballot : Ballot) (x : Cell) : Answer :=
  .ok (.promise (some ⟨ballot, x.slot.accepted⟩))

def promised (ballot : Ballot) (x : Cell) : Cell :=
  { x with slot := { x.slot with promised := some ballot } }

def voted (v : Vote) (x : Cell) : Cell :=
  { x with slot := ⟨some v.ballot, some v⟩ }

theorem serve_prepare {x : Cell} {m : Prepare} (h : x.slot.admitsPrepare m.ballot) :
    x.serve (.prepare m) = (.promise (some ⟨m.ballot, x.slot.accepted⟩), x.promised m.ballot) := by
  simp [serve, Slot.prepare, h, promised]

theorem serve_accept_promised (x : Cell) (m : Proposal) :
    (x.promised m.ballot).serve (.accept m) = (.vote (some m.vote), x.voted m.vote) := by
  have ha : (x.promised m.ballot).slot.admitsAccept m.ballot := by
    simp [promised, Slot.admitsAccept]
  simp only [serve, Slot.accept, ha, if_true]
  rfl

end Cell

structure Replica.Holds (k : String) (r : Replica) (c : Cell) : Prop where
  slot : ∃ a, r.supervisor.lease = .live a none ∧ a.slot k = c.slot
  applied : r.learner.lastApplied? k = c.applied
  value : r.get? k = c.value

def Cluster.Lineup (c : Cluster) (k : String) (cells : List Cell) : Prop :=
  List.Forall₂ (Replica.Holds k) c.replicas cells

namespace Acceptor

variable {a : Acceptor}

theorem slot_clear_self (k : String) : (a.clear k).slot k = .fresh := by
  rw [slot, slot?_clear_self, Option.getD_none]

theorem reply_prepare (m : Prepare) : (a.prepare m).1 = ((a.slot m.key).prepare m).1 := by
  simp only [prepare, Slot.prepare]
  split <;> rfl

theorem slot_prepare (m : Prepare) : (a.prepare m).2.slot m.key = ((a.slot m.key).prepare m).2 := by
  simp only [prepare, Slot.prepare]
  split
  · exact slot_update_self _ _
  · rfl

theorem reply_accept (m : Proposal) : (a.accept m).1 = ((a.slot m.action.key).accept m).1 := by
  simp only [accept, Slot.accept]
  split <;> rfl

theorem slot_accept (m : Proposal) : (a.accept m).2.slot m.action.key = ((a.slot m.action.key).accept m).2 := by
  simp only [accept, Slot.accept]
  split
  · exact slot_update_self _ _
  · rfl

end Acceptor

theorem Replica.Holds.answer {r : Replica} {q : Request} {c : Cell} (h : r.Holds q.key c) :
    (r.answer q).1 = (c.serve q).1 ∧ (r.answer q).2.Holds q.key (c.serve q).2 := by
  obtain ⟨slot, applied, value⟩ := c
  obtain ⟨⟨a, hl, rfl⟩, rfl, rfl⟩ := h
  cases q with
  | prepare m =>
      simp only [Replica.answer, Replica.prepare, Supervisor.serve_of_steady hl, Option.join_some]
      exact ⟨congrArg Reply.promise (Acceptor.reply_prepare m), ⟨_, rfl, Acceptor.slot_prepare m⟩, rfl, rfl⟩
  | accept m =>
      simp only [Replica.answer, Replica.accept, Supervisor.serve_of_steady hl, Option.join_some]
      exact ⟨congrArg Reply.vote (Acceptor.reply_accept m), ⟨_, rfl, Acceptor.slot_accept m⟩, rfl, rfl⟩
  | learn m =>
      have hslot : ∃ b, (r.learn m).supervisor.lease = .live b none ∧ b.slot m.action.key = .fresh :=
        ⟨a.clear m.action.key, by simp [Replica.learn, Supervisor.clear, Supervisor.visit, hl],
          Acceptor.slot_clear_self _⟩
      refine ⟨rfl, ?_⟩
      by_cases hm : r.learner.lastApplied? m.action.key = some m.ballot
      · simp only [Replica.answer, Request.key, Cell.serve, hm, if_true]
        have hlearn : (r.learn m).learner = r.learner := Learner.learn_of_applied hm
        exact ⟨hslot, by rw [hlearn, hm], by rw [Replica.get?, hlearn, Replica.get?]⟩
      · simp only [Replica.answer, Request.key, Cell.serve, hm, if_false]
        have hlearn := Learner.learn_of_not_applied hm
        refine ⟨hslot, ?_, ?_⟩
        · simp only [Replica.learn, hlearn, Learner.lastApplied?, Learner.getElem?_record, if_true]
        · simp only [Replica.learn, hlearn, Replica.get?, Action.getElem?_apply, if_true]

theorem exists_append_of_forall₂ {α β : Type} {R : α → β → Prop} {l : List α} {l₁ l₂ : List β}
    (h : List.Forall₂ R l (l₁ ++ l₂)) : ∃ a b, l = a ++ b ∧ List.Forall₂ R a l₁ ∧ List.Forall₂ R b l₂ :=
  ⟨_, _, (List.take_append_drop l₁.length l).symm, List.forall₂_take_append l l₁ l₂ h,
    List.forall₂_drop_append l l₁ l₂ h⟩

namespace Cluster

variable {c : Cluster} {q : Request}

theorem lineup_of_fresh (h : c.Fresh) (k : String) : c.Lineup k (List.replicate c.replicas.length .fresh) := by
  refine List.forall₂_iff_get.2 ⟨by simp, fun i h₁ h₂ => ?_⟩
  obtain ⟨id, stream, hr⟩ := h _ (List.getElem_mem h₁)
  simp only [List.get_eq_getElem, hr, List.getElem_replicate]
  refine ⟨⟨.fresh id, rfl, Acceptor.slot_fresh id k⟩, ?_, ?_⟩
  · simp [Replica.start, Learner.fresh, Learner.lastApplied?, Cell.fresh]
  · simp [Replica.start, Learner.fresh, Replica.get?, Cell.fresh]

theorem calls_range' {done rest after : List Replica} {cells : List Cell} {fates : List Fate}
    (hr : c.replicas = done ++ rest ++ after) (h : List.Forall₂ (Replica.Holds q.key) rest cells)
    (hl : fates.length = cells.length) :
    (calls q ((List.range' done.length cells.length).zip fates) c).1 = Cell.heard q cells fates ∧
      ∃ rest', (calls q ((List.range' done.length cells.length).zip fates) c).2.replicas = done ++ rest' ++ after ∧
        List.Forall₂ (Replica.Holds q.key) rest' (Cell.held q cells fates) := by
  induction h generalizing done fates c with
  | nil => exact ⟨rfl, [], hr, .nil⟩
  | @cons r s rest cells hs _ ih =>
      cases fates with
      | nil => cases hl
      | cons f fates =>
          obtain ⟨hreply, hholds⟩ := hs.answer
          have hcall : call done.length q c =
              ((s.serve q).1, { c with replicas := done ++ (r.answer q).2 :: rest ++ after }) := by
            rw [call_of_some (r := r) (by simp [hr]), hreply]
            simp [hr]
          obtain ⟨r', hmeet, hr'⟩ : ∃ r', meet q done.length f c =
              ((s.meet q f).1, { c with replicas := done ++ r' :: rest ++ after }) ∧
              r'.Holds q.key (s.meet q f).2 := by
            cases hf : f.carried with
            | true =>
                refine ⟨(r.answer q).2, ?_, ?_⟩
                · simp [meet, Cell.meet, hf, hcall]
                · simpa [Cell.meet, hf] using hholds
            | false =>
                refine ⟨r, ?_, ?_⟩
                · simp [meet, Cell.meet, hf, ← hr]
                · simpa [Cell.meet, hf] using hs
          obtain ⟨ha, rest', hrest, hholds'⟩ := @ih { c with replicas := done ++ r' :: rest ++ after } (done ++ [r'])
            fates (by simp) (Nat.succ.inj hl)
          simp only [List.length_append, List.length_singleton] at ha hrest
          simp only [List.length_cons, List.range'_succ, List.zip_cons_cons, calls, hmeet, ha, hrest]
          exact ⟨rfl, r' :: rest', by simp, .cons hr' hholds'⟩

end Cluster

namespace Synod

/-- Some run comes to a state where the replicas have this of the key, whatever the minutes say. -/
def Reaches (κ : Conditions) (u : Synod) (k : String) (cells : List Cell) (proposers : List Proposer)
    (sessions : List Session) : Prop :=
  ∃ w, Run κ u w ∧ w.cluster.Lineup k cells ∧ w.cluster.proposers = proposers ∧ w.sessions = sessions

variable {κ : Conditions} {u w : Synod} {n place : Nat} {t : Mandate} {round : Round} {k : String}
variable {cells : List Cell} {proposers : List Proposer} {sessions : List Session} {p : Proposer}

theorem reaches_start {c : Cluster} (hc : c.Fresh) (hb : (start c).bounded) :
    Reaches κ (start c) k (List.replicate c.replicas.length .fresh) c.proposers [] :=
  ⟨_, .refl hb, Cluster.lineup_of_fresh hc k, rfl, rfl⟩

namespace Reaches

section

variable (h : Reaches κ u k cells proposers sessions) (place : Nat) (hp : proposers[place]? = some p)
  (hne : p.peers ≠ []) (hb : p.issuer.advance.counter.toNat < Ballot.counterBound) (action : Action)

include h hp hne hb

theorem enter : Reaches κ u k cells (proposers.set place { p with issuer := p.issuer.advance })
    (sessions ++ [Mandate.facing ⟨place, p.config, p.id, p.peers, action, none⟩
      (.first action p.issuer.upcoming)]) := by
  obtain ⟨w, h, hl, rfl, rfl⟩ := h
  have hrun := h.step (.round place action) rfl
  rw [Synod.step, enter_eq action none hp hne (lt_of_bounded h.bounded hp)] at hrun
  exact ⟨_, hrun (bounded_on_spend h.bounded hb), hl, rfl, rfl⟩

theorem propose {rest : Nat} (hr : p.config.maxRounds.toNat = rest + 1) :
    Reaches κ u k cells (proposers.set place { p with issuer := p.issuer.advance })
      (sessions ++ [Mandate.facing ⟨place, p.config, p.id, p.peers, action, some rest⟩
        (.first action p.issuer.upcoming)]) := by
  obtain ⟨w, h, hl, rfl, rfl⟩ := h
  have hrun := h.step (.propose place action) rfl
  rw [Synod.step, propose_eq hp hr, enter_eq action _ hp hne (lt_of_bounded h.bounded hp)] at hrun
  exact ⟨_, hrun (bounded_on_spend h.bounded hb), hl, rfl, rfl⟩

end

theorem hear {before after : List Cell} {done : List Answer} {fates : List Fate}
    (h : Reaches κ u k (before ++ cells ++ after) proposers sessions)
    (hs : sessions[n]? = some
      ⟨t, .running round (done.map some ++ List.replicate (cells.length + after.length) none)⟩)
    (hp : t.peers = List.range (before.length + cells.length + after.length)) (hd : done.length = before.length)
    (hk : (round.request t.sender).key = k) (hl : fates.length = cells.length)
    (hf : ∀ f ∈ fates, κ.fate (round.request t.sender) f) :
    Reaches κ u k (before ++ Cell.held (round.request t.sender) cells fates ++ after) proposers
      (sessions.set n ⟨t, .running round ((done ++ Cell.heard (round.request t.sender) cells fates).map some ++
        List.replicate after.length none)⟩) := by
  obtain ⟨w, h, hlineup, rfl, rfl⟩ := h
  subst hk
  obtain ⟨ab, rc, hr, hab, hrc⟩ := exists_append_of_forall₂ hlineup
  obtain ⟨ra, rb, rfl, hra, hrb⟩ := exists_append_of_forall₂ hab
  obtain ⟨hans, rb', hr', hrb'⟩ := Cluster.calls_range' hr hrb hl
  rw [hra.length_eq] at hans hr'
  have hpeers : t.peers = List.range' 0 before.length ++ List.range' before.length cells.length ++
      List.range' (before.length + cells.length) after.length := by
    have hmid := List.range'_append_1 (s := 0) (m := before.length) (n := cells.length)
    have hall := List.range'_append_1 (s := 0) (m := before.length + cells.length) (n := after.length)
    rw [Nat.zero_add] at hmid hall
    rw [hp, List.range_eq_range', hmid, hall]
  have hdone : done.length = (List.range' 0 before.length).length := by simp [hd]
  obtain ⟨L, hL⟩ := h.calls hpeers hdone (by simp [hl]) hf (by simpa using hs)
  rw [hans] at hL
  refine ⟨_, hL, ?_, Cluster.proposers_calls _ _, by simp⟩
  rw [Cluster.Lineup, hr']
  exact List.rel_append (List.rel_append hra hrb') hrc

section

variable {answers : List Answer} (h : Reaches κ u k cells proposers sessions)
  (hs : sessions[n]? = some ⟨t, .running round (answers.map some)⟩)

include h hs

theorem ask {next : Round} (hn : round.conclude t.config answers = .ask next) :
    Reaches κ u k cells proposers (sessions.set n (t.facing next)) := by
  obtain ⟨w, h, hl, rfl, rfl⟩ := h
  have hrun := h.proceed hs
  rw [hn] at hrun
  exact ⟨_, hrun h.bounded, hl, rfl, rfl⟩

theorem retry (hn : round.conclude t.config answers = .retry) (hp : proposers[t.place]? = some p)
    (hb : p.issuer.advance.counter.toNat < Ballot.counterBound) :
    Reaches κ u k cells (proposers.set t.place { p with issuer := p.issuer.advance })
      (sessions.set n (t.facing (.second round.action p.issuer.upcoming))) := by
  obtain ⟨w, h, hl, rfl, rfl⟩ := h
  have hrun := h.proceed hs
  simp only [hn, settle, Cluster.launch_of_lt _ hp (lt_of_bounded h.bounded hp)] at hrun
  exact ⟨_, hrun (bounded_on_spend h.bounded hb), hl, rfl, rfl⟩

theorem finish {outcome : Except Failure Vote} (hn : round.conclude t.config answers = .finished outcome)
    (hr : t.remaining? outcome = none) :
    Reaches κ u k cells proposers (sessions.set n (t.returning outcome)) := by
  obtain ⟨w, h, hl, rfl, rfl⟩ := h
  have hrun := h.proceed hs
  simp only [hn, settle, close, hr] at hrun
  exact ⟨_, hrun h.bounded, hl, rfl, rfl⟩

end

end Reaches

end Synod

end SynodStore

import SynodStore.Proofs.Attribution

namespace SynodStore

open Scenario (Fate)

variable {S S' : List Action} {k : String}

def Action.From (S : List Action) (k : String) (a : Action) : Prop :=
  a ∈ S ∧ a.key = k

theorem Action.From.mono {a : Action} (h : a.From S k) (hS : S ⊆ S') : a.From S' k :=
  ⟨hS h.1, h.2⟩

def Event.action? : Event → Option Action
  | round _ action => some action
  | propose _ action => some action
  | _ => none

def submitted (events : List Event) : List Action :=
  events.filterMap Event.action?

theorem Learner.store_learn {l : Learner} {p : Proposal} {v : String} (h : (l.learn p).store[k]? = some v) :
    l.store[k]? = some v ∨ p.action = .put k v := by
  by_cases hp : l.lastApplied? p.action.key = some p.ballot
  · exact .inl (learn_of_applied hp ▸ h)
  · rw [learn_of_not_applied hp, Action.getElem?_apply] at h
    split at h
    · rename_i hk
      cases ha : p.action with
      | put k' v' =>
          rw [ha] at hk h
          obtain rfl := hk
          exact .inr (congrArg _ (Option.some.inj h))
      | delete k' =>
          rw [ha] at h
          cases h
    · exact .inl h

namespace Replica

def Operation.request? : Operation → Option Request
  | acceptor true (.prepare m) => some (.prepare m)
  | acceptor true (.accept m) => some (.accept m)
  | learn m => some (.learn m)
  | _ => none

def Operation.forgets : Operation → Bool
  | check _ => true
  | crash => true
  | reset => true
  | acceptor _ (.clear _) => true
  | _ => false

variable {r : Replica} {q : Request} {o : Operation} {p : Promise}

structure Sourced (S : List Action) (r : Replica) : Prop where
  votes : r.VotesIn fun k v => v.action.From S k
  store : ∀ k v, r.get? k = some v → .put k v ∈ S

theorem Operation.proposal?_of_forgets (h : o.forgets) : o.proposal? = none := by
  rcases o with _ | _ | _ | ⟨_, _ | _ | _⟩ | _ | _ <;> first | rfl | cases h

theorem Operation.proposal?_of_request (h : o.request? = some q) : o.proposal? = q.proposal? := by
  rcases o with _ | _ | _ | ⟨_ | _, _ | _ | _⟩ | _ | _ <;> cases h <;> rfl

theorem get?_answer (h : (r.answer q).2.get? k ≠ r.get? k) : q.key = k := by
  cases q with
  | prepare m => exact absurd rfl h
  | accept m => exact absurd rfl h
  | learn m => exact Decidable.by_contra fun hk => h (Learner.store_learn_of_ne hk)

theorem promise_of_answer (h : (r.answer q).1 = .promise (some p)) : ∃ m, q = .prepare m := by
  cases q with
  | prepare m => exact ⟨m, rfl⟩
  | accept m => cases h
  | learn m => cases h

theorem get?_perform_of_forgets (ho : o.forgets) : (perform o r).2.get? k = r.get? k := by
  cases o with
  | learn m => cases ho
  | store key value => cases ho
  | _ => rfl

theorem get?_perform_of_request (ho : o.request? = some q) (h : (perform o r).2.get? k ≠ r.get? k) : q.key = k := by
  cases o with
  | learn m =>
      obtain rfl := Option.some.inj ho
      exact get?_answer (q := .learn m) h
  | store key value => cases ho
  | _ => exact absurd rfl h

namespace Sourced

theorem mono (h : r.Sourced S) (hS : S ⊆ S') : r.Sourced S' where
  votes := h.votes.mono fun _ ha => ha.mono fun _ _ hv => hv.mono hS
  store k v hv := hS (h.store k v hv)

theorem learn (h : r.Sourced S) {m : Proposal} (hm : m.action ∈ S) : (r.learn m).Sourced S where
  votes := h.votes.answer (q := .learn m) nofun
  store k v hv := by
    rcases Learner.store_learn hv with hv | hv
    · exact h.store k v hv
    · exact hv ▸ hm

theorem answer (h : r.Sourced S) (hq : ∀ m ∈ q.proposal?, m.action ∈ S) : (r.answer q).2.Sourced S := by
  cases q with
  | prepare m => exact ⟨h.votes.answer nofun, h.store⟩
  | accept m =>
      refine ⟨h.votes.answer fun m' hm => ?_, h.store⟩
      obtain rfl := Request.accept.inj hm
      exact ⟨hq m rfl, rfl⟩
  | learn m => exact h.learn (hq m rfl)

theorem promise (h : r.Sourced S) (hp : (r.answer q).1 = .promise (some p)) :
    ∀ v ∈ p.accepted, v.action.From S q.key := by
  obtain ⟨m, rfl⟩ := promise_of_answer hp
  exact fun v hv => h.votes.promise hp hv

theorem perform (h : r.Sourced S) (ho : o.forgets ∨ ∃ q, o.request? = some q ∧ ∀ m ∈ q.proposal?, m.action ∈ S) :
    (perform o r).2.Sourced S := by
  have hproposal (m : Proposal) (hm : o.proposal? = some m) : m.action ∈ S := by
    rcases ho with ho | ⟨q, hq, ho⟩
    · rw [Operation.proposal?_of_forgets ho] at hm
      cases hm
    · exact ho m (Operation.proposal?_of_request hq ▸ hm)
  refine ⟨h.votes.perform fun m hm => ⟨hproposal m hm, rfl⟩, ?_⟩
  cases o with
  | check times => exact h.store
  | crash => exact h.store
  | reset => exact h.store
  | acceptor live operation => exact h.store
  | learn m => exact (h.learn (hproposal m rfl)).store
  | store key value => rcases ho with ho | ⟨q, hq, -⟩ <;> contradiction

end Sourced

end Replica

namespace Cluster

variable {c : Cluster} {q : Request} {place : Nat}

def Sourced (S : List Action) (c : Cluster) : Prop :=
  ∀ r ∈ c.replicas, r.Sourced S

theorem Sourced.visit {α : Type} {absent : α} {f : Replica → α × Replica} (h : c.Sourced S)
    (hf : ∀ r, r.Sourced S → (f r).2.Sourced S) : (c.visit absent place f).2.Sourced S := by
  intro r hr
  rcases mem_of_visit hr with hr | ⟨r₀, hr₀, rfl⟩
  · exact h r hr
  · exact hf r₀ (h r₀ hr₀)

theorem Sourced.call (h : c.Sourced S) (hq : ∀ m ∈ q.proposal?, m.action ∈ S) : (Cluster.call place q c).2.Sourced S :=
  h.visit fun _ hr => hr.answer hq

theorem Sourced.promise (h : c.Sourced S) {p : Promise} (hp : (Cluster.call place q c).1 = .promise (some p)) :
    ∀ v ∈ p.accepted, v.action.From S q.key := by
  cases hr : c.replicas[place]? with
  | none =>
      rw [call_of_none hr] at hp
      exact absurd hp (by cases q <;> simp [Request.refusal])
  | some r =>
      rw [call_of_some hr] at hp
      exact (h r (List.mem_of_getElem? hr)).promise hp

theorem replicas_launch (next : Ballot → Round) : (c.launch place next).2.replicas = c.replicas := by
  simp only [launch, issue]
  cases c.proposers[place]? with
  | none => rfl
  | some p =>
      dsimp only
      cases p.issuer.next.1 <;> rfl

theorem exists_of_launch {next : Ballot → Round} {round : Round} (h : (c.launch place next).1 = .ok round) :
    ∃ b, round = next b := by
  simp only [launch] at h
  split at h
  · exact ⟨_, (Except.ok.inj h).symm⟩
  · cases h

theorem read_visit {α : Type} {absent : α} {f : Replica → α × Replica} {x : Nat}
    (h : (c.visit absent place f).2.read x k ≠ c.read x k) : ∃ r ∈ c.replicas, (f r).2.get? k ≠ r.get? k := by
  simp only [Cluster.visit] at h
  split at h
  · exact absurd rfl h
  · rename_i r hr
    refine ⟨r, List.mem_of_getElem? hr, fun he => h ?_⟩
    by_cases hx : place = x
    · subst x
      simp only [read, List.getElem?_set_self (List.getElem?_eq_some_iff.1 hr).1, hr]
      exact he
    · simp only [read, List.getElem?_set_ne hx]

theorem read_congr {c' : Cluster} (h : c'.replicas = c.replicas) (x : Nat) : c'.read x k = c.read x k := by
  rw [read, read, h]

end Cluster

structure Request.Sourced (S : List Action) (t : Mandate) (q : Request) : Prop where
  key : q.key = t.action.key
  action : ∀ m ∈ q.proposal?, m.action ∈ S

structure Round.Sourced (S : List Action) (t : Mandate) (r : Round) : Prop where
  action : r.action = t.action
  value : ∀ value ∈ r.stage.value?, value.From S t.action.key

structure Session.Sourced (S : List Action) (s : Session) : Prop where
  action : s.mandate.action ∈ S
  round : ∀ round answers, s.status = .running round answers → round.Sourced S s.mandate
  promises : ∀ round answers, s.status = .running round answers → ∀ a, some a ∈ answers →
    ∀ p ∈ a.promise?, ∀ v ∈ p.accepted, v.action.From S s.mandate.action.key

def Minute.Sourced (S : List Action) (t : Mandate) : Minute → Prop
  | called _ q => q.Sourced S t
  | served _ _ q reply _ => q.Sourced S t ∧
    ∀ p, reply = .promise (some p) → ∀ v ∈ p.accepted, v.action.From S t.action.key
  | closed _ _ => True

theorem Request.key_of_proposal {q : Request} {m : Proposal} (h : q.proposal? = some m) : q.key = m.action.key := by
  cases q <;> cases h <;> rfl

theorem Request.Sourced.mono {t : Mandate} {q : Request} (h : q.Sourced S t) (hS : S ⊆ S') : q.Sourced S' t :=
  ⟨h.key, fun m hm => hS (h.action m hm)⟩

theorem Minute.Sourced.mono {t : Mandate} {e : Minute} (h : e.Sourced S t) (hS : S ⊆ S') : e.Sourced S' t := by
  cases e with
  | called n q => exact Request.Sourced.mono h hS
  | served n x q reply held => exact ⟨h.1.mono hS, fun p hp v hv => (h.2 p hp v hv).mono hS⟩
  | closed n outcome => trivial

theorem Round.Sourced.request {t : Mandate} {r : Round} (h : r.Sourced S t) : (r.request t.sender).Sourced S t := by
  refine ⟨?_, fun m hm => ?_⟩
  · simp only [Round.request]
    split
    · exact congrArg Action.key h.action
    · exact (h.value _ (by simp [Stage.value?, *])).2
    · exact (h.value _ (by simp [Stage.value?, *])).2
  · rw [Round.proposal?_request, Option.mem_map] at hm
    obtain ⟨value, hv, rfl⟩ := hm
    exact (h.value value hv).1

namespace Session

variable {s : Session} {t : Mandate} {round : Round} {answers : List (Option Answer)}

theorem Sourced.mono (h : s.Sourced S) (hS : S ⊆ S') : s.Sourced S' where
  action := hS h.action
  round round answers hs :=
    let hr := h.round round answers hs
    ⟨hr.action, fun v hv => (hr.value v hv).mono hS⟩
  promises round answers hs a ha p hp v hv := (h.promises round answers hs a ha p hp v hv).mono hS

theorem sourced_returning (ht : t.action ∈ S) (outcome : Except Failure Vote) : (t.returning outcome).Sourced S :=
  ⟨ht, nofun, nofun⟩

theorem sourced_facing (ht : t.action ∈ S) (hr : round.Sourced S t) : (t.facing round).Sourced S where
  action := ht
  round _ _ h := by
    cases h
    exact hr
  promises _ _ h a ha := by
    cases h
    simp at ha

theorem Sourced.next (h : Sourced S ⟨t, .running round answers⟩) {c : Config} {next : Round}
    (hn : round.conclude c (answers.filterMap id) = .ask next) : next.Sourced S t := by
  obtain ⟨ha, hv⟩ := h.round _ _ rfl
  have hconcl := round.conclusion c (answers.filterMap id)
  rw [hn] at hconcl
  cases hconcl with
  | promised hr hm =>
      refine ⟨ha, fun value hvalue => ?_⟩
      obtain rfl := Option.some.inj hvalue
      cases hc : chooseValue ((answers.filterMap id).filterMap Answer.promise?) with
      | none => exact ⟨ha ▸ h.action, ha ▸ rfl⟩
      | some value =>
          obtain ⟨p, hp, v, hpv, rfl⟩ := exists_of_chooseValue hc
          obtain ⟨a, ha, hp⟩ := List.mem_filterMap.1 hp
          obtain ⟨_, ha, rfl⟩ := List.mem_filterMap.1 ha
          exact h.promises _ _ rfl a ha p hp v hpv
  | degraded value hr =>
      exact ⟨ha, fun value' hvalue => hv value' (hr ▸ hvalue)⟩
  | accepted value hr =>
      exact ⟨ha, fun value' hvalue => hv value' (hr ▸ hvalue)⟩

theorem Sourced.hear (h : Sourced S ⟨t, .running round answers⟩) {a : Answer} (i : Nat)
    (ha : ∀ p ∈ a.promise?, ∀ v ∈ p.accepted, v.action.From S t.action.key) :
    Sourced S ⟨t, .running round (answers.set i (some a))⟩ where
  action := h.action
  round _ _ he := by
    cases he
    exact h.round round answers rfl
  promises _ _ he a' ha' := by
    cases he
    rcases List.mem_or_eq_of_mem_set ha' with ha' | ha'
    · exact h.promises round answers rfl a' ha'
    · obtain rfl := Option.some.inj ha'
      exact ha

theorem session_minute (s : Session) (n : Nat) : (s.minute n).session = n := by
  simp only [minute]
  split <;> rfl

theorem sourced_minute (h : s.Sourced S) (n : Nat) : (s.minute n).Sourced S s.mandate := by
  obtain ⟨t, ⟨round, answers⟩ | outcome⟩ := s
  · exact (h.round _ _ rfl).request
  · trivial

end Session

theorem Scenario.Fate.reply_of_answer {fate : Fate} {q : Request} {reply : Reply} {p : Promise}
    (h : (fate.answer q reply).promise? = some p) : reply = .promise (some p) := by
  cases fate with
  | pass =>
      cases reply with
      | promise answer => exact congrArg Reply.promise h
      | vote answer => cases h
      | learned => cases h
  | refuse => cases q <;> cases h
  | fail => cases h
  | lost => cases h

open Scenario.Fate (reply_of_answer)

namespace Synod

variable {v w : Synod} {n : Nat} {s s₀ : Session} {c : Cluster} {t : Mandate} {e : Event} {events : List Event}

/-- Nothing anywhere comes from anything but what was submitted on its key. -/
structure Sourced (S : List Action) (w : Synod) : Prop where
  cluster : w.cluster.Sourced S
  sessions : ∀ s ∈ w.sessions, s.Sourced S
  minutes : ∀ e ∈ w.minutes, ∃ s, w.sessions[e.session]? = some s ∧ e.Sourced S s.mandate

def sent (w : Synod) (q : Request) : Bool :=
  w.minutes.any fun
    | .called _ q' => q' = q
    | _ => false

/-- Besides what the proposers do, acceptors may forget, and requests may arrive late or more than once. -/
def admits (w : Synod) : Event → Bool
  | .operate _ o => o.forgets || o.request?.any w.sent
  | _ => true

def driven : Synod → List Event → Bool
  | _, [] => true
  | w, e :: es => w.admits e && driven (w.step e) es

inductive Serves (w : Synod) (n : Nat) : Event → Prop
  | call (i : Nat) (fate : Fate) : Serves w n (.call n i fate)
  | late (place : Nat) (o : Replica.Operation) (q : Request) (ho : o.request? = some q) (hq : .called n q ∈ w.minutes) :
      Serves w n (.operate place o)

theorem exists_called_of_sent {q : Request} (h : w.sent q) : ∃ n, .called n q ∈ w.minutes := by
  obtain ⟨e, he, h⟩ := List.any_eq_true.1 h
  cases e with
  | called n q' =>
      obtain rfl : q' = q := of_decide_eq_true h
      exact ⟨n, he⟩
  | served n x q' reply held => cases h
  | closed n outcome => cases h

theorem of_admits {place : Nat} {o : Replica.Operation} (h : w.admits (.operate place o)) :
    o.forgets ∨ ∃ q n, o.request? = some q ∧ .called n q ∈ w.minutes := by
  refine (Bool.or_eq_true_iff.1 h).imp_right fun h => ?_
  obtain ⟨q, hq, hs⟩ := (Option.any_eq_true _ _).1 h
  obtain ⟨n, hn⟩ := exists_called_of_sent hs
  exact ⟨q, n, hq, hn⟩

theorem replicas_enter (place : Nat) (action : Action) (rest : Option Nat) :
    (w.enter place action rest).cluster.replicas = w.cluster.replicas := by
  simp only [enter]
  split
  · rfl
  · split
    · rfl
    · exact Cluster.replicas_launch _

theorem replicas_propose (place : Nat) (action : Action) :
    (w.propose place action).cluster.replicas = w.cluster.replicas := by
  simp only [propose]
  split
  · exact replicas_enter ..
  · rfl

theorem replicas_proceed (n : Nat) : (w.proceed n).cluster.replicas = w.cluster.replicas := by
  simp only [proceed]
  split
  · split
    · rename_i t round answers _ _
      cases round.conclude t.config (answers.filterMap id) with
      | ask next => rfl
      | retry => exact Cluster.replicas_launch _
      | finished outcome =>
          simp only [settle, close]
          split
          · rfl
          · exact replicas_enter ..
    · rfl
  · rfl

namespace Sourced

theorem mono (h : w.Sourced S) (hS : S ⊆ S') : w.Sourced S' where
  cluster r hr := (h.cluster r hr).mono hS
  sessions s hs := (h.sessions s hs).mono hS
  minutes e he :=
    let ⟨s, hs, hm⟩ := h.minutes e he
    ⟨s, hs, hm.mono hS⟩

theorem advance {L : List Minute} (h : w.Sourced S) (hc : v.cluster.Sourced S) (hs : s.Sourced S)
    (hv : ∀ m, v.sessions[m]? = if m = n then some s else w.sessions[m]?)
    (hn : ∀ s₀, w.sessions[n]? = some s₀ → s.mandate = s₀.mandate) (hm : v.minutes = L ++ w.minutes)
    (hL : ∀ e ∈ L, e.session = n ∧ e.Sourced S s.mandate) : v.Sourced S where
  cluster := hc
  sessions s' hs' := by
    obtain ⟨m, hm⟩ := List.mem_iff_getElem?.1 hs'
    rw [hv] at hm
    split at hm
    · exact Option.some.inj hm ▸ hs
    · exact h.sessions s' (List.mem_of_getElem? hm)
  minutes e he := by
    rw [hm, List.mem_append] at he
    rw [hv]
    rcases he with he | he
    · obtain ⟨hn, he⟩ := hL e he
      exact ⟨s, if_pos hn, he⟩
    · obtain ⟨s₀, hs₀, he⟩ := h.minutes e he
      by_cases hen : e.session = n
      · exact ⟨s, if_pos hen, hn s₀ (hen ▸ hs₀) ▸ he⟩
      · exact ⟨s₀, by rw [if_neg hen]; exact hs₀, he⟩

theorem convene (h : w.Sourced S) (hc : c.Sourced S) (hs : s.Sourced S) : ((w.on c).convene s).Sourced S := by
  refine h.advance (v := (w.on c).convene s) hc hs (getElem?_convene (w := w) s) (fun s₀ hs₀ => ?_)
    (L := [s.minute w.sessions.length]) rfl ?_
  · rw [List.getElem?_eq_none (Nat.le_refl _)] at hs₀
    cases hs₀
  · exact List.forall_mem_singleton.2 ⟨s.session_minute _, Session.sourced_minute hs _⟩

theorem turn (h : w.Sourced S) (hn : w.sessions[n]? = some s₀) (hm : s.mandate = s₀.mandate) (hc : c.Sourced S)
    (hs : s.Sourced S) : ((w.on c).turn n s).Sourced S := by
  refine h.advance (v := (w.on c).turn n s) hc hs (getElem?_turn hn s) (fun s' hs' => ?_) (L := [s.minute n]) rfl
    (List.forall_mem_singleton.2 ⟨s.session_minute _, Session.sourced_minute hs _⟩)
  obtain rfl := Option.some.inj (hn.symm.trans hs')
  exact hm

theorem launch (h : c.Sourced S) (place : Nat) (next : Ballot → Round) : (c.launch place next).2.Sourced S := by
  intro r hr
  rw [Cluster.replicas_launch] at hr
  exact h r hr

theorem entering {place : Nat} {next : Ballot → Round} (ht : t.action ∈ S) (hr : ∀ b, (next b).Sourced S t) :
    (t.entering (c.launch place next).1).Sourced S := by
  cases hl : (c.launch place next).1 with
  | ok round =>
      obtain ⟨b, rfl⟩ := Cluster.exists_of_launch hl
      exact Session.sourced_facing ht (hr b)
  | error failure => exact Session.sourced_returning ht _

theorem mandate_entering (r : Except Failure Round) : (t.entering r).mandate = t := by
  cases r <;> rfl

theorem enter (h : w.Sourced S) (place : Nat) {action : Action} (ha : action ∈ S) (rest : Option Nat) :
    (w.enter place action rest).Sourced S := by
  simp only [Synod.enter]
  split
  · exact h
  · split
    · exact h.convene h.cluster (Session.sourced_returning (by exact ha) _)
    · exact h.convene (launch h.cluster _ _)
        (entering (by exact ha) fun b => ⟨rfl, fun v hv => absurd hv (Option.not_mem_none v)⟩)

theorem call (h : w.Sourced S) (n i : Nat) (fate : Fate) : (w.call n i fate).Sourced S := by
  simp only [Synod.call]
  split
  · rename_i t round answers hn
    have hs := h.sessions _ (List.mem_of_getElem? hn)
    have hq : (round.request t.sender).Sourced S t := (hs.round _ _ rfl).request
    have hmandate (s₀ : Session) (hs₀ : w.sessions[n]? = some s₀) : t = s₀.mandate := by
      obtain rfl := Option.some.inj (hn.symm.trans hs₀)
      rfl
    split
    · rename_i peer hi ha
      split
      · have hp (p : Promise) (hp : (Cluster.call peer (round.request t.sender) w.cluster).1 = .promise (some p)) :
            ∀ v ∈ p.accepted, v.action.From S t.action.key := hq.key ▸ h.cluster.promise hp
        exact h.advance (L := [.served ..]) (h.cluster.call hq.action)
          (hs.hear i fun p ha => hp p (reply_of_answer ha)) (getElem?_turn hn _) hmandate rfl
          (List.forall_mem_singleton.2 ⟨rfl, hq, hp⟩)
      · refine h.advance (L := []) h.cluster (hs.hear i fun p ha => ?_) (getElem?_turn hn _) hmandate rfl
          (List.forall_mem_nil _)
        exact absurd (reply_of_answer ha) (by cases round.request t.sender <;> simp [Request.refusal])
    · exact h
  · exact h

theorem close (h : w.Sourced S) {round : Round} {answers : List (Option Answer)}
    (hn : w.sessions[n]? = some ⟨t, .running round answers⟩) (outcome : Except Failure Vote) :
    (w.close n t outcome).Sourced S := by
  have ht := (h.sessions _ (List.mem_of_getElem? hn)).action
  have hturn : (w.turn n (t.returning outcome)).Sourced S :=
    h.turn hn rfl h.cluster (Session.sourced_returning ht outcome)
  simp only [Synod.close]
  split
  · exact hturn
  · exact hturn.enter _ ht _

theorem proceed (h : w.Sourced S) (n : Nat) : (w.proceed n).Sourced S := by
  simp only [Synod.proceed]
  split
  · rename_i t round answers hn
    split
    · have hs := h.sessions _ (List.mem_of_getElem? hn)
      cases hc : round.conclude t.config (answers.filterMap id) with
      | ask next => exact h.turn hn rfl h.cluster (Session.sourced_facing hs.action (hs.next hc))
      | retry =>
          have hfresh (b : Ballot) : (Round.second round.action b).Sourced S t :=
            ⟨(hs.round _ _ rfl).action, fun v hv => absurd hv (Option.not_mem_none v)⟩
          exact h.turn hn (mandate_entering _) (launch h.cluster _ _) (entering hs.action hfresh)
      | finished outcome => exact h.close hn outcome
    · exact h
  · exact h

theorem operate (h : w.Sourced S) {place : Nat} {o : Replica.Operation} (ho : w.admits (.operate place o)) :
    (w.step (.operate place o)).Sourced S := by
  refine ⟨h.cluster.visit fun r hr => hr.perform ?_, h.sessions, h.minutes⟩
  refine (of_admits ho).imp_right fun ⟨q, n, hq, hn⟩ => ?_
  obtain ⟨s, -, hs⟩ := h.minutes _ hn
  exact ⟨q, hq, Request.Sourced.action hs⟩

theorem step (h : w.Sourced S) (he : w.admits e) : (w.step e).Sourced (S ++ e.action?.toList) := by
  have h' : w.Sourced (S ++ e.action?.toList) := h.mono (List.subset_append_left ..)
  cases e with
  | round place action => exact h'.enter place (by simp [Event.action?]) none
  | propose place action =>
      simp only [Synod.step, Synod.propose]
      split
      · exact h'.enter place (by simp [Event.action?]) _
      · exact h'
  | call n i fate => exact h'.call n i fate
  | proceed n => exact h'.proceed n
  | operate place o => exact h'.operate he

theorem play (h : w.Sourced S) (hd : w.driven events) : (w.play events).Sourced (S ++ submitted events) := by
  induction events generalizing w S with
  | nil => exact h.mono (List.subset_append_left ..)
  | cons e events ih =>
      simp only [driven, Bool.and_eq_true] at hd
      refine (ih (h.step hd.1) hd.2).mono fun a ha => ?_
      rw [List.append_assoc] at ha
      cases he : e.action? <;> simpa [submitted, he] using ha

end Sourced

/-- The maps change only as replicas serve requests of sessions, each under the key of the session. -/
theorem read_step (h : w.Sourced S) (he : w.admits e) {place : Nat}
    (hne : (w.step e).cluster.read place k ≠ w.cluster.read place k) :
    ∃ n s, w.Serves n e ∧ w.sessions[n]? = some s ∧ s.mandate.action.key = k := by
  cases e with
  | round p action => exact absurd (Cluster.read_congr (replicas_enter ..) place) hne
  | propose p action => exact absurd (Cluster.read_congr (replicas_propose ..) place) hne
  | proceed n => exact absurd (Cluster.read_congr (replicas_proceed n) place) hne
  | operate p o =>
      obtain ⟨r, -, hr⟩ := Cluster.read_visit hne
      rcases of_admits he with ho | ⟨q, n, hq, hn⟩
      · exact absurd (Replica.get?_perform_of_forgets ho) hr
      · obtain ⟨s, hs, hm⟩ := h.minutes _ hn
        exact ⟨n, s, .late p o q hq hn, hs, (Request.Sourced.key hm).symm.trans (Replica.get?_perform_of_request hq hr)⟩
  | call n i fate =>
      simp only [step, Synod.call] at hne
      split at hne
      · rename_i t round answers hn
        have hq := ((h.sessions _ (List.mem_of_getElem? hn)).round _ _ rfl).request
        split at hne
        · split at hne
          · obtain ⟨r, -, hr⟩ := Cluster.read_visit hne
            exact ⟨n, _, .call i fate, hn, hq.key.symm.trans (Replica.get?_answer hr)⟩
          · exact absurd rfl hne
        · exact absurd rfl hne
      · exact absurd rfl hne

theorem sourced_start (hb : c.Blank) (hr : ∀ r ∈ c.replicas, ∀ k, r.get? k = none) : (start c).Sourced [] where
  cluster r hmem := by
    refine ⟨(hb r hmem).mono fun a ha k s v hs => ?_, fun k v hv => ?_⟩
    · rw [ha k] at hs
      cases hs
    · rw [hr r hmem k] at hv
      cases hv
  sessions _ hs := absurd hs List.not_mem_nil
  minutes _ he := absurd he List.not_mem_nil

/-- Whatever is voted for, promised, sent or held under a key was submitted for that key, and a session changes no
other key. -/
theorem sourced_of_driven (hb : c.Blank) (hr : ∀ r ∈ c.replicas, ∀ k, r.get? k = none)
    (hd : (start c).driven events) :
    let w := (start c).play events
    (∀ r ∈ w.cluster.replicas, ∀ a, r.supervisor.current? = some a → ∀ k s v, a.slot? k = some s →
      s.accepted = some v → v.action.From (submitted events) k) ∧
    (∀ r ∈ w.cluster.replicas, ∀ m p v, (r.answer (.prepare m)).1 = .promise (some p) → p.accepted = some v →
      v.action.From (submitted events) m.key) ∧
    (∀ n x m p held v, .served n x (.prepare m) (.promise (some p)) held ∈ w.minutes → p.accepted = some v →
      v.action.From (submitted events) m.key) ∧
    (∀ n q, .called n q ∈ w.minutes → ∃ s, w.sessions[n]? = some s ∧ s.mandate.action ∈ submitted events ∧
      q.key = s.mandate.action.key ∧ ∀ m ∈ q.proposal?, m.action.From (submitted events) s.mandate.action.key) ∧
    (∀ place k v, w.cluster.read place k = some v → .put k v ∈ submitted events) ∧
    ∀ e, w.admits e → ∀ place k, (w.step e).cluster.read place k ≠ w.cluster.read place k →
      ∃ n s, w.Serves n e ∧ w.sessions[n]? = some s ∧ s.mandate.action.key = k := by
  have h : ((start c).play events).Sourced (submitted events) := (sourced_start hb hr).play hd
  refine ⟨?_, ?_, ?_, ?_, ?_, ?_⟩
  · exact fun r hr a ha k s v hs hv => (h.cluster r hr).votes a ha k s v hs hv
  · exact fun r hr m p v hp hv => (h.cluster r hr).promise hp v hv
  · intro n x m p held v hm hv
    obtain ⟨s, -, hq, hp⟩ := h.minutes _ hm
    rw [show m.key = s.mandate.action.key from hq.key]
    exact hp p rfl v hv
  · intro n q hm
    obtain ⟨s, hs, hq⟩ := h.minutes _ hm
    exact ⟨s, hs, (h.sessions s (List.mem_of_getElem? hs)).action, hq.key,
      fun m hp => ⟨hq.action m hp, (Request.key_of_proposal hp).symm.trans hq.key⟩⟩
  · intro place k v hv
    obtain ⟨r, hr, hv⟩ := Option.bind_eq_some_iff.1 hv
    exact (h.cluster r (List.mem_of_getElem? hr)).store k v hv
  · exact fun e he place k hne => read_step h he hne

/-- A value is announced without its votes. Its first accept reaches a replica late, after the acceptor there was
replaced, and another round puts it forward for the same key. -/
theorem sourced_of_driven_degraded :
    let plain := Cluster.plain 3 [⟨0, 0, by decide⟩, ⟨1, 2, by decide⟩]
    let c := { plain with
      proposers := plain.proposers.map fun p => { p with config := { p.config with shortfall := .degraded } } }
    let late : Proposal := ⟨.pack 1 0, 0, .put "k" "v"⟩
    let events := [Event.round 0 (.put "k" "v")] ++ Event.phase 0 [.pass, .pass, .pass] ++
      Event.phase 0 [.lost, .fail, .refuse] ++ Event.phase 0 [.pass, .pass, .lost] ++
      Event.phase 0 [.lost, .fail, .fail] ++ [Event.call 0 1 .pass] ++
      [.operate 2 .crash, .operate 2 .reset, .operate 2 (.acceptor true (.accept late)),
        .operate 0 (.acceptor false (.clear "j"))] ++
      [Event.round 1 (.put "k" "w"), .propose 1 (.put "j" "x")] ++ Event.phase 1 [.lost, .pass, .pass]
    let w := (start c).play events
    c.Blank ∧ (∀ r ∈ c.replicas, ∀ k, r.get? k = none) ∧ (start c).driven events ∧
      w.cluster.values "k" = [none, some "v", none] ∧
      .called 1 (.accept ⟨.pack 3 1, 1, .put "k" "v"⟩) ∈ w.minutes ∧
      ∀ place k v, w.cluster.read place k = some v →
        Action.put k v ∈ [.put "k" "v", .put "k" "w", .put "j" "x"] := by
  intro plain c late events w
  have hfresh (r : Replica) (hr : r ∈ c.replicas) : ∃ id stream, r = .start id none stream :=
    Cluster.fresh_plain 3 [⟨0, 0, by decide⟩, ⟨1, 2, by decide⟩] r hr
  have hb : c.Blank := Cluster.blank_of_start fun r hr => by
    obtain ⟨id, stream, rfl⟩ := hfresh r hr
    exact ⟨id, none, stream, rfl⟩
  have hr (r : Replica) (hmem : r ∈ c.replicas) (k : String) : r.get? k = none := by
    obtain ⟨id, stream, rfl⟩ := hfresh r hmem
    simp [Replica.get?, Replica.start, Learner.fresh]
  have hd : (start c).driven events := by decide +kernel
  obtain ⟨-, -, -, -, hread, -⟩ := sourced_of_driven hb hr hd
  exact ⟨hb, hr, hd, by decide +kernel, by decide +kernel, hread⟩

end Synod

end SynodStore

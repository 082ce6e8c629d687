import SynodStore.Proofs.Numbering
import SynodStore.Scenario

namespace SynodStore

open Scenario (Fate)

def Scenario.Fate.answer (q : Request) (reply : Reply) : Fate → Answer
  | .pass => .ok reply
  | .refuse => .ok q.refusal
  | .fail | .lost => .error .scripted

namespace Request

def ballot : Request → Ballot
  | prepare m => m.ballot
  | accept m => m.ballot
  | learn m => m.ballot

def key : Request → String
  | prepare m => m.key
  | accept m => m.action.key
  | learn m => m.action.key

end Request

namespace Cluster

def slot? (c : Cluster) (place : Nat) (key : String) : Option Slot := do
  (← (← c.replicas[place]?).supervisor.current?).slot? key

def launch (place : Nat) (next : Ballot → Round) (c : Cluster) : Except Failure Round × Cluster :=
  match Cluster.issue place c with
  | (.ok ballot, c) => (.ok (next ballot), c)
  | (.error fault, c) => (.error (.fault fault), c)

end Cluster

/-- What a round goes by: its proposer with the replicas wired to it, the caller's action, and for a write the
number of rounds that it may run after this one. -/
structure Mandate where
  place : Nat
  config : Config
  sender : UInt32
  peers : List Nat
  action : Action
  rest : Option Nat

inductive Status where
  | running (round : Round) (answers : List (Option Answer))
  | returned (outcome : Except Failure Vote)

structure Session where
  mandate : Mandate
  status : Status

/-- What happened: a session turned to its replicas, a replica served a call and holds the slot of its key
afterwards, or a session came to its end. -/
inductive Minute where
  | called (session : Nat) (request : Request)
  | served (session place : Nat) (request : Request) (reply : Reply) (held : Option Slot)
  | closed (session : Nat) (outcome : Except Failure Vote)
deriving DecidableEq

def Minute.session : Minute → Nat
  | called n _ => n
  | served n _ _ _ _ => n
  | closed n _ => n

namespace Mandate

def facing (t : Mandate) (round : Round) : Session :=
  ⟨t, .running round (t.peers.map fun _ => none)⟩

def returning (t : Mandate) (outcome : Except Failure Vote) : Session :=
  ⟨t, .returned outcome⟩

def entering (t : Mandate) : Except Failure Round → Session
  | .ok round => t.facing round
  | .error failure => t.returning (.error failure)

def remaining? (t : Mandate) : Except Failure Vote → Option Nat
  | .error _ => none
  | .ok decision =>
    match t.rest with
    | some (n + 1) => if decision.action = t.action then none else some n
    | _ => none

end Mandate

namespace Session

def minute (n : Nat) (s : Session) : Minute :=
  match s.status with
  | .running round _ => .called n (round.request s.mandate.sender)
  | .returned outcome => .closed n outcome

def request? (s : Session) : Option Request :=
  match s.status with
  | .running round _ => some (round.request s.mandate.sender)
  | .returned _ => none

def finished (s : Session) : Bool :=
  match s.status with
  | .running _ _ => false
  | .returned _ => true

theorem minute_ne_served (s : Session) (m n x : Nat) (q : Request) (reply : Reply) (held : Option Slot) :
    s.minute m ≠ .served n x q reply held := by
  simp only [minute]
  split <;> nofun

end Session

/-- A cluster whose proposers run any number of rounds at one time. The minutes say what happened, the latest
first. -/
structure Synod where
  cluster : Cluster
  sessions : List Session
  minutes : List Minute

/-- What can happen next. A call takes place as a whole and meets a fate; its session goes on once all its
calls were answered. -/
inductive Event where
  | round (place : Nat) (action : Action)
  | propose (place : Nat) (action : Action)
  | call (session index : Nat) (fate : Fate)
  | proceed (session : Nat)
  | operate (place : Nat) (operation : Replica.Operation)

def Event.phase (session : Nat) (fates : List Fate) : List Event :=
  fates.zipIdx.map (fun p => .call session p.2 p.1) ++ [.proceed session]

namespace Synod

def start (c : Cluster) : Synod := ⟨c, [], []⟩

def request? (w : Synod) (n : Nat) : Option Request :=
  w.sessions[n]?.bind (·.request?)

def convene (s : Session) (w : Synod) : Synod :=
  { w with sessions := w.sessions ++ [s], minutes := s.minute w.sessions.length :: w.minutes }

def turn (n : Nat) (s : Session) (w : Synod) : Synod :=
  { w with sessions := w.sessions.set n s, minutes := s.minute n :: w.minutes }

def on (c : Cluster) (w : Synod) : Synod :=
  { w with cluster := c }

def enter (place : Nat) (action : Action) (rest : Option Nat) (w : Synod) : Synod :=
  match w.cluster.proposers[place]? with
  | none => w
  | some p =>
    let t : Mandate := ⟨place, p.config, p.id, p.peers, action, rest⟩
    if p.peers.isEmpty then w.convene (t.returning (.error .unwired))
    else
      let l := w.cluster.launch place (.first action)
      (w.on l.2).convene (t.entering l.1)

def propose (place : Nat) (action : Action) (w : Synod) : Synod :=
  match w.cluster.proposers[place]?.map (·.config.maxRounds.toNat) with
  | some (n + 1) => w.enter place action (some n)
  | _ => w

def hear (n i : Nat) (t : Mandate) (round : Round) (answers : List (Option Answer)) (a : Answer) (w : Synod) :
    Synod :=
  { w with sessions := w.sessions.set n ⟨t, .running round (answers.set i (some a))⟩ }

def serve (n peer : Nat) (q : Request) (w : Synod) : Reply × Synod :=
  let p := Cluster.call peer q w.cluster
  (p.1, { w with cluster := p.2, minutes := .served n peer q p.1 (p.2.slot? peer q.key) :: w.minutes })

def call (n i : Nat) (fate : Fate) (w : Synod) : Synod :=
  match w.sessions[n]? with
  | some ⟨t, .running round answers⟩ =>
    match t.peers[i]?, answers[i]? with
    | some peer, some none =>
      let q := round.request t.sender
      if fate.carried then
        let p := w.serve n peer q
        p.2.hear n i t round answers (fate.answer q p.1)
      else w.hear n i t round answers (fate.answer q q.refusal)
    | _, _ => w
  | _ => w

def close (n : Nat) (t : Mandate) (outcome : Except Failure Vote) (w : Synod) : Synod :=
  let w := w.turn n (t.returning outcome)
  match t.remaining? outcome with
  | none => w
  | some rest => w.enter t.place t.action (some rest)

def settle (n : Nat) (t : Mandate) (round : Round) (p : Progress) (w : Synod) : Synod :=
  match p with
  | .ask next => w.turn n (t.facing next)
  | .retry =>
    let l := w.cluster.launch t.place (.second round.action)
    (w.on l.2).turn n (t.entering l.1)
  | .finished outcome => w.close n t outcome

def proceed (n : Nat) (w : Synod) : Synod :=
  match w.sessions[n]? with
  | some ⟨t, .running round answers⟩ =>
    if answers.all (·.isSome) then w.settle n t round (round.conclude t.config (answers.filterMap id)) else w
  | _ => w

def step (w : Synod) : Event → Synod
  | .round place action => w.enter place action none
  | .propose place action => w.propose place action
  | .call n i fate => w.call n i fate
  | .proceed n => w.proceed n
  | .operate place o => w.on (w.cluster.visit Replica.Outcome.done place (Replica.perform o)).2

def play (w : Synod) (events : List Event) : Synod :=
  events.foldl step w

def bounded (w : Synod) : Bool :=
  w.cluster.proposers.all fun p => p.issuer.counter.toNat < Ballot.counterBound

end Synod

/-- The fates that calls may meet, and what may be done to replicas besides. -/
structure Conditions where
  fate : Request → Fate → Bool
  operation : Replica.Operation → Bool

namespace Conditions

/-- Every call arrives and is answered, except that no learner hears an announcement. -/
def deaf : Conditions where
  fate
    | .learn _, f => f = .refuse
    | _, f => f = .pass
  operation _ := false

/-- No learner hears an announcement, and any other call may fail or lose its reply. -/
def lossy : Conditions where
  fate
    | .learn _, f => f = .refuse
    | _, f => f ≠ .refuse
  operation _ := false

/-- Any call may fail or lose its reply, and anything may be done to a replica. -/
def rough : Conditions where
  fate _ f := f ≠ .refuse
  operation _ := true

def calm : Conditions where
  fate _ f := f = .pass
  operation _ := false

def allows (κ : Conditions) (w : Synod) : Event → Bool
  | .call n _ fate => (w.request? n).all fun q => κ.fate q fate
  | .operate _ o => κ.operation o
  | _ => true

end Conditions

namespace Synod

/-- What may come about under the conditions while all counters stay within bounds. -/
inductive Run (κ : Conditions) (w : Synod) : Synod → Prop
  | refl (hb : w.bounded) : Run κ w w
  | step {v : Synod} (h : Run κ w v) (e : Event) (he : κ.allows v e) (hb : (v.step e).bounded) :
      Run κ w (v.step e)

def legal (κ : Conditions) : Synod → List Event → Bool
  | w, [] => w.bounded
  | w, e :: es => w.bounded && κ.allows w e && legal κ (w.step e) es

variable {κ : Conditions} {u v w : Synod}

theorem Run.trans (h : Run κ u v) (h' : Run κ v w) : Run κ u w := by
  induction h' with
  | refl _ => exact h
  | step _ e he hb ih => exact ih.step e he hb

theorem Run.bounded (h : Run κ w v) : v.bounded := by
  cases h <;> assumption

theorem Run.bounded_start (h : Run κ w v) : w.bounded := by
  induction h with
  | refl hb => exact hb
  | step _ _ _ _ ih => exact ih

theorem run_play {es : List Event} (h : legal κ w es) : Run κ w (w.play es) := by
  induction es generalizing w with
  | nil => exact .refl h
  | cons e es ih =>
      simp only [legal, Bool.and_eq_true] at h
      have hn := ih h.2
      have hb : (w.step e).bounded := by
        cases es with
        | nil => exact h.2
        | cons e' es => simp only [legal, Bool.and_eq_true] at h; exact h.2.1.1
      exact (Run.step (.refl h.1.1) e h.1.2 hb).trans hn

end Synod

end SynodStore

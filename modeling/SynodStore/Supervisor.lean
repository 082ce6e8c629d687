import SynodStore.Acceptor
import SynodStore.Config
import SynodStore.KeyStream

namespace SynodStore

/-- Whether the acceptor serves. A live one crashes once `remaining` checks are spent, if they are counted;
one that is down comes back after `remaining` more. -/
inductive Lease where
  | live (acceptor : Acceptor) (remaining : Option Nat)
  | down (remaining : Nat)

/-- The acceptor of one replica, which crashes and comes back empty as the crash plan says. Its generations are counted
without a bound: a word of 64 bits would do, as a new one every nanosecond takes five centuries to go through it. -/
structure Supervisor where
  id : UInt32
  plan : Option CrashPlan
  lease : Lease
  stream : KeyStream
  generation : Nat

namespace Supervisor

variable {α : Type}

def recoveryDelay (s : Supervisor) : Nat :=
  s.plan.elim 0 (·.recoveryDelay.toNat)

def countdown (s : Supervisor) : Option Nat × KeyStream :=
  match s.plan with
  | none => (none, s.stream)
  | some p =>
    let draw := s.stream.draw p.least p.most
    (some draw.1.toNat, draw.2)

def install (s : Supervisor) : Supervisor :=
  let c := s.countdown
  { s with lease := .live (.fresh s.id) c.1, stream := c.2, generation := s.generation + 1 }

def start (id : UInt32) (plan : Option CrashPlan) (stream : KeyStream) : Supervisor :=
  install ⟨id, plan, .down 0, stream, 0⟩

def current? (s : Supervisor) : Option Acceptor :=
  match s.lease with
  | .live a _ => some a
  | .down _ => none

def wait (s : Supervisor) (remaining : Nat) : Supervisor :=
  if remaining = 0 then s.install else { s with lease := .down remaining }

/-- Spends one live check and tells whether an acceptor was up. The check that finds no budget left fails,
and the replacement arrives on it or `recoveryDelay` checks later. -/
def check (s : Supervisor) : Bool × Supervisor :=
  match s.lease with
  | .live _ none => (true, s)
  | .live a (some (n + 1)) => (true, { s with lease := .live a (some n) })
  | .live _ (some 0) => (false, s.wait s.recoveryDelay)
  | .down n => (false, s.wait (n - 1))

def checks : Nat → Supervisor → List Bool × Supervisor
  | 0, s => ([], s)
  | n + 1, s =>
    let p := s.check
    let q := checks n p.2
    (p.1 :: q.1, q.2)

def visit (f : Acceptor → α × Acceptor) (s : Supervisor) : Option α × Supervisor :=
  match s.lease with
  | .live a n =>
    let p := f a
    (some p.1, { s with lease := .live p.2 n })
  | .down _ => (none, s)

def serve (f : Acceptor → α × Acceptor) (s : Supervisor) : Option α × Supervisor :=
  let p := s.check
  if p.1 then p.2.visit f else (none, p.2)

def crash (s : Supervisor) : Supervisor :=
  match s.lease with
  | .live a _ => { s with lease := .live a (some 0) }
  | .down _ => s

def clear (key : String) (s : Supervisor) : Supervisor :=
  (s.visit fun a => ((), a.clear key)).2

variable {s : Supervisor}

theorem current?_install : s.install.current? = some (.fresh s.id) := rfl

theorem current?_crash : s.crash.current? = s.current? := by
  cases h : s.lease <;> simp [crash, current?, h]

theorem generation_crash : s.crash.generation = s.generation := by
  cases h : s.lease <;> simp [crash, h]

theorem visit_of_down (f : Acceptor → α × Acceptor) (h : s.current? = none) : s.visit f = (none, s) := by
  cases hl : s.lease with
  | live a n => simp [current?, hl] at h
  | down n => simp [visit, hl]

theorem fst_visit (f : Acceptor → α × Acceptor) : (s.visit f).1 = s.current?.map fun a => (f a).1 := by
  cases h : s.lease <;> simp [visit, current?, h]

theorem current?_visit (f : Acceptor → α × Acceptor) : (s.visit f).2.current? = s.current?.map fun a => (f a).2 := by
  cases h : s.lease <;> simp [visit, current?, h]

theorem generation_visit (f : Acceptor → α × Acceptor) : (s.visit f).2.generation = s.generation := by
  cases h : s.lease <;> simp [visit, h]

theorem current?_check_of_up (h : s.check.1 = true) : s.check.2.current? = s.current? := by
  cases hl : s.lease with
  | down n => simp [check, hl] at h
  | live a n =>
    cases n with
    | none => simp [check, hl]
    | some n => cases n <;> simp_all [check, current?]

/-- Whether a different acceptor is up, or one of the two states has none. -/
def replaced (before after : Supervisor) : Bool :=
  match before.current?, after.current? with
  | none, none => false
  | some _, some _ => before.generation ≠ after.generation
  | _, _ => true

end Supervisor

end SynodStore

import SynodStore.Failure

namespace SynodStore

/-- How acceptors crash: after a number of successful live checks between two bounds, for `recoveryDelay`
further checks beyond the one that discovers the crash. -/
structure CrashPlan where
  minChecks : UInt32
  maxChecks : UInt32
  recoveryDelay : UInt32
deriving DecidableEq

namespace CrashPlan

def standard : CrashPlan := ⟨1, 6, 0⟩

def least (p : CrashPlan) : UInt32 :=
  if p.minChecks ≤ p.maxChecks then p.minChecks else p.maxChecks

def most (p : CrashPlan) : UInt32 :=
  if p.minChecks ≤ p.maxChecks then p.maxChecks else p.minChecks

def wellFormed (p : CrashPlan) : Bool :=
  p.minChecks ≠ 0 ∧ p.minChecks ≤ p.maxChecks

end CrashPlan

/-- What a proposer does when the accept phase misses its majority a second time. `degraded` announces the
value all the same. -/
inductive Shortfall where
  | strict
  | degraded
deriving DecidableEq

structure Config where
  clusterSize : UInt64
  crash : Option CrashPlan
  shortfall : Shortfall
  maxRounds : UInt64
  callTimeoutMs : UInt64
  seed : Option UInt64
deriving DecidableEq

namespace Config

def standard : Config :=
  ⟨5, some .standard, .strict, 8, 3000, none⟩

def majority (c : Config) : Nat :=
  c.clusterSize.toNat / 2 + 1

/-- The first field out of range, in the order size, crash plan, rounds. -/
def validate (c : Config) : Except Misconfiguration Unit := do
  if c.clusterSize.toNat = 0 ∨ maxReplicas < c.clusterSize.toNat then
    throw (.clusterSize c.clusterSize.toNat)
  if let some p := c.crash then
    if !p.wellFormed then throw (.crashChecks p.minChecks.toNat p.maxChecks.toNat)
  if c.maxRounds = 0 then throw .noRounds

def callTimeout (c : Config) : Nat × Nat :=
  (c.callTimeoutMs.toNat / 1000, c.callTimeoutMs.toNat % 1000 * 1000000)

/-- The part below a millisecond is dropped, and so are the bits above a word. -/
def withCallTimeout (c : Config) (seconds nanoseconds : Nat) : Config :=
  { c with callTimeoutMs := UInt64.ofNat (seconds * 1000 + nanoseconds / 1000000) }

end Config

end SynodStore

import SynodStore.Failure

namespace SynodStore

structure Issuer where
  id : UInt32
  counter : UInt64
  id_lt : id.toNat < maxReplicas
deriving DecidableEq

namespace Issuer

def starting (id : UInt32) (start : UInt64) : Except Misconfiguration Issuer :=
  if h : id.toNat < maxReplicas then .ok ⟨id, start, h⟩ else .error (.replicaId id.toNat)

def atTime (id : UInt32) (milliseconds : Int) : Except Misconfiguration Issuer :=
  starting id (UInt64.ofNat milliseconds.toNat)

def advance (i : Issuer) : Issuer :=
  { i with counter := i.counter + 1 }

/-- The counter moves on even when it overflows and no ballot is issued. -/
def next (i : Issuer) : Except Ballot.Fault Ballot × Issuer :=
  (if i.counter + 1 = 0 then .error .counterOverflow else .ok (Ballot.pack (i.counter + 1) i.id), i.advance)

def take : Nat → Issuer → List (Except Ballot.Fault Ballot)
  | 0, _ => []
  | n + 1, i => i.next.1 :: take n i.next.2

end Issuer

end SynodStore

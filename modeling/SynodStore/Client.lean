import SynodStore.Remote

namespace SynodStore

/-- A client's turn among the replicas, which it goes through round and round. It is not taken modulo the size of a
word, as it takes 2^64 accesses to come round to the first turn. -/
structure Client where
  turn : Nat

namespace Client

def fresh : Client := ⟨0⟩

def pick (backends : Nat) : StateM Client Nat := fun c =>
  (c.turn % backends, ⟨c.turn + 1⟩)

end Client

namespace Remote

def callFront (timeout place : Nat) (text : String) : StateM Remote (Except CallError String) :=
  modifyGet (Network.call (hosting timeout) ⟨(Host.front place).name, text, patience⟩)

def accessOver (link : Link) (timeout place : Nat) (a : Access) : StateM Remote (Except CallError AccessReply) :=
  match link with
  | .direct => return .ok (← access timeout place a)
  | .network => return (← callFront timeout place (Wire.toText a)).bind (Service.interpret (Host.front place).name a)

end Remote

end SynodStore

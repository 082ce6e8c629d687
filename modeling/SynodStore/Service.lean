import SynodStore.CallError
import SynodStore.Wire

namespace SynodStore

/-- Requests of a service that answers each with a value or with the text of an error. How a reply is read
depends on the request. -/
class Service (α : Type) (ρ : outParam Type) extends Wire α where
  method : α → String
  encodeReply : ρ → Json
  decodeReply : α → Json → Option ρ

namespace Service

variable {α ρ : Type} [Service α ρ]

variable (α) in
def responseText (r : Except String ρ) : String :=
  Json.text (.ofFields [("data",
    match r with
    | .ok reply => .ofFields [("Ok", encodeReply α reply)]
    | .error text => .ofFields [("Err", .ofString text)])])

def response? (s : String) : Option (Except String Json) := do
  let [some content] ← (← Json.ofText? s).record? ["data"] 1 | none
  match ← content.variant? with
  | ("Ok", reply) => return .ok reply
  | ("Err", .string (some text)) => return .error text
  | _ => none

def interpret (node : String) (q : α) (s : String) : Except CallError ρ :=
  match response? s with
  | some (.ok reply) =>
    match decodeReply q reply with
    | some r => .ok r
    | none => .error .unreadable
  | some (.error text) => .error (.service (method q) node text)
  | none => .error .unreadable

end Service

instance : Service Request Reply where
  method
    | .prepare _ => "prepare"
    | .accept _ => "accept"
    | .learn _ => "learn"
  encodeReply
    | .promise p => Wire.encode p
    | .vote v => Wire.encode v
    | .learned => Wire.encode ()
  decodeReply
    | .prepare _, v => (Wire.decode v).map .promise
    | .accept _, v => (Wire.decode v).map .vote
    | .learn _, v => (Wire.decode v).map fun () => .learned

end SynodStore

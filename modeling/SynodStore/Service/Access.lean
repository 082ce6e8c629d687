import SynodStore.Service

namespace SynodStore

inductive Access where
  | get (key : String)
  | put (key value : String)
  | delete (key : String)
deriving DecidableEq

inductive AccessReply where
  | value (answer : Option String)
  | committed (answer : Bool)
deriving DecidableEq

namespace Access

instance : Wire Access where
  encode
    | .get k => .ofFields [("get", .ofFields [("key", Wire.encode k)])]
    | .put k v => .ofFields [("put", .ofFields [("key", Wire.encode k), ("value", Wire.encode v)])]
    | .delete k => .ofFields [("delete", .ofFields [("key", Wire.encode k)])]
  decode v := do
    match ← v.variant? with
    | ("get", content) =>
      let [k] ← content.record? ["key"] 1 | none
      return .get (← Wire.required k)
    | ("put", content) =>
      let [k, v] ← content.record? ["key", "value"] 2 | none
      return .put (← Wire.required k) (← Wire.required v)
    | ("delete", content) =>
      let [k] ← content.record? ["key"] 1 | none
      return .delete (← Wire.required k)
    | _ => none

instance : Service Access AccessReply where
  method
    | .get _ => "get"
    | .put _ _ => "put"
    | .delete _ => "delete"
  encodeReply
    | .value v => Wire.encode v
    | .committed b => Wire.encode b
  decodeReply
    | .get _, v => (Wire.decode v).map .value
    | _, v => (Wire.decode v).map .committed

variable {m : Type → Type} [Monad m]

def serve (read : String → m (Option String)) (propose : Action → m (Except Failure Ballot)) :
    Access → m AccessReply
  | .get k => return .value (← read k)
  | .put k v => return .committed (← propose (.put k v)).isOk
  | .delete k => return .committed (← propose (.delete k)).isOk

end Access

end SynodStore

import SynodStore.Service

namespace SynodStore

/-- A service to try a network with. It keeps a running total and nothing else. -/
inductive Trial where
  | echo (msg : String)
  | stall (ms : UInt64)
  | fail (msg : String)
  | bump (amount : UInt64)
  | pair (a : UInt32) (b : Option String)
  | nothing
deriving DecidableEq

inductive TrialReply where
  | text (value : String)
  | unit
  | total (value : UInt64)
  | code (value : UInt32)
  | repeated (value : Option String)
deriving DecidableEq

namespace Trial

instance : Wire Trial where
  encode
    | .echo s => .ofFields [("echo", .ofFields [("msg", Wire.encode s)])]
    | .stall n => .ofFields [("stall", .ofFields [("ms", Wire.encode n)])]
    | .fail s => .ofFields [("fail", .ofFields [("msg", Wire.encode s)])]
    | .bump n => .ofFields [("bump", .ofFields [("by", Wire.encode n)])]
    | .pair a b => .ofFields [("pair", .ofFields [("a", Wire.encode a), ("b", Wire.encode b)])]
    | .nothing => .ofFields [("nothing", .ofFields [])]
  decode v := do
    match ← v.variant? with
    | ("echo", content) =>
      let [s] ← content.record? ["msg"] 1 | none
      return .echo (← Wire.required s)
    | ("stall", content) =>
      let [n] ← content.record? ["ms"] 1 | none
      return .stall (← Wire.required n)
    | ("fail", content) =>
      let [s] ← content.record? ["msg"] 1 | none
      return .fail (← Wire.required s)
    | ("bump", content) =>
      let [n] ← content.record? ["by"] 1 | none
      return .bump (← Wire.required n)
    | ("pair", content) =>
      let [a, b] ← content.record? ["a", "b"] 2 | none
      return .pair (← Wire.required a) (← Wire.optional none b)
    | ("nothing", content) =>
      let [] ← content.record? [] 0 | none
      return .nothing
    | _ => none

instance : Service Trial TrialReply where
  method
    | .echo _ => "echo"
    | .stall _ => "stall"
    | .fail _ => "fail"
    | .bump _ => "bump"
    | .pair _ _ => "pair"
    | .nothing => "nothing"
  encodeReply
    | .text s => Wire.encode s
    | .unit => Wire.encode ()
    | .total n => Wire.encode n
    | .code n => Wire.encode n
    | .repeated s => Wire.encode s
  decodeReply
    | .echo _, v => (Wire.decode v).map .text
    | .stall _, v => (Wire.decode v).map fun () => .unit
    | .fail _, v => (Wire.decode v).map .code
    | .bump _, v => (Wire.decode v).map .total
    | .pair _ _, v => (Wire.decode v).map .repeated
    | .nothing, v => (Wire.decode v).map fun () => .unit

def multiply (n : Nat) (s : String) : String :=
  if s.isEmpty then "" else String.join (List.replicate n s)

def serve? (total : UInt64) : Trial → Option (Except String TrialReply × Option Nat × UInt64)
  | .echo s => some (.ok (.text s), none, total)
  | .stall n => some (.ok .unit, some n.toNat, total)
  | .fail s => some (.error s, none, total)
  | .bump n =>
    if total.toNat + n.toNat < UInt64.size then some (.ok (.total (total + n)), none, total + n) else none
  | .pair a b => some (.ok (.repeated (b.map (multiply a.toNat))), none, total)
  | .nothing => some (.ok .unit, none, total)

end Trial

end SynodStore

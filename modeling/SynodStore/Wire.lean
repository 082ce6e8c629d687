import SynodStore.Json.Reader
import SynodStore.Json.Shape
import SynodStore.Json.Writer
import SynodStore.Config
import SynodStore.Message

namespace SynodStore

class Wire (α : Type) where
  encode : α → Json
  decode : Json → Option α

namespace Wire

variable {α : Type} [Wire α]

def toText (a : α) : String :=
  (encode a).text

def ofText? (s : String) : Option α :=
  Json.ofText? s >>= decode

def required (v : Option Json) : Option α :=
  v >>= decode

def optional (fallback : α) : Option Json → Option α
  | none => some fallback
  | some v => decode v

instance : Wire Unit where
  encode _ := .null
  decode
    | .null => some ()
    | _ => none

instance : Wire Bool where
  encode b := .bool b
  decode
    | .bool b => some b
    | _ => none

instance : Wire String where
  encode := .ofString
  decode := Json.string?

instance : Wire UInt32 where
  encode n := .ofNat n.toNat
  decode v := (v.below? UInt32.size).map UInt32.ofNat

instance : Wire UInt64 where
  encode n := .ofNat n.toNat
  decode v := (v.below? UInt64.size).map UInt64.ofNat

instance : Wire (Option α) where
  encode
    | none => .null
    | some a => encode a
  decode
    | .null => some none
    | v => (decode v).map some

instance : Wire Ballot where
  encode b := encode b.packed
  decode v := (decode v).map Ballot.mk

instance : Wire Action where
  encode
    | .put k v => .ofFields [("Put", .ofFields [("key", encode k), ("value", encode v)])]
    | .delete k => .ofFields [("Delete", .ofFields [("key", encode k)])]
  decode v := do
    match ← v.variant? with
    | ("Put", content) =>
      let [k, v] ← content.record? ["key", "value"] 2 | none
      return .put (← required k) (← required v)
    | ("Delete", content) =>
      let [k] ← content.record? ["key"] 1 | none
      return .delete (← required k)
    | _ => none

instance : Wire Vote where
  encode m := .ofFields [("proposal", encode m.ballot), ("action", encode m.action)]
  decode v := do
    let [b, a] ← v.record? ["proposal", "action"] 2 | none
    return ⟨← required b, ← required a⟩

instance : Wire Prepare where
  encode m := .ofFields [("proposal", encode m.ballot), ("key", encode m.key), ("proposer_id", encode m.sender)]
  decode v := do
    let [b, k, i] ← v.record? ["proposal", "key", "proposer_id"] 3 | none
    return ⟨← required b, ← required k, ← required i⟩

instance : Wire Promise where
  encode m := .ofFields [("proposal", encode m.ballot), ("accepted", encode m.accepted)]
  decode v := do
    let [b, a] ← v.record? ["proposal", "accepted"] 2 | none
    return ⟨← required b, ← optional none a⟩

instance : Wire Proposal where
  encode m :=
    .ofFields [("proposal", encode m.ballot), ("proposer_id", encode m.sender), ("action", encode m.action)]
  decode v := do
    let [b, i, a] ← v.record? ["proposal", "proposer_id", "action"] 3 | none
    return ⟨← required b, ← required i, ← required a⟩

instance : Wire Request where
  encode
    | .prepare m => .ofFields [("prepare", .ofFields [("req", encode m)])]
    | .accept m => .ofFields [("accept", .ofFields [("req", encode m)])]
    | .learn m => .ofFields [("learn", .ofFields [("msg", encode m)])]
  decode v := do
    match ← v.variant? with
    | ("prepare", content) =>
      let [m] ← content.record? ["req"] 1 | none
      return .prepare (← required m)
    | ("accept", content) =>
      let [m] ← content.record? ["req"] 1 | none
      return .accept (← required m)
    | ("learn", content) =>
      let [m] ← content.record? ["msg"] 1 | none
      return .learn (← required m)
    | _ => none

instance : Wire CrashPlan where
  encode p :=
    .ofFields [("min_checks", encode p.minChecks), ("max_checks", encode p.maxChecks),
      ("recovery_delay", encode p.recoveryDelay)]
  decode v := do
    let [lo, hi, d] ← v.record? ["min_checks", "max_checks", "recovery_delay"] 3 | none
    return ⟨← required lo, ← required hi, ← required d⟩

instance : Wire Shortfall where
  encode
    | .strict => .ofString "Strict"
    | .degraded => .ofString "Degraded"
  decode
    | .string (some "Strict") => some .strict
    | .string (some "Degraded") => some .degraded
    | v =>
      match v.variant? with
      | some ("Strict", .null) => some .strict
      | some ("Degraded", .null) => some .degraded
      | _ => none

instance : Wire Config where
  encode c :=
    .ofFields [("cluster_size", encode c.clusterSize), ("crash", encode c.crash),
      ("accept_shortfall", encode c.shortfall), ("max_rounds", encode c.maxRounds),
      ("rpc_timeout_ms", encode c.callTimeoutMs), ("seed", encode c.seed)]
  decode v := do
    let [n, p, s, r, t, x] ←
      v.record? ["cluster_size", "crash", "accept_shortfall", "max_rounds", "rpc_timeout_ms", "seed"] 0 | none
    let c := Config.standard
    return ⟨← optional c.clusterSize n, ← optional c.crash p, ← optional c.shortfall s, ← optional c.maxRounds r,
      ← optional c.callTimeoutMs t, ← optional c.seed x⟩

end Wire

end SynodStore

import SynodStore.Json
import SynodStore.Json.Literal

namespace SynodStore.Json

def natural? : Json → Option Nat
  | number l => Literal.natural? l
  | _ => none

def below? (bound : Nat) (v : Json) : Option Nat :=
  v.natural?.filter (· < bound)

def string? : Json → Option String
  | string t => t
  | _ => none

def namedFields : List (Option String × Json) → Option (List (String × Json))
  | [] => some []
  | (k, v) :: fs => do
    let k ← k
    let fs ← namedFields fs
    return (k, v) :: fs

/-- The only field of that name, if it is there. A second one is an error. -/
def field? (fields : List (String × Json)) (name : String) : Option (Option Json) :=
  match fields.filter (·.1 = name) with
  | [] => some none
  | [(_, v)] => some (some v)
  | _ => none

/-- The values of a record's fields in the order of `names`: by name from an object, where other fields are
ignored, or by place from an array of at least `atLeast` items. -/
def record? (names : List String) (atLeast : Nat) : Json → Option (List (Option Json))
  | object fields => do
    let fields ← namedFields fields
    names.mapM (field? fields)
  | array items =>
    if atLeast ≤ items.length ∧ items.length ≤ names.length then
      some (items.map some ++ List.replicate (names.length - items.length) none)
    else none
  | _ => none

def variant? : Json → Option (String × Json)
  | object [(some name, content)] => some (name, content)
  | _ => none

end SynodStore.Json

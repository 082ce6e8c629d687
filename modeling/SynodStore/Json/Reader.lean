import SynodStore.Json
import SynodStore.Json.Literal

namespace SynodStore.Json

open Literal

/-- The reader of values, of the items of an array and of the fields of an object, each of which splits what
it reads off the front. The first argument bounds the calls in a row. -/
inductive Goal where
  | value
  | items
  | fields

def Goal.Result : Goal → Type
  | .value => Json
  | .items => List Json
  | .fields => List (Option String × Json)

def parse : Nat → (g : Goal) → List Char → Option (g.Result × List Char)
  | 0, _, _ => none
  | n + 1, .value, s =>
    match skipBlank s with
    | 'n' :: 'u' :: 'l' :: 'l' :: r => some (Json.null, r)
    | 't' :: 'r' :: 'u' :: 'e' :: r => some (Json.bool true, r)
    | 'f' :: 'a' :: 'l' :: 's' :: 'e' :: r => some (Json.bool false, r)
    | '"' :: r => (Literal.string r).map fun (t, r) => (Json.string t, r)
    | '[' :: r =>
      match skipBlank r with
      | ']' :: r => some (Json.array [], r)
      | r => (parse n .items r).map fun (items, r) => (Json.array items, r)
    | '\x7b' :: r =>
      match skipBlank r with
      | '\x7d' :: r => some (Json.object [], r)
      | r => (parse n .fields r).map fun (fields, r) => (Json.object fields, r)
    | r => (Literal.number r).map fun (l, r) => (Json.number l, r)
  | n + 1, .items, s => do
    let (v, r) ← parse n .value s
    match skipBlank r with
    | ']' :: r => some ([v], r)
    | ',' :: r => (parse n .items r).map fun (vs, r) => (v :: vs, r)
    | _ => none
  | n + 1, .fields, s =>
    match skipBlank s with
    | '"' :: r => do
      let (k, r) ← Literal.string r
      match skipBlank r with
      | ':' :: r => do
        let (v, r) ← parse n .value r
        match skipBlank r with
        | '\x7d' :: r => some ([(k, v)], r)
        | ',' :: r => (parse n .fields r).map fun (fs, r) => ((k, v) :: fs, r)
        | _ => none
      | _ => none
    | _ => none

def ofChars? (s : List Char) : Option Json :=
  match parse (2 * s.length + 2) .value s with
  | some (v, r) => if skipBlank r = [] then some v else none
  | none => none

def ofText? (s : String) : Option Json :=
  ofChars? s.toList

end SynodStore.Json

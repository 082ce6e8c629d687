namespace SynodStore

/-- A JSON document as written: numbers keep their literal, fields keep their order and repetitions. A string
without text is a literal whose escapes hold half of a surrogate pair. -/
inductive Json where
  | null
  | bool (value : Bool)
  | number (literal : List Char)
  | string (text : Option String)
  | array (items : List Json)
  | object (fields : List (Option String × Json))

namespace Json

def ofString (s : String) : Json :=
  .string (some s)

def ofNat (n : Nat) : Json :=
  .number (Nat.toDigits 10 n)

def ofInt : Int → Json
  | .ofNat n => ofNat n
  | .negSucc n => .number ('-' :: Nat.toDigits 10 (n + 1))

def ofFields (fields : List (String × Json)) : Json :=
  .object (fields.map fun f => (some f.1, f.2))

end Json

end SynodStore

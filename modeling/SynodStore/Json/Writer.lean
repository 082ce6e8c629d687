import SynodStore.Json
import SynodStore.Json.Literal

namespace SynodStore.Json

mutual

def chars : Json → List Char
  | null => ['n', 'u', 'l', 'l']
  | bool true => ['t', 'r', 'u', 'e']
  | bool false => ['f', 'a', 'l', 's', 'e']
  | number l => l
  | string t => Literal.quote (t.getD "")
  | array vs => '[' :: itemChars vs ++ [']']
  | object fs => '\x7b' :: fieldChars fs ++ ['\x7d']

def itemChars : List Json → List Char
  | [] => []
  | [v] => v.chars
  | v :: w :: vs => v.chars ++ ',' :: itemChars (w :: vs)

def fieldChars : List (Option String × Json) → List Char
  | [] => []
  | [(k, v)] => Literal.quote (k.getD "") ++ ':' :: v.chars
  | (k, v) :: f :: fs => Literal.quote (k.getD "") ++ ':' :: v.chars ++ ',' :: fieldChars (f :: fs)

end

def text (v : Json) : String :=
  String.ofList v.chars

end SynodStore.Json

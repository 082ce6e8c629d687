namespace SynodStore.Json.Literal

def isBlank (c : Char) : Bool :=
  c = ' ' ∨ c = '\t' ∨ c = '\n' ∨ c = '\r'

def skipBlank (s : List Char) : List Char :=
  s.dropWhile isBlank

def digits (s : List Char) : Option (List Char × List Char) :=
  match s.takeWhile Char.isDigit with
  | [] => none
  | ds => some (ds, s.dropWhile Char.isDigit)

def whole : List Char → Option (List Char × List Char)
  | '0' :: r => some (['0'], r)
  | s => digits s

def sign : List Char → List Char × List Char
  | '-' :: r => (['-'], r)
  | r => ([], r)

def fraction : List Char → Option (List Char × List Char)
  | '.' :: r => (digits r).map fun (ds, r) => ('.' :: ds, r)
  | r => some ([], r)

def exponentSign : List Char → List Char × List Char
  | '+' :: r => (['+'], r)
  | r => sign r

def exponent : List Char → Option (List Char × List Char)
  | c :: r =>
    if c = 'e' ∨ c = 'E' then
      let (s, r) := exponentSign r
      (digits r).map fun (ds, r) => (c :: s ++ ds, r)
    else some ([], c :: r)
  | [] => some ([], [])

def number (s : List Char) : Option (List Char × List Char) := do
  let (m, s) := sign s
  let (w, s) ← whole s
  let (f, s) ← fraction s
  let (e, s) ← exponent s
  return (m ++ w ++ f ++ e, s)

def digitValue (c : Char) : Nat :=
  c.toNat - '0'.toNat

def natural? (s : List Char) : Option Nat :=
  if s ≠ [] ∧ s.all Char.isDigit then some (s.foldl (fun n c => 10 * n + digitValue c) 0) else none

def hexDigit? (c : Char) : Option Nat :=
  if c.isDigit then some (digitValue c)
  else if 'a' ≤ c ∧ c ≤ 'f' then some (c.toNat - 'a'.toNat + 10)
  else if 'A' ≤ c ∧ c ≤ 'F' then some (c.toNat - 'A'.toNat + 10)
  else none

def escapeUnit? (a b c d : Char) : Option Nat := do
  return ((((← hexDigit? a) * 16 + (← hexDigit? b)) * 16 + (← hexDigit? c)) * 16 + (← hexDigit? d))

def shortEscape? : Char → Option Char
  | '"' => some '"'
  | '\\' => some '\\'
  | '/' => some '/'
  | 'b' => some '\x08'
  | 'f' => some '\x0c'
  | 'n' => some '\n'
  | 'r' => some '\r'
  | 't' => some '\t'
  | _ => none

def units : List Char → Option (List Nat × List Char)
  | '"' :: r => some ([], r)
  | '\\' :: 'u' :: a :: b :: c :: d :: r => do
    let n ← escapeUnit? a b c d
    let (ns, r) ← units r
    return (n :: ns, r)
  | '\\' :: e :: r => do
    let c ← shortEscape? e
    let (ns, r) ← units r
    return (c.toNat :: ns, r)
  | c :: r =>
    if c.toNat < 0x20 ∨ c = '\\' then none
    else do
      let (ns, r) ← units r
      return (c.toNat :: ns, r)
  | [] => none

def isHigh (n : Nat) : Bool :=
  0xD800 ≤ n ∧ n < 0xDC00

def isLow (n : Nat) : Bool :=
  0xDC00 ≤ n ∧ n < 0xE000

/-- Joins surrogate pairs. There is no text if half a pair stands alone. -/
def pairs : List Nat → Option (List Char)
  | [] => some []
  | [n] => if isHigh n ∨ isLow n then none else some [Char.ofNat n]
  | n :: m :: r =>
    if isHigh n ∧ isLow m then (pairs r).map (Char.ofNat (0x10000 + (n - 0xD800) * 0x400 + (m - 0xDC00)) :: ·)
    else if isHigh n ∨ isLow n then none
    else (pairs (m :: r)).map (Char.ofNat n :: ·)

def string (s : List Char) : Option (Option String × List Char) :=
  (units s).map fun (ns, r) => ((pairs ns).map String.ofList, r)

def hexDigit (n : Nat) : Char :=
  Char.ofNat (if n < 10 then '0'.toNat + n else 'a'.toNat + n - 10)

def escape (c : Char) : List Char :=
  if c = '"' then ['\\', '"']
  else if c = '\\' then ['\\', '\\']
  else if c = '\x08' then ['\\', 'b']
  else if c = '\x0c' then ['\\', 'f']
  else if c = '\n' then ['\\', 'n']
  else if c = '\r' then ['\\', 'r']
  else if c = '\t' then ['\\', 't']
  else if c.toNat < 0x20 then ['\\', 'u', '0', '0', hexDigit (c.toNat / 16), hexDigit (c.toNat % 16)]
  else [c]

def quote (s : String) : List Char :=
  '"' :: s.toList.flatMap escape ++ ['"']

end SynodStore.Json.Literal

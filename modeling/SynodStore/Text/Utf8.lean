namespace SynodStore.Text.Utf8

/-- Where bytes stop being UTF-8: at a run of bytes that no character begins with, or in a character that the
text ends in. -/
inductive Fault where
  | invalid (length index : Nat)
  | incomplete (index : Nat)
deriving DecidableEq

def Fault.message : Fault → String
  | invalid length index =>
      "invalid utf-8 sequence of " ++ toString length ++ " bytes from index " ++ toString index
  | incomplete index => "incomplete utf-8 byte sequence from index " ++ toString index

/-- A character begun: the bytes still owed, the bounds of the next one, the bits so far and the bytes so far. -/
structure Begun where
  owed : Nat
  least : Nat
  most : Nat
  bits : Nat
  length : Nat

/-- What a first byte of several begins. The bounds shut out overlong forms, surrogates and what lies above the
last code point. -/
def lead? (b : Nat) : Option Begun :=
  if 0xC2 ≤ b ∧ b ≤ 0xDF then some ⟨1, 0x80, 0xBF, b - 0xC0, 1⟩
  else if b = 0xE0 then some ⟨2, 0xA0, 0xBF, 0, 1⟩
  else if b = 0xED then some ⟨2, 0x80, 0x9F, 0xD, 1⟩
  else if 0xE1 ≤ b ∧ b ≤ 0xEF then some ⟨2, 0x80, 0xBF, b - 0xE0, 1⟩
  else if b = 0xF0 then some ⟨3, 0x90, 0xBF, 0, 1⟩
  else if 0xF1 ≤ b ∧ b ≤ 0xF3 then some ⟨3, 0x80, 0xBF, b - 0xF0, 1⟩
  else if b = 0xF4 then some ⟨3, 0x80, 0x8F, 4, 1⟩
  else none

def decodeFrom (index : Nat) : Option Begun → List UInt8 → Except Fault (List Char)
  | none, [] => .ok []
  | some p, [] => .error (.incomplete (index - p.length))
  | none, b :: bs =>
    if b < 0x80 then (decodeFrom (index + 1) none bs).map (Char.ofNat b.toNat :: ·)
    else
      match lead? b.toNat with
      | none => .error (.invalid 1 index)
      | some p => decodeFrom (index + 1) (some p) bs
  | some p, b :: bs =>
    if p.least ≤ b.toNat ∧ b.toNat ≤ p.most then
      let bits := p.bits * 64 + (b.toNat - 0x80)
      if p.owed = 1 then (decodeFrom (index + 1) none bs).map (Char.ofNat bits :: ·)
      else decodeFrom (index + 1) (some ⟨p.owed - 1, 0x80, 0xBF, bits, p.length + 1⟩) bs
    else .error (.invalid p.length (index - p.length))

def decode (bytes : List UInt8) : Except Fault (List Char) :=
  decodeFrom 0 none bytes

def lines : List UInt8 → List (List UInt8)
  | [] => []
  | b :: bs =>
    if b = 10 then [b] :: lines bs
    else
      match lines bs with
      | [] => [[b]]
      | l :: ls => (b :: l) :: ls

def chomp (line : List UInt8) : List UInt8 :=
  match line.reverse with
  | 10 :: 13 :: r => r.reverse
  | 10 :: r => r.reverse
  | _ => line

end SynodStore.Text.Utf8

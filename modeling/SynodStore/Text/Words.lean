namespace SynodStore.Text

def isBlank (c : Char) : Bool :=
  let n := c.toNat
  (0x09 ≤ n ∧ n ≤ 0x0D) ∨ n = 0x20 ∨ n = 0x85 ∨ n = 0xA0 ∨ n = 0x1680 ∨ (0x2000 ≤ n ∧ n ≤ 0x200A) ∨ n = 0x2028 ∨
    n = 0x2029 ∨ n = 0x202F ∨ n = 0x205F ∨ n = 0x3000

def pieces : List Char → List (List Char)
  | [] => [[]]
  | c :: cs =>
    if isBlank c then [] :: pieces cs
    else
      match pieces cs with
      | [] => [[c]]
      | p :: ps => (c :: p) :: ps

def words (s : List Char) : List (List Char) :=
  (pieces s).filter fun p => !p.isEmpty

def trimEnd (s : List Char) : List Char :=
  (s.reverse.dropWhile isBlank).reverse

def trim (s : List Char) : List Char :=
  trimEnd (s.dropWhile isBlank)

end SynodStore.Text

namespace SynodStore

/-- A stream of words from the twelve-round cipher with its block counter in words 12 and 13. -/
structure KeyStream where
  key : Vector UInt32 8
  position : Nat
deriving DecidableEq

namespace KeyStream

abbrev Block := Vector UInt32 16

def rotateLeft (x r : UInt32) : UInt32 :=
  x <<< r ||| x >>> (32 - r)

def rotateRight (x r : UInt32) : UInt32 :=
  x >>> r ||| x <<< (32 - r)

def stir (a b d : Fin 16) (r : UInt32) (s : Block) : Block :=
  let s := s.set a (s[a] + s[b])
  s.set d (rotateLeft (s[d] ^^^ s[a]) r)

def quarter (a b c d : Fin 16) (s : Block) : Block :=
  stir c d b 7 (stir a b d 8 (stir c d b 12 (stir a b d 16 s)))

def columns (s : Block) : Block :=
  quarter 3 7 11 15 (quarter 2 6 10 14 (quarter 1 5 9 13 (quarter 0 4 8 12 s)))

def diagonals (s : Block) : Block :=
  quarter 3 4 9 14 (quarter 2 7 8 13 (quarter 1 6 11 12 (quarter 0 5 10 15 s)))

def doubleRounds : Nat := 6

def initial (key : Vector UInt32 8) (n : Nat) : Block :=
  #v[0x61707865, 0x3320646e, 0x79622d32, 0x6b206574,
    key[0], key[1], key[2], key[3], key[4], key[5], key[6], key[7],
    UInt32.ofNat n, UInt32.ofNat (n / UInt32.size), 0, 0]

def block (key : Vector UInt32 8) (n : Nat) : Block :=
  let s := initial key n
  Vector.zipWith (· + ·) (Nat.repeat (fun t => diagonals (columns t)) doubleRounds s) s

def word (s : KeyStream) : UInt32 :=
  (block s.key (s.position / 16)).get ⟨s.position % 16, Nat.mod_lt _ (by decide)⟩

def next (s : KeyStream) : UInt32 × KeyStream :=
  (s.word, { s with position := s.position + 1 })

def spread (state : UInt64) : UInt64 :=
  state * 6364136223846793005 + 11634580027462260723

def keyWord (state : UInt64) : UInt32 :=
  rotateRight ((state >>> 18 ^^^ state) >>> 27).toUInt32 (state >>> 59).toUInt32

def keyWords : Nat → UInt64 → List UInt32
  | 0, _ => []
  | n + 1, state => keyWord (spread state) :: keyWords n (spread state)

theorem length_keyWords (n : Nat) (state : UInt64) : (keyWords n state).length = n := by
  induction n generalizing state with
  | zero => rfl
  | succ n ih => simp [keyWords, ih]

def ofSeed (seed : UInt64) : KeyStream :=
  ⟨⟨(keyWords 8 seed).toArray, by simp [length_keyWords]⟩, 0⟩

/-- Draws refused before the lower bound is taken without a draw. Drawing may as well go on for ever, but a word is
refused with a chance below one half, so that a thousand refusals in a row are not met. -/
def maxRefusals : Nat := 1000

/-- A word `w` is kept if the low half of `w * width` is at most `zone`, which makes the high half of
the product uniform below `width`. -/
def drawBelow (width zone : UInt32) : Nat → KeyStream → UInt32 × KeyStream
  | 0, s => (0, s)
  | n + 1, s =>
    let product := s.word.toNat * width.toNat
    if product % UInt32.size ≤ zone.toNat then (UInt32.ofNat (product / UInt32.size), s.next.2)
    else drawBelow width zone n s.next.2

def zone (width : UInt32) : UInt32 :=
  width <<< UInt32.ofNat (31 - Nat.log2 width.toNat) - 1

def draw (lo hi : UInt32) (s : KeyStream) : UInt32 × KeyStream :=
  let width := hi - lo + 1
  if width = 0 then s.next
  else
    let (offset, rest) := drawBelow width (zone width) maxRefusals s
    (lo + offset, rest)

theorem drawBelow_lt {width : UInt32} (h : width ≠ 0) (zone : UInt32) (n : Nat) (s : KeyStream) :
    (drawBelow width zone n s).1 < width := by
  have hw : 0 < width.toNat := Nat.pos_of_ne_zero fun h0 => h (UInt32.toNat_inj.1 h0)
  induction n generalizing s with
  | zero => exact UInt32.lt_iff_toNat_lt.2 hw
  | succ n ih =>
    simp only [drawBelow]
    split
    · have hv := s.word.toNat_lt
      have hq : s.word.toNat * width.toNat / UInt32.size < width.toNat :=
        Nat.div_lt_of_lt_mul (Nat.mul_lt_mul_of_lt_of_le hv (Nat.le_refl _) hw)
      have hs := width.toNat_lt
      rw [UInt32.lt_iff_toNat_lt, UInt32.toNat_ofNat_of_lt' (Nat.lt_trans hq hs)]
      exact hq
    · exact ih _

theorem le_draw {lo hi : UInt32} (h : lo ≤ hi) (s : KeyStream) : lo ≤ (s.draw lo hi).1 ∧ (s.draw lo hi).1 ≤ hi := by
  have hh := UInt32.le_iff_toNat_le.1 h
  have h1 := lo.toNat_lt
  have h2 := hi.toNat_lt
  have hd : (hi - lo).toNat = hi.toNat - lo.toNat := UInt32.toNat_sub_of_le _ _ h
  have hw : (hi - lo + 1).toNat = (hi.toNat - lo.toNat + 1) % 2 ^ 32 := by rw [UInt32.toNat_add, hd]; rfl
  simp only [draw]
  split
  · rename_i h0
    rw [h0] at hw
    have hz : (hi.toNat - lo.toNat + 1) % 2 ^ 32 = 0 := hw.symm
    have h3 := s.next.1.toNat_lt
    simp only [UInt32.le_iff_toNat_le]
    omega
  · rename_i h0
    have hlt := UInt32.lt_iff_toNat_lt.1 (drawBelow_lt h0 (zone (hi - lo + 1)) maxRefusals s)
    have ha := UInt32.toNat_add lo (drawBelow (hi - lo + 1) (zone (hi - lo + 1)) maxRefusals s).1
    simp only [UInt32.le_iff_toNat_le]
    omega

end KeyStream

end SynodStore

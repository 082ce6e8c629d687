import SynodStore.Json.Writer
import SynodStore.Proofs.Spelling

namespace SynodStore.Json

namespace Literal

variable {c : Char} {d l s : List Char}

theorem digits_of_eq_some (h : digits s = some (d, l)) : Digits d ∧ d = s.takeWhile Char.isDigit := by
  simp only [digits] at h
  split at h
  · cases h
  · rename_i hne
    cases h
    exact ⟨⟨hne, fun c hc => List.mem_takeWhile_imp hc⟩, rfl⟩

theorem whole_of_eq_some (h : whole s = some (d, l)) : Whole d := by
  unfold whole at h
  split at h
  · cases h
    exact .zero
  · rename_i hs
    obtain ⟨hd, rfl⟩ := digits_of_eq_some h
    cases s with
    | nil => exact absurd rfl hd.ne_nil
    | cons c s =>
        have hc : c ≠ '0' := by
          rintro rfl
          exact hs s rfl
        rw [List.takeWhile_cons] at hd ⊢
        split
        · rw [if_pos ‹_›] at hd
          exact .digits hc hd
        · rw [if_neg ‹_›] at hd
          exact absurd rfl hd.ne_nil

theorem fraction_of_eq_some (h : fraction s = some (d, l)) : Fraction d := by
  unfold fraction at h
  split at h
  · obtain ⟨p, hp, he⟩ := Option.map_eq_some_iff.1 h
    cases he
    exact .some (digits_of_eq_some hp).1
  · cases h
    exact .none

theorem exponentSign_cases (s : List Char) :
    (exponentSign s).1 = [] ∨ (exponentSign s).1 = ['+'] ∨ (exponentSign s).1 = ['-'] := by
  unfold exponentSign
  split
  · exact .inr (.inl rfl)
  · unfold sign
    split
    · exact .inr (.inr rfl)
    · exact .inl rfl

theorem exponent_of_eq_some (h : exponent s = some (d, l)) : Exponent d := by
  unfold exponent at h
  split at h
  · split at h
    · obtain ⟨p, hp, he⟩ := Option.map_eq_some_iff.1 h
      cases he
      exact .some ‹_› (exponentSign_cases _) (digits_of_eq_some hp).1
    · cases h
      exact .none
  · cases h
    exact .none

theorem numeral_of_eq_some (h : number s = some (d, l)) : Numeral d := by
  have hsign : (sign s).1 = [] ∨ (sign s).1 = ['-'] := by
    unfold sign
    split
    · exact .inr rfl
    · exact .inl rfl
  simp only [number, Option.bind_eq_bind, Option.bind_eq_some_iff, Option.pure_def, Option.some.injEq] at h
  obtain ⟨w, hw, f, hf, e, he, hd⟩ := h
  cases hd
  rw [List.append_assoc, List.append_assoc]
  exact .intro hsign (whole_of_eq_some hw) (fraction_of_eq_some hf) (exponent_of_eq_some he)

theorem eq_nil_of_toDigits {n : Nat} {s : List Char} (h : Nat.toDigits 10 n = '0' :: s) : s = [] := by
  rw [Nat.toDigits_eq_if (by decide)] at h
  split at h
  · exact (List.cons.inj h).2.symm
  · rename_i hn
    obtain ⟨c, t, ht⟩ := List.exists_cons_of_ne_nil (Nat.toDigits_ne_nil (n := n / 10) (b := 10))
    rw [ht, List.cons_append] at h
    obtain rfl := (List.cons.inj h).1
    obtain rfl := eq_nil_of_toDigits ht
    have hzero : Nat.ofDigitChars 10 (Nat.toDigits 10 (n / 10)) 0 = n / 10 := Nat.ofDigitChars_ten_toDigits
    rw [ht] at hzero
    have : 0 = n / 10 := hzero
    omega
termination_by n
decreasing_by omega

theorem numeral_toDigits (n : Nat) : Numeral (Nat.toDigits 10 n) := by
  have hdigits : Digits (Nat.toDigits 10 n) :=
    ⟨Nat.toDigits_ne_nil, fun c hc => Nat.isDigit_of_mem_toDigits (by decide) (by decide) hc⟩
  have hwhole : Whole (Nat.toDigits 10 n) := by
    obtain ⟨c, s, hs⟩ := List.exists_cons_of_ne_nil (Nat.toDigits_ne_nil (n := n) (b := 10))
    rw [hs] at hdigits ⊢
    by_cases hc : c = '0'
    · subst hc
      rw [eq_nil_of_toDigits hs]
      exact .zero
    · exact .digits hc hdigits
  have hnumeral := Numeral.intro (.inl rfl) hwhole .none .none
  rwa [List.nil_append, List.append_nil, List.append_nil] at hnumeral

theorem natural?_toDigits (n : Nat) : natural? (Nat.toDigits 10 n) = some n := by
  have hdigit : (Nat.toDigits 10 n).all Char.isDigit = true :=
    List.all_eq_true.2 fun c hc => Nat.isDigit_of_mem_toDigits (by decide) (by decide) hc
  have hvalue : Nat.ofDigitChars 10 (Nat.toDigits 10 n) 0 = n := Nat.ofDigitChars_ten_toDigits
  rw [Nat.ofDigitChars_eq_foldl] at hvalue
  rw [natural?, if_pos ⟨Nat.toDigits_ne_nil, hdigit⟩]
  exact congrArg some hvalue

theorem mem_hexDigits {n : Nat} (h : n < 16) : (hexDigit n, n) ∈ hexDigits := by
  revert n
  decide

theorem mem_hexDigits_zero : ('0', 0) ∈ hexDigits := by
  decide

theorem letter_escape (c : Char) : Letter c.toNat (escape c) := by
  unfold escape
  split_ifs with h1 h2 h3 h4 h5 h6 h7 h8
  · subst h1; exact .short (by decide)
  · subst h2; exact .short (by decide)
  · subst h3; exact .short (by decide)
  · subst h4; exact .short (by decide)
  · subst h5; exact .short (by decide)
  · subst h6; exact .short (by decide)
  · subst h7; exact .short (by decide)
  · have hunit := Letter.hex mem_hexDigits_zero mem_hexDigits_zero (mem_hexDigits (n := c.toNat / 16) (by omega))
      (mem_hexDigits (n := c.toNat % 16) (by omega))
    rwa [show ((0 * 16 + 0) * 16 + c.toNat / 16) * 16 + c.toNat % 16 = c.toNat by omega] at hunit
  · exact .plain (by omega) h1 h2

theorem not_surrogate (c : Char) : isHigh c.toNat = false ∧ isLow c.toNat = false := by
  have hc : c.toNat < 0xD800 ∨ 0xDFFF < c.toNat ∧ c.toNat < 0x110000 := c.valid
  simp only [isHigh, isLow, decide_eq_false_iff_not]
  omega

theorem pairs_map_toNat (s : List Char) : pairs (s.map Char.toNat) = some s := by
  induction s with
  | nil => rfl
  | cons c s ih =>
      obtain ⟨hhigh, hlow⟩ := not_surrogate c
      cases s with
      | nil => simp [pairs, hhigh, hlow, Char.ofNat_toNat]
      | cons d s =>
          rw [List.map_cons] at ih
          simp [pairs, hhigh, hlow, ih, Char.ofNat_toNat]

theorem quoted_quote (t : String) : Quoted (some t) (quote t) := by
  have hletters : List.Forall₂ Letter (t.toList.map Char.toNat) (t.toList.map escape) := by
    rw [List.forall₂_map_left_iff, List.forall₂_map_right_iff]
    exact List.forall₂_same.2 fun c _ => letter_escape c
  have hquoted := Quoted.intro hletters
  rwa [pairs_map_toNat, Option.map_some, String.ofList_toList, ← List.flatMap_def] at hquoted

end Literal

open Literal

/-! Documents that are written as they are read. -/

mutual

/-- All numbers in the document are literals, and all strings and names are texts. -/
def Proper : Json → Prop
  | null | bool _ => True
  | number l => Literal.number l = some (l, [])
  | string t => t.isSome
  | array vs => ProperItems vs
  | object fs => ProperFields fs

def ProperItems : List Json → Prop
  | [] => True
  | v :: vs => v.Proper ∧ ProperItems vs

def ProperFields : List (Option String × Json) → Prop
  | [] => True
  | (k, v) :: fs => k.isSome ∧ v.Proper ∧ ProperFields fs

end

theorem proper_ofNat (n : Nat) : (ofNat n).Proper := by
  have hnumber := number_append (numeral_toDigits n) (r := []) nofun
  rwa [List.append_nil] at hnumber

mutual

theorem spelled_chars (v : Json) (h : v.Proper) : Spelled v v.chars := by
  match v with
  | .null => exact .null
  | .bool true => exact .true
  | .bool false => exact .false
  | .number l => exact .number (numeral_of_eq_some h)
  | .string (some t) => exact .string (quoted_quote t)
  | .array [] => exact .nothing nofun
  | .array (v :: vs) => exact .array (spelled_itemChars (v :: vs) (List.cons_ne_nil v vs) h)
  | .object [] => exact .empty nofun
  | .object (f :: fs) => exact .object (spelled_fieldChars (f :: fs) (List.cons_ne_nil f fs) h)

theorem spelled_itemChars (vs : List Json) (hne : vs ≠ []) (h : ProperItems vs) : SpelledItems vs (itemChars vs) := by
  match vs with
  | [] => exact absurd rfl hne
  | [v] => exact .last (spelled_chars v h.1)
  | v :: w :: vs => exact .next (spelled_chars v h.1) (spelled_itemChars (w :: vs) (List.cons_ne_nil w vs) h.2)

theorem spelled_fieldChars (fs : List (Option String × Json)) (hne : fs ≠ []) (h : ProperFields fs) :
    SpelledFields fs (fieldChars fs) := by
  match fs with
  | [] => exact absurd rfl hne
  | [(some k, v)] => exact .last (.string (quoted_quote k)) (spelled_chars v h.2.1)
  | (some k, v) :: f :: fs =>
      rw [fieldChars, List.append_assoc]
      exact .next (.string (quoted_quote k)) (spelled_chars v h.2.1)
        (spelled_fieldChars (f :: fs) (List.cons_ne_nil f fs) h.2.2)

end

theorem ofText?_text {v : Json} (h : v.Proper) : ofText? v.text = some v := by
  rw [ofText?, text, String.toList_ofList, ofChars?_of_spelled (spelled_chars v h)]

end SynodStore.Json

import Mathlib.Data.List.Forall2
import Mathlib.Data.List.TakeWhile
import SynodStore.Json.Reader

namespace SynodStore.Json

/-! The texts of documents, however blanks are placed and characters escaped in them. -/

namespace Literal

def Blank (s : List Char) : Prop :=
  ∀ c ∈ s, isBlank c = true

structure Digits (s : List Char) : Prop where
  ne_nil : s ≠ []
  digit : ∀ c ∈ s, c.isDigit = true

inductive Whole : List Char → Prop
  | zero : Whole ['0']
  | digits {c : Char} {s : List Char} (hc : c ≠ '0') (h : Digits (c :: s)) : Whole (c :: s)

inductive Fraction : List Char → Prop
  | none : Fraction []
  | some {s : List Char} (h : Digits s) : Fraction ('.' :: s)

inductive Exponent : List Char → Prop
  | none : Exponent []
  | some {c : Char} {sign s : List Char} (hc : c = 'e' ∨ c = 'E') (hsign : sign = [] ∨ sign = ['+'] ∨ sign = ['-'])
      (h : Digits s) : Exponent (c :: (sign ++ s))

inductive Numeral : List Char → Prop
  | intro {sign whole fraction exponent : List Char} (hsign : sign = [] ∨ sign = ['-']) (hw : Whole whole)
      (hf : Fraction fraction) (he : Exponent exponent) : Numeral (sign ++ (whole ++ (fraction ++ exponent)))

def shorthands : List (Char × Char) :=
  [('"', '"'), ('\\', '\\'), ('/', '/'), ('b', '\x08'), ('f', '\x0c'), ('n', '\n'), ('r', '\r'), ('t', '\t')]

def hexDigits : List (Char × Nat) :=
  "0123456789abcdef".toList.zipIdx ++ "ABCDEF".toList.zipIdx 10

inductive Letter : Nat → List Char → Prop
  | plain {c : Char} (hc : 0x20 ≤ c.toNat) (hquote : c ≠ '"') (hslash : c ≠ '\\') : Letter c.toNat [c]
  | short {e c : Char} (h : (e, c) ∈ shorthands) : Letter c.toNat ['\\', e]
  | hex {a b c d : Char} {w x y z : Nat} (ha : (a, w) ∈ hexDigits) (hb : (b, x) ∈ hexDigits)
      (hc : (c, y) ∈ hexDigits) (hd : (d, z) ∈ hexDigits) :
      Letter (((w * 16 + x) * 16 + y) * 16 + z) ['\\', 'u', a, b, c, d]

/-- A string literal, and its text if no half of a surrogate pair stands alone in it. -/
inductive Quoted : Option String → List Char → Prop
  | intro {ns : List Nat} {letters : List (List Char)} (h : List.Forall₂ Letter ns letters) :
      Quoted ((pairs ns).map String.ofList) ('"' :: (letters.flatten ++ ['"']))

end Literal

open Literal

mutual

/-- The text is the document, with blanks wherever they may stand. -/
inductive Spelled : Json → List Char → Prop
  | null : Spelled .null ['n', 'u', 'l', 'l']
  | true : Spelled (.bool true) ['t', 'r', 'u', 'e']
  | false : Spelled (.bool false) ['f', 'a', 'l', 's', 'e']
  | number {l : List Char} (h : Numeral l) : Spelled (.number l) l
  | string {t : Option String} {s : List Char} (h : Quoted t s) : Spelled (.string t) s
  | nothing {b : List Char} (hb : Blank b) : Spelled (.array []) ('[' :: (b ++ [']']))
  | array {vs : List Json} {s : List Char} (h : SpelledItems vs s) : Spelled (.array vs) ('[' :: (s ++ [']']))
  | empty {b : List Char} (hb : Blank b) : Spelled (.object []) ('\x7b' :: (b ++ ['\x7d']))
  | object {fs : List (Option String × Json)} {s : List Char} (h : SpelledFields fs s) :
      Spelled (.object fs) ('\x7b' :: (s ++ ['\x7d']))
  | before {v : Json} {c : Char} {s : List Char} (hc : isBlank c = true) (h : Spelled v s) : Spelled v (c :: s)
  | after {v : Json} {c : Char} {s : List Char} (h : Spelled v s) (hc : isBlank c = true) : Spelled v (s ++ [c])

inductive SpelledItems : List Json → List Char → Prop
  | last {v : Json} {s : List Char} (h : Spelled v s) : SpelledItems [v] s
  | next {v : Json} {vs : List Json} {s t : List Char} (h : Spelled v s) (ht : SpelledItems vs t) :
      SpelledItems (v :: vs) (s ++ ',' :: t)

inductive SpelledFields : List (Option String × Json) → List Char → Prop
  | last {k : Option String} {v : Json} {s t : List Char} (hk : Spelled (.string k) s) (hv : Spelled v t) :
      SpelledFields [(k, v)] (s ++ ':' :: t)
  | next {k : Option String} {v : Json} {fs : List (Option String × Json)} {s t u : List Char}
      (hk : Spelled (.string k) s) (hv : Spelled v t) (hu : SpelledFields fs u) :
      SpelledFields ((k, v) :: fs) (s ++ ':' :: (t ++ ',' :: u))

end

namespace Literal

variable {c : Char} {b d l r s : List Char}

/-- What follows does not belong to a number any more. -/
def Stops (r : List Char) : Prop :=
  ∀ c ∈ r.head?, c.isDigit = false ∧ c ≠ '.' ∧ c ≠ 'e' ∧ c ≠ 'E'

theorem digits_append (h : Digits d) (hr : ∀ c ∈ r.head?, c.isDigit = false) : digits (d ++ r) = some (d, r) := by
  have hstop : r.takeWhile Char.isDigit = [] ∧ r.dropWhile Char.isDigit = r := by
    cases r with
    | nil => exact ⟨rfl, rfl⟩
    | cons c r => simp [hr c rfl]
  have htake : (d ++ r).takeWhile Char.isDigit = d := by
    rw [List.takeWhile_append_of_pos h.digit, hstop.1, List.append_nil]
  have hdrop : (d ++ r).dropWhile Char.isDigit = r := by
    rw [List.dropWhile_append_of_pos h.digit, hstop.2]
  obtain ⟨c, t, rfl⟩ := List.exists_cons_of_ne_nil h.ne_nil
  simp only [digits, htake, hdrop]

theorem whole_append (h : Whole d) (hr : ∀ c ∈ r.head?, c.isDigit = false) : whole (d ++ r) = some (d, r) := by
  cases h with
  | zero => rfl
  | digits hc h =>
      rw [whole]
      · exact digits_append h hr
      · exact fun t ht => hc (List.cons.inj ht).1

theorem fraction_append (h : Fraction d) (hr : ∀ c ∈ r.head?, c.isDigit = false ∧ c ≠ '.') :
    fraction (d ++ r) = some (d, r) := by
  cases h with
  | none =>
      rw [List.nil_append, fraction]
      rintro t rfl
      exact (hr '.' rfl).2 rfl
  | some h =>
      rw [List.cons_append, fraction, digits_append h fun c hc => (hr c hc).1]
      rfl

theorem exponentSign_append (hs : s = [] ∨ s = ['+'] ∨ s = ['-']) (h : Digits d) (r : List Char) :
    exponentSign (s ++ (d ++ r)) = (s, d ++ r) := by
  obtain ⟨c, t, rfl⟩ := List.exists_cons_of_ne_nil h.ne_nil
  have hc := h.digit c List.mem_cons_self
  rcases hs with rfl | rfl | rfl
  · have hplus : c ≠ '+' := by rintro rfl; exact absurd hc (by decide)
    have hminus : c ≠ '-' := by rintro rfl; exact absurd hc (by decide)
    simp [exponentSign, sign, hplus, hminus]
  · rfl
  · rfl

theorem exponent_append (h : Exponent d) (hr : Stops r) : exponent (d ++ r) = some (d, r) := by
  cases h with
  | none =>
      cases r with
      | nil => rfl
      | cons c r =>
          obtain ⟨-, -, he, hE⟩ := hr c rfl
          simp [exponent, he, hE]
  | some hc hsign h =>
      rw [List.cons_append, List.append_assoc, exponent, if_pos hc, exponentSign_append hsign h]
      dsimp only
      rw [digits_append h fun c hc => (hr c hc).1]
      rfl

/-- A number literal is read in full in front of whatever does not go on with it. -/
theorem number_append (h : Numeral l) (hr : Stops r) : number (l ++ r) = some (l, r) := by
  cases h with
  | @intro sg w f e hsign hw hf he =>
      have hexponent : ∀ c ∈ (e ++ r).head?, c.isDigit = false ∧ c ≠ '.' := by
        cases he with
        | none => exact fun c hc => ⟨(hr c hc).1, (hr c hc).2.1⟩
        | some hc =>
            rintro c ⟨⟩
            rcases hc with rfl | rfl <;> decide
      have hfraction : ∀ c ∈ (f ++ (e ++ r)).head?, c.isDigit = false := by
        cases hf with
        | none => exact fun c hc => (hexponent c hc).1
        | some => rintro c ⟨⟩; rfl
      have hsigned : sign (sg ++ (w ++ (f ++ (e ++ r)))) = (sg, w ++ (f ++ (e ++ r))) := by
        rcases hsign with rfl | rfl
        · cases hw with
          | zero => rfl
          | @digits c s _ h =>
              have hc := h.digit c List.mem_cons_self
              have hminus : c ≠ '-' := by rintro rfl; exact absurd hc (by decide)
              simp [sign, hminus]
        · rfl
      simp only [List.append_assoc, number, hsigned, whole_append hw hfraction, fraction_append hf hexponent,
        exponent_append he hr, Option.bind_eq_bind, Option.bind_some, Option.pure_def]

theorem exists_of_numeral (h : Numeral l) : ∃ c t, l = c :: t ∧ (c = '-' ∨ c.isDigit = true) := by
  cases h with
  | intro hsign hw =>
      rcases hsign with rfl | rfl
      · cases hw with
        | zero => exact ⟨_, _, rfl, .inr rfl⟩
        | digits _ h => exact ⟨_, _, rfl, .inr (h.digit _ List.mem_cons_self)⟩
      · exact ⟨_, _, rfl, .inl rfl⟩

theorem shortEscape?_of_mem : ∀ p ∈ shorthands, p.1 ≠ 'u' ∧ shortEscape? p.1 = some p.2 := by
  decide

theorem hexDigit?_of_mem : ∀ p ∈ hexDigits, hexDigit? p.1 = some p.2 := by
  decide

theorem units_letter {n : Nat} (h : Letter n l) (s : List Char) :
    units (l ++ s) = (units s).map fun p => (n :: p.1, p.2) := by
  have hmap (n : Nat) : (units s >>= fun p => some (n :: p.1, p.2)) = (units s).map fun p => (n :: p.1, p.2) := by
    cases units s <;> rfl
  cases h with
  | plain hc hquote hslash =>
      rw [List.singleton_append, units]
      · rw [if_neg (by simp [hslash]; omega)]
        exact hmap _
      all_goals simp [hquote, hslash]
  | short h =>
      obtain ⟨hu, he⟩ := shortEscape?_of_mem _ h
      rw [List.cons_append, List.singleton_append, units]
      · rw [he]
        exact hmap _
      · simp [hu]
  | hex ha hb hc hd =>
      simp only [List.cons_append, List.nil_append, units, escapeUnit?, hexDigit?_of_mem _ ha, hexDigit?_of_mem _ hb,
        hexDigit?_of_mem _ hc, hexDigit?_of_mem _ hd]
      exact hmap _

theorem units_letters {ns : List Nat} {letters : List (List Char)} (h : List.Forall₂ Letter ns letters) (r : List Char) :
    units (letters.flatten ++ '"' :: r) = some (ns, r) := by
  induction h with
  | nil => rfl
  | cons h _ ih => rw [List.flatten_cons, List.append_assoc, units_letter h, ih, Option.map_some]

theorem stops_cons (hc : isBlank c = true ∨ c ∈ [',', ':', ']', '\x7d']) (r : List Char) : Stops (c :: r) := by
  rintro d ⟨⟩
  simp only [isBlank, decide_eq_true_eq, List.mem_cons, List.not_mem_nil, or_false] at hc
  rcases hc with (rfl | rfl | rfl | rfl) | rfl | rfl | rfl | rfl <;> decide

theorem skipBlank_cons (hc : isBlank c = true) (s : List Char) : skipBlank (c :: s) = skipBlank s :=
  List.dropWhile_cons_of_pos hc

theorem skipBlank_append (hb : Blank b) (s : List Char) : skipBlank (b ++ s) = skipBlank s :=
  List.dropWhile_append_of_pos hb

theorem skipBlank_of_not (hc : isBlank c = false) (s : List Char) : skipBlank (c :: s) = c :: s :=
  List.dropWhile_cons_of_neg (by simp [hc])

theorem string_quoted {t : Option String} (h : Quoted t l) :
    ∃ s, l = '"' :: s ∧ ∀ r, string (s ++ r) = some (t, r) := by
  cases h with
  | intro h =>
      refine ⟨_, rfl, fun r => ?_⟩
      rw [List.append_assoc, List.singleton_append, string, units_letters h, Option.map_some]

end Literal

section

variable {n : Nat} {c : Char} {b s t r : List Char} {k : Option String} {v : Json} {vs : List Json}
variable {fs : List (Option String × Json)}

theorem parse_cons (hc : isBlank c = true) (n : Nat) (g : Goal) (s : List Char) : parse n g (c :: s) = parse n g s := by
  have hvalue (n : Nat) : parse n .value (c :: s) = parse n .value s := by
    cases n with
    | zero => rfl
    | succ n => simp only [parse, skipBlank_cons hc]
  cases g with
  | value => exact hvalue n
  | items =>
      cases n with
      | zero => rfl
      | succ n => rw [parse, parse, hvalue]
  | fields =>
      cases n with
      | zero => rfl
      | succ n => simp only [parse, skipBlank_cons hc]

theorem parse_append (hb : Blank b) (n : Nat) (g : Goal) (s : List Char) : parse n g (b ++ s) = parse n g s := by
  induction b with
  | nil => rfl
  | cons c b ih =>
      obtain ⟨hc, hb⟩ := List.forall_mem_cons.1 hb
      rw [List.cons_append, parse_cons hc, ih hb]

theorem parse_skipBlank (n : Nat) (g : Goal) (s : List Char) : parse n g (skipBlank s) = parse n g s := by
  have hs : s.takeWhile isBlank ++ skipBlank s = s := List.takeWhile_append_dropWhile
  have hb : Blank (s.takeWhile isBlank) := fun c hc => List.mem_takeWhile_imp hc
  rw [← parse_append hb, hs]

theorem skipBlank_ne_of_items {p : List Json × List Char} (h : parse n .items s = some p) (t : List Char) :
    skipBlank s ≠ ']' :: t := by
  intro hs
  rw [← parse_skipBlank, hs] at h
  obtain _ | _ | n := n
  · cases h
  · cases h
  · cases h

theorem skipBlank_ne_of_fields {p : List (Option String × Json) × List Char} (h : parse n .fields s = some p)
    (t : List Char) : skipBlank s ≠ '\x7d' :: t := by
  intro hs
  rw [← parse_skipBlank, hs] at h
  cases n <;> cases h

/-! What the reader does behind each opening character. -/

theorem parse_bracket (n : Nat) (s : List Char) : parse (n + 1) .value ('[' :: s) = match skipBlank s with
    | ']' :: r => some (array [], r)
    | t => (parse n .items t).map fun (vs, r) => (array vs, r) := rfl

theorem parse_brace (n : Nat) (s : List Char) : parse (n + 1) .value ('\x7b' :: s) = match skipBlank s with
    | '\x7d' :: r => some (object [], r)
    | t => (parse n .fields t).map fun (fs, r) => (object fs, r) := rfl

theorem parse_array (h : parse n .items s = some (vs, r)) : parse (n + 1) .value ('[' :: s) = some (array vs, r) := by
  have hclose := skipBlank_ne_of_items h
  rw [← parse_skipBlank] at h
  rw [parse_bracket]
  split
  · exact absurd ‹_› (hclose _)
  · exact congrArg (Option.map _) h

theorem parse_nothing (hb : Blank b) (n : Nat) (r : List Char) :
    parse (n + 1) .value ('[' :: (b ++ ']' :: r)) = some (array [], r) := by
  rw [parse_bracket, skipBlank_append hb]
  rfl

theorem parse_empty (hb : Blank b) (n : Nat) (r : List Char) :
    parse (n + 1) .value ('\x7b' :: (b ++ '\x7d' :: r)) = some (object [], r) := by
  rw [parse_brace, skipBlank_append hb]
  rfl

theorem parse_object (h : parse n .fields s = some (fs, r)) :
    parse (n + 1) .value ('\x7b' :: s) = some (object fs, r) := by
  have hclose := skipBlank_ne_of_fields h
  rw [← parse_skipBlank] at h
  rw [parse_brace]
  split
  · exact absurd ‹_› (hclose _)
  · exact congrArg (Option.map _) h

theorem parse_number (hc : c = '-' ∨ c.isDigit = true) (n : Nat) (s : List Char) :
    parse (n + 1) .value (c :: s) = (Literal.number (c :: s)).map fun p => (Json.number p.1, p.2) := by
  have hne {d : Char} (hminus : d ≠ '-') (hdigit : d.isDigit = false) : c ≠ d := by
    rintro rfl
    rcases hc with hc | hc
    · exact hminus hc
    · exact absurd hc (by simp [hdigit])
  have hblank : isBlank c = false := by
    simp [isBlank, hne (d := ' ') (by decide) rfl, hne (d := '\t') (by decide) rfl, hne (d := '\n') (by decide) rfl,
      hne (d := '\r') (by decide) rfl]
  rw [parse, skipBlank_of_not hblank]
  split
  case h_7 => rfl
  all_goals exact absurd (List.cons.inj ‹_›).1 (hne (by decide) rfl)

theorem string_of_parse (h : parse n .value s = some (string k, r)) :
    ∃ t, skipBlank s = '"' :: t ∧ Literal.string t = some (k, r) := by
  cases n with
  | zero => cases h
  | succ n =>
      rw [parse] at h
      split at h
      case h_4 hs =>
        obtain ⟨p, hp, he⟩ := Option.map_eq_some_iff.1 h
        cases he
        exact ⟨_, hs, hp⟩
      case h_5 =>
        split at h
        · cases h
        · obtain ⟨p, -, he⟩ := Option.map_eq_some_iff.1 h
          cases he
      case h_6 =>
        split at h
        · cases h
        · obtain ⟨p, -, he⟩ := Option.map_eq_some_iff.1 h
          cases he
      case h_7 =>
        obtain ⟨p, -, he⟩ := Option.map_eq_some_iff.1 h
        cases he
      all_goals cases h

theorem parse_items (h : parse n .value s = some (v, t)) :
    parse (n + 1) .items s = match skipBlank t with
      | ']' :: r => some ([v], r)
      | ',' :: r => (parse n .items r).map fun (vs, r) => (v :: vs, r)
      | _ => none := by
  exact congrArg (Option.bind · _) h

theorem parse_last_item (h : parse n .value s = some (v, b ++ ']' :: r)) (hb : Blank b) :
    parse (n + 1) .items s = some ([v], r) := by
  rw [parse_items h, skipBlank_append hb]
  rfl

theorem parse_next_item (h : parse n .value s = some (v, b ++ ',' :: t)) (hb : Blank b)
    (ht : parse n .items t = some (vs, r)) : parse (n + 1) .items s = some (v :: vs, r) := by
  rw [parse_items h, skipBlank_append hb]
  exact congrArg (Option.map _) ht

variable {b' u : List Char}

theorem parse_name (n : Nat) (s : List Char) :
    parse (n + 1) .fields ('"' :: s) = (Literal.string s).bind fun (k, r) => match skipBlank r with
      | ':' :: r => (parse n .value r).bind fun (v, r) => match skipBlank r with
        | '\x7d' :: r => some ([(k, v)], r)
        | ',' :: r => (parse n .fields r).map fun (fs, r) => ((k, v) :: fs, r)
        | _ => none
      | _ => none := rfl

theorem parse_fields (hk : parse n .value s = some (string k, b ++ ':' :: t)) (hb : Blank b)
    (hv : parse n .value t = some (v, u)) :
    parse (n + 1) .fields s = match skipBlank u with
      | '\x7d' :: r => some ([(k, v)], r)
      | ',' :: r => (parse n .fields r).map fun (fs, r) => ((k, v) :: fs, r)
      | _ => none := by
  obtain ⟨w, hs, hw⟩ := string_of_parse hk
  rw [← parse_skipBlank, hs, parse_name, hw, Option.bind_some]
  dsimp only
  rw [skipBlank_append hb]
  exact congrArg (Option.bind · _) hv

theorem parse_last_field (hk : parse n .value s = some (string k, b ++ ':' :: t)) (hb : Blank b)
    (hv : parse n .value t = some (v, b' ++ '\x7d' :: r)) (hb' : Blank b') :
    parse (n + 1) .fields s = some ([(k, v)], r) := by
  rw [parse_fields hk hb hv, skipBlank_append hb']
  rfl

theorem parse_next_field (hk : parse n .value s = some (string k, b ++ ':' :: t)) (hb : Blank b)
    (hv : parse n .value t = some (v, b' ++ ',' :: u)) (hb' : Blank b') (hu : parse n .fields u = some (fs, r)) :
    parse (n + 1) .fields s = some ((k, v) :: fs, r) := by
  rw [parse_fields hk hb hv, skipBlank_append hb']
  exact congrArg (Option.map _) hu

end

theorem length_pos_of_spelled {v : Json} {s : List Char} (h : Spelled v s) : 0 < s.length := by
  cases h with
  | number h =>
      obtain ⟨c, t, rfl, -⟩ := exists_of_numeral h
      exact Nat.succ_pos _
  | string h =>
      obtain ⟨t, rfl, -⟩ := string_quoted h
      exact Nat.succ_pos _
  | after => simp
  | _ => exact Nat.succ_pos _

mutual

/-- A spelled document is read off the front of a text, up to blanks behind it, in no more calls in a row than twice
its characters. -/
theorem parse_spelled {v : Json} {s : List Char} (h : Spelled v s) {n : Nat} (hn : 2 * s.length ≤ n) {r : List Char}
    (hr : Stops r) : ∃ b, Blank b ∧ parse n .value (s ++ r) = some (v, b ++ r) := by
  have hpos := length_pos_of_spelled h
  obtain ⟨n, rfl⟩ : ∃ m, n = m + 1 := Nat.exists_eq_add_one.2 (by omega)
  have hnil : Blank [] := nofun
  match h with
  | .null | .true | .false => exact ⟨[], hnil, rfl⟩
  | .number h =>
      obtain ⟨c, t, rfl, hc⟩ := exists_of_numeral h
      refine ⟨[], hnil, ?_⟩
      rw [List.cons_append, parse_number hc, ← List.cons_append, number_append h hr]
      rfl
  | .string h =>
      obtain ⟨t, rfl, ht⟩ := string_quoted h
      exact ⟨[], hnil, congrArg (Option.map _) (ht r)⟩
  | .nothing hb =>
      rw [List.cons_append, List.append_assoc]
      exact ⟨[], hnil, parse_nothing hb n r⟩
  | .array h =>
      have hitems := parse_spelledItems h (n := n) (by simp at hn; omega) r
      rw [List.cons_append, List.append_assoc]
      exact ⟨[], hnil, parse_array hitems⟩
  | .empty hb =>
      rw [List.cons_append, List.append_assoc]
      exact ⟨[], hnil, parse_empty hb n r⟩
  | .object h =>
      have hfields := parse_spelledFields h (n := n) (by simp at hn; omega) r
      rw [List.cons_append, List.append_assoc]
      exact ⟨[], hnil, parse_object hfields⟩
  | .before hc h =>
      obtain ⟨b, hb, hv⟩ := parse_spelled h (n := n + 1) (by rw [List.length_cons] at hn; omega) hr
      exact ⟨b, hb, (parse_cons hc ..).trans hv⟩
  | .after (c := c) h hc =>
      obtain ⟨b, hb, hv⟩ := parse_spelled h (n := n + 1) (by rw [List.length_append] at hn; omega)
        (stops_cons (.inl hc) r)
      refine ⟨b ++ [c], List.forall_mem_append.2 ⟨hb, List.forall_mem_singleton.2 hc⟩, ?_⟩
      rw [List.append_assoc, List.append_assoc]
      exact hv

theorem parse_spelledItems {vs : List Json} {s : List Char} (h : SpelledItems vs s) {n : Nat}
    (hn : 2 * s.length + 1 ≤ n) (r : List Char) : parse n .items (s ++ ']' :: r) = some (vs, r) := by
  obtain ⟨n, rfl⟩ : ∃ m, n = m + 1 := Nat.exists_eq_add_one.2 (by omega)
  match h with
  | .last h =>
      obtain ⟨b, hb, hv⟩ := parse_spelled h (n := n) (by omega) (stops_cons (c := ']') (.inr (by decide)) r)
      exact parse_last_item hv hb
  | .next (t := t) h ht =>
      rw [List.length_append, List.length_cons] at hn
      rw [List.append_assoc]
      obtain ⟨b, hb, hv⟩ := parse_spelled h (n := n) (by omega) (stops_cons (c := ',') (.inr (by decide)) (t ++ ']' :: r))
      exact parse_next_item hv hb (parse_spelledItems ht (by omega) r)

theorem parse_spelledFields {fs : List (Option String × Json)} {s : List Char} (h : SpelledFields fs s) {n : Nat}
    (hn : 2 * s.length + 1 ≤ n) (r : List Char) : parse n .fields (s ++ '\x7d' :: r) = some (fs, r) := by
  obtain ⟨n, rfl⟩ : ∃ m, n = m + 1 := Nat.exists_eq_add_one.2 (by omega)
  match h with
  | .last (t := t) hk hv =>
      rw [List.length_append, List.length_cons] at hn
      rw [List.append_assoc]
      obtain ⟨b, hb, hk⟩ := parse_spelled hk (n := n) (by omega)
        (stops_cons (c := ':') (.inr (by decide)) (t ++ '\x7d' :: r))
      obtain ⟨b', hb', hv⟩ := parse_spelled hv (n := n) (by omega) (stops_cons (c := '\x7d') (.inr (by decide)) r)
      exact parse_last_field hk hb hv hb'
  | .next (t := t) (u := u) hk hv hu =>
      rw [List.length_append, List.length_cons, List.length_append, List.length_cons] at hn
      rw [List.append_assoc, List.cons_append, List.append_assoc]
      obtain ⟨b, hb, hk⟩ := parse_spelled hk (n := n) (by omega)
        (stops_cons (c := ':') (.inr (by decide)) (t ++ ',' :: (u ++ '\x7d' :: r)))
      obtain ⟨b', hb', hv⟩ := parse_spelled hv (n := n) (by omega)
        (stops_cons (c := ',') (.inr (by decide)) (u ++ '\x7d' :: r))
      exact parse_next_field hk hb hv hb' (parse_spelledFields hu (by omega) r)

end

theorem ofChars?_of_spelled {v : Json} {s : List Char} (h : Spelled v s) : ofChars? s = some v := by
  obtain ⟨b, hb, hv⟩ := parse_spelled h (n := 2 * s.length + 2) (by omega) (r := []) nofun
  have hrest : skipBlank (b ++ []) = [] := skipBlank_append hb []
  rw [List.append_nil] at hv
  rw [ofChars?, hv]
  dsimp only
  rw [if_pos hrest]

end SynodStore.Json

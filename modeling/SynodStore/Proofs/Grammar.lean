import Mathlib.Data.List.Forall2
import SynodStore.Shell.Command

namespace SynodStore

namespace Text

def Blank (s : List Char) : Prop :=
  ∀ c ∈ s, isBlank c = true

structure Word (w : List Char) : Prop where
  ne_nil : w ≠ []
  solid : ∀ c ∈ w, isBlank c = false

/-- The text consists of the words, with blanks between them and maybe around them. -/
inductive Spaced : List (List Char) → List Char → Prop
  | blank {s : List Char} (hs : Blank s) : Spaced [] s
  | word {b w s : List Char} {ws : List (List Char)} (hb : Blank b) (hw : Word w)
      (hs : ∀ c ∈ s.head?, isBlank c = true) (h : Spaced ws s) : Spaced (w :: ws) (b ++ (w ++ s))

variable {c : Char} {b s t w : List Char} {ws : List (List Char)}

theorem word_iff : Word w ↔ w ≠ [] ∧ w.all (!isBlank ·) := by
  have hsolid : w.all (!isBlank ·) ↔ ∀ c ∈ w, isBlank c = false := by simp
  rw [hsolid]
  exact ⟨fun h => ⟨h.ne_nil, h.solid⟩, fun h => ⟨h.1, h.2⟩⟩

instance (w : List Char) : Decidable (Word w) :=
  decidable_of_iff _ word_iff.symm

theorem blank_cons : Blank (c :: s) ↔ isBlank c = true ∧ Blank s := List.forall_mem_cons

theorem pieces_eq_splitOnP (s : List Char) : pieces s = s.splitOnP isBlank := by
  induction s with
  | nil => rw [List.splitOnP_nil, pieces]
  | cons c s ih =>
      obtain ⟨p, ps, hp⟩ := List.exists_cons_of_ne_nil (List.splitOnP_ne_nil isBlank s)
      rw [List.splitOnP_cons_eq_if_modifyHead, pieces, ih, hp]
      rfl

theorem words_append_cons (hc : isBlank c = true) (s t : List Char) : words (s ++ c :: t) = words s ++ words t := by
  simp only [words, pieces_eq_splitOnP, List.splitOnP_append_cons s t hc, List.filter_append]

theorem words_blank_append (hb : Blank b) (s : List Char) : words (b ++ s) = words s := by
  induction b with
  | nil => rfl
  | cons c b ih =>
      obtain ⟨hc, hb⟩ := blank_cons.1 hb
      exact (words_append_cons hc [] (b ++ s)).trans (ih hb)

theorem words_of_blank (hs : Blank s) : words s = [] := by
  have hs := words_blank_append hs []
  rwa [List.append_nil] at hs

theorem Word.words_eq (hw : Word w) : words w = [w] := by
  simp [words, pieces_eq_splitOnP, List.splitOnP_eq_singleton hw.solid, hw.ne_nil]

theorem Word.words_cons (hw : Word w) (s : List Char) : words (w ++ ' ' :: s) = w :: words s := by
  rw [words_append_cons rfl, hw.words_eq, List.singleton_append]

theorem words_of_spaced (h : Spaced ws s) : words s = ws := by
  induction h with
  | blank hs => exact words_of_blank hs
  | @word b w s ws hb hw hs _ ih =>
      rw [words_blank_append hb]
      cases s with
      | nil => rw [List.append_nil, hw.words_eq, ← ih]; rfl
      | cons c s =>
          have hc : isBlank c = true := hs c rfl
          rw [← List.nil_append (c :: s), words_append_cons hc] at ih
          rw [words_append_cons hc, hw.words_eq, ← ih]
          rfl

namespace Spaced

theorem cons_blank (hc : isBlank c = true) (h : Spaced ws s) : Spaced ws (c :: s) := by
  cases h with
  | blank hs => exact .blank (blank_cons.2 ⟨hc, hs⟩)
  | word hb hw hs h => exact .word (blank_cons.2 ⟨hc, hb⟩) hw hs h

theorem cons_solid (hc : isBlank c = false) (h : Spaced ws s) : ∃ ws', Spaced ws' (c :: s) := by
  have alone (hs : ∀ x ∈ s.head?, isBlank x = true) : Spaced ([c] :: ws) (c :: s) :=
    .word (b := []) (fun _ hx => absurd hx List.not_mem_nil) ⟨List.cons_ne_nil _ _, by simpa using hc⟩ hs h
  cases h with
  | blank hs => exact ⟨_, alone fun x hx => hs x (List.mem_of_mem_head? hx)⟩
  | @word b w s ws hb hw hs h =>
      cases b with
      | cons x b => exact ⟨_, alone fun y hy => Option.some.inj hy ▸ (blank_cons.1 hb).1⟩
      | nil =>
          have hw' : Word (c :: w) := ⟨List.cons_ne_nil _ _, List.forall_mem_cons.2 ⟨hc, hw.solid⟩⟩
          exact ⟨_, .word (b := []) hb hw' hs h⟩

end Spaced

theorem spaced_iff : Spaced ws s ↔ words s = ws := by
  refine ⟨words_of_spaced, ?_⟩
  rintro rfl
  have hspaced : ∃ ws, Spaced ws s := by
    induction s with
    | nil => exact ⟨[], .blank fun _ hc => absurd hc List.not_mem_nil⟩
    | cons c s ih =>
        obtain ⟨ws, h⟩ := ih
        cases hc : isBlank c with
        | true => exact ⟨ws, h.cons_blank hc⟩
        | false => exact h.cons_solid hc
  obtain ⟨ws, h⟩ := hspaced
  exact words_of_spaced h ▸ h

theorem Spaced.word_of_mem (h : Spaced ws s) : ∀ w ∈ ws, Word w := by
  induction h with
  | blank => exact fun _ hw => absurd hw List.not_mem_nil
  | word _ hw _ _ ih => exact List.forall_mem_cons.2 ⟨hw, ih⟩

end Text

namespace Shell

open Text (Spaced Word words)

def StandsFor (capital c : Char) : Prop :=
  c = capital ∨ c.toNat = capital.toNat + 32

def Spells (name : String) (word : List Char) : Prop :=
  List.Forall₂ StandsFor name.toList word

namespace Command

/-- The words of a command, in which the first may be written large or small. -/
inductive Written : List (List Char) → Command → Prop
  | get {name : List Char} (h : Spells "GET" name) (k : String) : Written [name, k.toList] (get k)
  | put {name : List Char} (h : Spells "PUT" name) (k v : String) : Written [name, k.toList, v.toList] (put k v)
  | delete {name : List Char} (h : Spells "DELETE" name) (k : String) : Written [name, k.toList] (delete k)
  | dump {name : List Char} (h : Spells "DUMP" name) : Written [name] dump
  | quit {name : List Char} (h : Spells "QUIT" name) : Written [name] quit
  | exit {name : List Char} (h : Spells "EXIT" name) : Written [name] quit

def Plain : Command → Prop
  | get k | delete k => Word k.toList
  | put k v => Word k.toList ∧ Word v.toList
  | dump | quit => True

end Command

variable {name : String} {w : List Char} {ws : List (List Char)} {c : Command} {line : String}

theorem toNat_toUpper (x : Char) :
    x.toUpper.toNat = if 97 ≤ x.toNat ∧ x.toNat ≤ 122 then x.toNat - 32 else x.toNat := by
  have hsmall : ('a'.val ≤ x.val ∧ x.val ≤ 'z'.val) ↔ 97 ≤ x.toNat ∧ x.toNat ≤ 122 := by
    simp [UInt32.le_iff_toNat_le]
  show (dite ('a'.val ≤ x.val ∧ x.val ≤ 'z'.val) _ _ : Char).toNat = _
  split
  · rename_i hx
    have hx := hsmall.1 hx
    rw [if_pos hx]
    have hshift : ('A'.val - 'a'.val).toNat = 4294967264 := rfl
    simp only [← Char.toNat_val, UInt32.toNat_add, hshift] at hx ⊢
    omega
  · rename_i hx
    rw [if_neg (mt hsmall.2 hx)]

theorem toUpper_eq_iff {x capital : Char} (h : capital.isUpper) : x.toUpper = capital ↔ StandsFor capital x := by
  have hval : 'A'.val ≤ capital.val ∧ capital.val ≤ 'Z'.val := of_decide_eq_true h
  have hcapital : 65 ≤ capital.toNat ∧ capital.toNat ≤ 90 := by
    simpa [UInt32.le_iff_toNat_le] using hval
  simp only [StandsFor, ← Char.toNat_inj, toNat_toUpper]
  split <;> omega

theorem spells_iff (h : name.toList.all Char.isUpper) :
    Spells name w ↔ String.ofList (w.map Char.toUpper) = name := by
  have hletters : ∀ {letters : List Char}, letters.all Char.isUpper →
      (List.Forall₂ StandsFor letters w ↔ w.map Char.toUpper = letters) := by
    intro letters h
    induction letters generalizing w with
    | nil => simp
    | cons capital letters ih =>
        obtain ⟨hcapital, hletters⟩ := Bool.and_eq_true_iff.1 h
        cases w with
        | nil => simp
        | cons x w => rw [List.forall₂_cons, ← toUpper_eq_iff hcapital, ih hletters, List.map_cons, List.cons.injEq]
  rw [Spells, hletters h, ← String.toList_inj, String.toList_ofList]

namespace Command

theorem map_ofList_eq_iff {texts : List String} : ws.map String.ofList = texts ↔ ws = texts.map String.toList := by
  constructor
  · rintro rfl
    simp [Function.comp_def]
  · rintro rfl
    simp [Function.comp_def]

theorem ofWords?_eq_some_iff : ofWords? ws = some c ↔ Written ws c := by
  constructor
  · intro h
    cases ws with
    | nil => cases h
    | cons name arguments =>
        rw [ofWords?] at h
        split at h
        case h_7 => cases h
        all_goals
          rename_i hname harguments
          obtain rfl := map_ofList_eq_iff.1 harguments
          obtain rfl := Option.some.inj h
          have hspells := (spells_iff (by decide)).2 hname
        case h_1 => exact .get hspells _
        case h_2 => exact .put hspells _ _
        case h_3 => exact .delete hspells _
        case h_4 => exact .dump hspells
        case h_5 => exact .quit hspells
        case h_6 => exact .exit hspells
  · intro h
    cases h with
    | get h => rw [ofWords?, (spells_iff (by decide)).1 h]; simp
    | put h => rw [ofWords?, (spells_iff (by decide)).1 h]; simp
    | delete h => rw [ofWords?, (spells_iff (by decide)).1 h]; simp
    | dump h => rw [ofWords?, (spells_iff (by decide)).1 h]; rfl
    | quit h => rw [ofWords?, (spells_iff (by decide)).1 h]; rfl
    | exit h => rw [ofWords?, (spells_iff (by decide)).1 h]; rfl

theorem parse_eq_ok_some_iff : parse line = .ok (some c) ↔ Written (words line.toList) c := by
  rw [← ofWords?_eq_some_iff, parse]
  split
  · simp [*, ofWords?]
  · split <;> simp [*]

theorem parse_eq_ok_none_iff : parse line = .ok none ↔ words line.toList = [] := by
  rw [parse]
  split
  · simp [*]
  · rename_i hne
    split <;> simpa using hne

theorem toOption_parse_congr {line' : String} (h : words line'.toList = words line.toList) :
    (parse line').toOption = (parse line).toOption := by
  simp only [parse, h]
  split
  · rfl
  · split <;> rfl

theorem Plain.written (h : c.Plain) : Written (words c.describe.toList) c := by
  have hself (name : String) : Spells name name.toList := List.forall₂_same.2 fun _ _ => .inl rfl
  cases c with
  | get k =>
      have hget : Word "GET".toList := by decide
      have htext : (get k).describe.toList = "GET".toList ++ ' ' :: k.toList := by simp [describe]
      rw [htext, hget.words_cons, h.words_eq]
      exact .get (hself _) k
  | put k v =>
      obtain ⟨hk, hv⟩ := h
      have hput : Word "PUT".toList := by decide
      have htext : (put k v).describe.toList = "PUT".toList ++ ' ' :: (k.toList ++ ' ' :: v.toList) := by
        simp [describe]
      rw [htext, hput.words_cons, hk.words_cons, hv.words_eq]
      exact .put (hself _) k v
  | delete k =>
      have hdelete : Word "DELETE".toList := by decide
      have htext : (delete k).describe.toList = "DELETE".toList ++ ' ' :: k.toList := by simp [describe]
      rw [htext, hdelete.words_cons, h.words_eq]
      exact .delete (hself _) k
  | dump => exact .dump (hself "DUMP")
  | quit => exact .quit (hself "QUIT")

theorem Written.plain (h : Written ws c) (hws : ∀ w ∈ ws, Word w) : c.Plain := by
  cases h with
  | get _ k => exact hws _ (by simp)
  | put _ k v => exact ⟨hws _ (by simp), hws _ (by simp)⟩
  | delete _ k => exact hws _ (by simp)
  | dump | quit | exit => trivial

theorem plain_of_parse (h : parse line = .ok (some c)) : c.Plain :=
  (parse_eq_ok_some_iff.1 h).plain (Text.spaced_iff.2 rfl).word_of_mem

/-- A line is read by its words alone, whatever blanks part them: as a command if they are the words of one, as none if
there are none, and else in error. A command is read back from what it is described by, if its key and value are words,
as they are if it was read from a line. -/
theorem parse_grammar :
    (∀ c : Command, c.Plain → parse c.describe = .ok (some c)) ∧
    ∀ line : String, ∃ ws, (∀ ws', Spaced ws' line.toList ↔ ws' = ws) ∧
      (∀ c, parse line = .ok (some c) ↔ Written ws c) ∧
      (parse line = .ok none ↔ ws = []) ∧
      ((∃ text, parse line = .error text) ↔ ws ≠ [] ∧ ∀ c, ¬ Written ws c) ∧
      (∀ line' : String, Spaced ws line'.toList → (parse line').toOption = (parse line).toOption) ∧
      ∀ c, parse line = .ok (some c) → parse c.describe = .ok (some c) := by
  have hback (c : Command) (h : c.Plain) : parse c.describe = .ok (some c) := parse_eq_ok_some_iff.2 h.written
  refine ⟨hback, fun line => ⟨words line.toList, fun ws' => Text.spaced_iff.trans eq_comm,
    fun c => parse_eq_ok_some_iff, parse_eq_ok_none_iff, ?_, fun line' h => ?_, fun c h => ?_⟩⟩
  · constructor
    · rintro ⟨text, h⟩
      constructor
      · intro hnone
        cases h.symm.trans (parse_eq_ok_none_iff.2 hnone)
      · intro c hc
        cases h.symm.trans (parse_eq_ok_some_iff.2 hc)
    · rintro ⟨hne, hc⟩
      cases h : parse line with
      | error text => exact ⟨text, rfl⟩
      | ok c =>
          cases c with
          | none => exact absurd (parse_eq_ok_none_iff.1 h) hne
          | some c => exact absurd (parse_eq_ok_some_iff.1 h) (hc c)
  · exact toOption_parse_congr (Text.words_of_spaced h)
  · exact hback c (plain_of_parse h)

/-- A key may look like a command, and blanks be of any kind. -/
theorem parse_grammar_wide :
    let c := put "GET" "é=\""
    let line := "\u3000pUt\t GET\u2003 é=\"\u0085"
    let ws := ["pUt".toList, "GET".toList, "é=\"".toList]
    c.Plain ∧ parse c.describe = .ok (some c) ∧ Spaced ws line.toList ∧ Written ws c ∧
      parse line = .ok (some c) ∧ Spaced ws "pUt GET é=\"".toList ∧
      (parse "pUt GET é=\"").toOption = (parse line).toOption := by
  intro c line ws
  obtain ⟨hback, hlines⟩ := parse_grammar
  obtain ⟨ws', hws, hcommand, -, -, hsame, hagain⟩ := hlines line
  have hspaced : Spaced ws line.toList := Text.spaced_iff.2 (by decide +kernel)
  obtain rfl := (hws ws).1 hspaced
  have hkey : Word "GET".toList := by decide
  have hvalue : Word "é=\"".toList := by decide +kernel
  have hplain : c.Plain := ⟨hkey, hvalue⟩
  have hwritten : Written ws c := .put ((spells_iff (by decide)).2 (by decide +kernel)) "GET" "é=\""
  have hspaced' : Spaced ws "pUt GET é=\"".toList := Text.spaced_iff.2 (by decide +kernel)
  exact ⟨hplain, hback c hplain, hspaced, hwritten, (hcommand c).2 hwritten, hspaced', hsame _ hspaced'⟩

end Command

end Shell

end SynodStore

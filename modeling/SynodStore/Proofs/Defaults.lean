import Mathlib.Data.Finset.Insert
import SynodStore.Proofs.Encoding

namespace SynodStore

namespace Json

variable {fields : List (String × Json)} {name : String}

theorem length_filter_name (fields : List (String × Json)) (name : String) :
    (fields.filter (·.1 = name)).length = (fields.map (·.1)).count name := by
  rw [List.count, List.countP_map, List.countP_eq_length_filter]
  rfl

theorem field?_of_count_eq_zero (h : (fields.map (·.1)).count name = 0) : field? fields name = some none := by
  rw [← length_filter_name, List.length_eq_zero_iff] at h
  rw [field?, h]

theorem exists_field?_of_count_eq_one (h : (fields.map (·.1)).count name = 1) :
    ∃ v, (name, v) ∈ fields ∧ field? fields name = some (some v) := by
  rw [← length_filter_name, List.length_eq_one_iff] at h
  obtain ⟨⟨k, v⟩, hv⟩ := h
  have hfilter : (k, v) ∈ fields.filter (·.1 = name) := hv ▸ List.mem_singleton_self _
  obtain ⟨hmem, hk⟩ := List.mem_filter.1 hfilter
  obtain rfl : k = name := of_decide_eq_true hk
  exact ⟨v, hmem, by rw [field?, hv]⟩

theorem field?_of_one_lt_count (h : 1 < (fields.map (·.1)).count name) : field? fields name = none := by
  rw [← length_filter_name] at h
  rw [field?]
  split
  · simp_all
  · simp_all
  · rfl

theorem eq_map_of_namedFields {fields : List (Option String × Json)} {named : List (String × Json)}
    (h : namedFields fields = some named) : fields = named.map fun f => (some f.1, f.2) := by
  induction fields generalizing named with
  | nil =>
      cases h
      rfl
  | cons f fields ih =>
      simp only [namedFields, Option.bind_eq_bind, Option.bind_eq_some_iff, Option.pure_def, Option.some.injEq] at h
      obtain ⟨k, hk, named, hn, rfl⟩ := h
      rw [List.map_cons, ← ih hn, ← hk]

theorem mapM_eq_none {α β : Type} {f : α → Option β} {l : List α} {a : α} (ha : a ∈ l) (h : f a = none) :
    l.mapM f = none := by
  induction l with
  | nil => cases ha
  | cons b l ih =>
      rw [List.mapM_cons]
      rcases List.mem_cons.1 ha with rfl | ha
      · rw [h]
        rfl
      · rw [ih ha]
        cases f b <;> rfl

theorem record?_of_repeated {fields : List (Option String × Json)} {names : List String} (hname : name ∈ names)
    (h : 1 < (fields.map (·.1)).count (some name)) (n : Nat) : (object fields).record? names n = none := by
  rw [record?]
  cases hf : namedFields fields with
  | none => rfl
  | some named =>
      rw [eq_map_of_namedFields hf, List.map_map] at h
      have hcount : 1 < (named.map (·.1)).count name := by
        rwa [← List.count_map_of_injective _ some (Option.some_injective _), List.map_map]
      exact mapM_eq_none hname (field?_of_one_lt_count hcount)

end Json

namespace Config

open Wire (decode encode)
open Json.Literal (Letter Numeral Quoted letter_escape numeral_of_eq_some numeral_toDigits quoted_quote)

inductive Field where
  | clusterSize
  | crash
  | shortfall
  | maxRounds
  | callTimeoutMs
  | seed
deriving DecidableEq

namespace Field

def name : Field → String
  | clusterSize => "cluster_size"
  | crash => "crash"
  | shortfall => "accept_shortfall"
  | maxRounds => "max_rounds"
  | callTimeoutMs => "rpc_timeout_ms"
  | seed => "seed"

def all : List Field :=
  [clusterSize, crash, shortfall, maxRounds, callTimeoutMs, seed]

theorem mem_all (f : Field) : f ∈ all := by
  cases f <;> decide

def Value : Field → Type
  | clusterSize | maxRounds | callTimeoutMs => UInt64
  | crash => Option CrashPlan
  | shortfall => Shortfall
  | seed => Option UInt64

instance : (f : Field) → Wire f.Value
  | clusterSize | maxRounds | callTimeoutMs => inferInstanceAs (Wire UInt64)
  | crash => inferInstanceAs (Wire (Option CrashPlan))
  | shortfall => inferInstanceAs (Wire Shortfall)
  | seed => inferInstanceAs (Wire (Option UInt64))

instance : (f : Field) → Wire.Faithful f.Value
  | clusterSize | maxRounds | callTimeoutMs => inferInstanceAs (Wire.Faithful UInt64)
  | crash => inferInstanceAs (Wire.Faithful (Option CrashPlan))
  | shortfall => inferInstanceAs (Wire.Faithful Shortfall)
  | seed => inferInstanceAs (Wire.Faithful (Option UInt64))

end Field

def get (c : Config) : (f : Field) → f.Value
  | .clusterSize => c.clusterSize
  | .crash => c.crash
  | .shortfall => c.shortfall
  | .maxRounds => c.maxRounds
  | .callTimeoutMs => c.callTimeoutMs
  | .seed => c.seed

def tabulate (values : (f : Field) → f.Value) : Config :=
  ⟨values .clusterSize, values .crash, values .shortfall, values .maxRounds, values .callTimeoutMs, values .seed⟩

/-- Of the fields of a configuration, an object has the chosen ones, each once and with the value that the
configuration has there. It may have others besides. -/
structure Gives (c : Config) (chosen : Finset Field) (fields : List (String × Json)) : Prop where
  count : ∀ f : Field, (fields.map (·.1)).count f.name = if f ∈ chosen then 1 else 0
  value : ∀ f ∈ chosen, ∀ v, (f.name, v) ∈ fields → decode v = some (c.get f)

theorem decode_eq (v : Json) : (decode v : Option Config) = v.record? (Field.all.map Field.name) 0 >>= fun
    | [n, p, s, r, t, x] => do
      return ⟨← Wire.optional standard.clusterSize n, ← Wire.optional standard.crash p,
        ← Wire.optional standard.shortfall s, ← Wire.optional standard.maxRounds r,
        ← Wire.optional standard.callTimeoutMs t, ← Wire.optional standard.seed x⟩
    | _ => none := rfl

variable {c : Config} {chosen : Finset Field} {fields : List (String × Json)} {values : (f : Field) → f.Value}

theorem get_tabulate (values : (f : Field) → f.Value) (f : Field) : (tabulate values).get f = values f := by
  cases f <;> rfl

theorem decode_tabulate (h : ∀ f : Field, ∃ v, Json.field? fields f.name = some v ∧
    Wire.optional (standard.get f) v = some (values f)) :
    (decode (Json.ofFields fields) : Option Config) = some (tabulate values) := by
  choose read hfield hread using h
  have hrecord : (Json.ofFields fields).record? (Field.all.map Field.name) 0 = some (Field.all.map read) := by
    rw [Json.ofFields, Json.record?, Json.namedFields_map]
    exact Json.mapM_field? fun f _ => hfield f
  have hsize : Wire.optional standard.clusterSize (read .clusterSize) = some (tabulate values).clusterSize :=
    hread .clusterSize
  have hcrash : Wire.optional standard.crash (read .crash) = some (tabulate values).crash := hread .crash
  have hshortfall : Wire.optional standard.shortfall (read .shortfall) = some (tabulate values).shortfall :=
    hread .shortfall
  have hrounds : Wire.optional standard.maxRounds (read .maxRounds) = some (tabulate values).maxRounds :=
    hread .maxRounds
  have htimeout : Wire.optional standard.callTimeoutMs (read .callTimeoutMs) = some (tabulate values).callTimeoutMs :=
    hread .callTimeoutMs
  have hseed : Wire.optional standard.seed (read .seed) = some (tabulate values).seed := hread .seed
  rw [decode_eq, hrecord]
  simp only [Field.all, List.map_cons, List.map_nil, hsize, hcrash, hshortfall, hrounds, htimeout, hseed,
    Option.bind_eq_bind, Option.bind_some]
  rfl

theorem Gives.exists_field? (h : c.Gives chosen fields) (f : Field) :
    ∃ v, Json.field? fields f.name = some v ∧
      Wire.optional (standard.get f) v = some (if f ∈ chosen then c.get f else standard.get f) := by
  have hcount := h.count f
  by_cases hf : f ∈ chosen
  · rw [if_pos hf] at hcount
    obtain ⟨v, hmem, hv⟩ := Json.exists_field?_of_count_eq_one hcount
    exact ⟨some v, hv, by rw [if_pos hf]; exact h.value f hf v hmem⟩
  · rw [if_neg hf] at hcount
    exact ⟨none, Json.field?_of_count_eq_zero hcount, by rw [if_neg hf]; rfl⟩

theorem Gives.decode (h : c.Gives chosen fields) :
    ∃ d : Config, Wire.decode (Json.ofFields fields) = some d ∧
      ∀ f, d.get f = if f ∈ chosen then c.get f else standard.get f :=
  ⟨_, decode_tabulate h.exists_field?, get_tabulate _⟩

theorem Gives.mem_chosen (h : c.Gives chosen fields) {f : Field} {v : Json} (hv : (f.name, v) ∈ fields) :
    f ∈ chosen := by
  by_contra hf
  have hcount := h.count f
  rw [if_neg hf, List.count_eq_zero] at hcount
  exact hcount (List.mem_map_of_mem hv)

/-- A text that gives some fields of a configuration, in any order and among any others, is read as the configuration
that has the defaults for the rest. So an acceptor crashes as it does by default if nothing is said of crashes, and not
at all if they are said to be null. A text that gives any field of a configuration twice is not read. Whatever a field
holds may be given as it is written. -/
theorem ofText?_partial :
    (∀ (c : Config) (chosen : Finset Field) (fields : List (String × Json)) (text : String),
      c.Gives chosen fields → Json.Spelled (.ofFields fields) text.toList →
      ∃ d : Config, Wire.ofText? text = some d ∧
        (∀ f, d.get f = if f ∈ chosen then c.get f else standard.get f) ∧
        (.crash ∉ chosen → d.crash = some .standard) ∧ (("crash", .null) ∈ fields → d.crash = none)) ∧
    (∀ (fields : List (Option String × Json)) (f : Field) (text : String),
      1 < (fields.map (·.1)).count (some f.name) → Json.Spelled (.object fields) text.toList →
      (Wire.ofText? text : Option Config) = none) ∧
    ∀ (c : Config) (f : Field), decode (encode (c.get f)) = some (c.get f) := by
  refine ⟨fun c chosen fields text h htext => ?_, fun fields f text h htext => ?_, fun c f => ?_⟩
  · obtain ⟨d, hd, hget⟩ := h.decode
    refine ⟨d, (Wire.ofText?_of_spelled htext).trans hd, hget, fun hcrash => ?_, fun hnull => ?_⟩
    · exact (hget .crash).trans (if_neg hcrash)
    · have hchosen : .crash ∈ chosen := h.mem_chosen (f := .crash) hnull
      have hnone : some none = some (c.get .crash) := h.value .crash hchosen .null hnull
      exact ((hget .crash).trans (if_pos hchosen)).trans (Option.some.inj hnone).symm
  · rw [Wire.ofText?_of_spelled htext, decode_eq, Json.record?_of_repeated (List.mem_map_of_mem f.mem_all) h]
    rfl
  · exact Wire.Faithful.decode_encode (c.get f)

/-- The name of a field is written with an escape, an unknown field holds the name of a known one, and a crash that is
null takes no default. -/
theorem ofText?_partial_escaped :
    let c : Config := ⟨9, none, .degraded, 1, 10, some 7⟩
    let chosen : Finset Field := {.seed, .crash}
    let fields : List (String × Json) :=
      [("seed", .number ['7']), ("note", .array [.object [(some "crash", .number "1e999".toList)]]), ("crash", .null)]
    let text := "\x7b\"seed\" : 7,\"note\":[\x7b\"crash\":1e999\x7d]\n,\"cr\\u0061sh\":null \x7d"
    let twice : List (Option String × Json) := [(some "seed", .null), (some "seed", .null)]
    c.Gives chosen fields ∧ Json.Spelled (.ofFields fields) text.toList ∧
      (∃ d : Config, Wire.ofText? text = some d ∧ d.clusterSize = 5 ∧ d.crash = none ∧ d.seed = some 7) ∧
      1 < (twice.map (·.1)).count (some "seed") ∧ (Wire.ofText? (Json.object twice).text : Option Config) = none := by
  intro c chosen fields text twice
  have hgives : c.Gives chosen fields := by
    refine ⟨fun f => by cases f <;> decide, fun f hf v hv => ?_⟩
    cases f with
    | seed =>
        obtain rfl : v = .number ['7'] := by simpa [fields, Field.name] using hv
        rfl
    | crash =>
        obtain rfl : v = .null := by simpa [fields, Field.name] using hv
        rfl
    | _ => exact absurd hf (by decide)
  have hcrash : Quoted (some "crash") "\"cr\\u0061sh\"".toList := by
    have hletter : Letter 97 "\\u0061".toList :=
      .hex (w := 0) (x := 0) (y := 6) (z := 1) (by decide) (by decide) (by decide) (by decide)
    exact .intro (.cons (letter_escape 'c') (.cons (letter_escape 'r') (.cons hletter
      (.cons (letter_escape 's') (.cons (letter_escape 'h') .nil)))))
  have hspelled : Json.Spelled (.ofFields fields) text.toList := by
    have hseven : Numeral ['7'] := numeral_toDigits 7
    have hhuge : Numeral "1e999".toList := numeral_of_eq_some (s := "1e999".toList) (l := []) (by decide)
    have hnote : Json.Spelled (.array [.object [(some "crash", .number "1e999".toList)]]) _ :=
      .after (c := '\n') (.array (.last (.object (.last (.string (quoted_quote "crash")) (.number hhuge))))) rfl
    have hobject : Json.Spelled (.ofFields fields) _ := .object
      (.next (.after (c := ' ') (.string (quoted_quote "seed")) rfl) (.before (c := ' ') rfl (.number hseven))
        (.next (.string (quoted_quote "note")) hnote
          (.last (.string hcrash) (.after (c := ' ') .null rfl))))
    exact Eq.mp (congrArg (Json.Spelled _) (by decide +kernel)) hobject
  have htwice : Json.Spelled (.object twice) (Json.object twice).text.toList := by
    rw [Json.text, String.toList_ofList]
    exact Json.spelled_chars _ ⟨rfl, trivial, rfl, trivial, trivial⟩
  obtain ⟨hread, hrepeated, -⟩ := ofText?_partial
  obtain ⟨d, hd, hget, -, hnull⟩ := hread c chosen fields text hgives hspelled
  have hcount : 1 < (twice.map (·.1)).count (some "seed") := by decide
  exact ⟨hgives, hspelled, ⟨d, hd, hget .clusterSize, hnull (by simp [fields]), hget .seed⟩, hcount,
    hrepeated twice .seed _ hcount htwice⟩

end Config

end SynodStore

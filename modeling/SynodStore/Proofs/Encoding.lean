import SynodStore.Proofs.Reading
import SynodStore.Service.Access

namespace SynodStore

namespace Json

variable {fields : List (String × Json)} {f : String × Json}

theorem namedFields_map (fields : List (String × Json)) :
    namedFields (fields.map fun f => (some f.1, f.2)) = some fields := by
  induction fields with
  | nil => rfl
  | cons f fields ih => simp [namedFields, ih]

theorem filter_name (h : (fields.map (·.1)).Nodup) (hf : f ∈ fields) : fields.filter (·.1 = f.1) = [f] := by
  induction fields with
  | nil => cases hf
  | cons g fields ih =>
      obtain ⟨hg, hn⟩ := List.nodup_cons.1 h
      rcases List.mem_cons.1 hf with rfl | hf
      · have hnone : fields.filter (·.1 = f.1) = [] := by
          refine List.filter_eq_nil_iff.2 fun g hm he => hg ?_
          exact List.mem_map.2 ⟨g, hm, of_decide_eq_true he⟩
        rw [List.filter_cons_of_pos (by simp), hnone]
      · have hne : g.1 ≠ f.1 := fun he => hg (List.mem_map.2 ⟨f, hf, he.symm⟩)
        rw [List.filter_cons_of_neg (by simpa using hne), ih hn hf]

theorem mapM_field? {α : Type} {l : List α} {name : α → String} {value : α → Option Json}
    (h : ∀ a ∈ l, field? fields (name a) = some (value a)) :
    (l.map name).mapM (field? fields) = some (l.map value) := by
  induction l with
  | nil => rfl
  | cons a l ih =>
      rw [List.map_cons, List.mapM_cons, h a List.mem_cons_self, ih fun b hb => h b (List.mem_cons_of_mem a hb)]
      rfl

theorem record?_ofFields (h : (fields.map (·.1)).Nodup) (n : Nat) :
    (ofFields fields).record? (fields.map (·.1)) n = some (fields.map fun f => some f.2) := by
  rw [ofFields, record?, namedFields_map]
  exact mapM_field? fun f hf => by rw [field?, filter_name h hf]

theorem record?_zip {names : List String} {values : List Json} (h : names.Nodup) (hl : names.length = values.length)
    (n : Nat) : (ofFields (names.zip values)).record? names n = some (values.map some) := by
  have hnames : (names.zip values).map (·.1) = names := List.map_fst_zip hl.le
  have hvalues : ((names.zip values).map fun f => some f.2) = values.map some :=
    (List.map_map ..).symm.trans (congrArg _ (List.map_snd_zip hl.ge))
  have hrecord := @record?_ofFields (names.zip values) (hnames.symm ▸ h) n
  rwa [hnames, hvalues] at hrecord

end Json

namespace Wire

/-- What is encoded can be written, and decodes to itself. -/
class Faithful (α : Type) [Wire α] : Prop where
  proper (a : α) : (encode a).Proper
  decode_encode (a : α) : decode (encode a) = some a

/-- No value is encoded like an absent one. -/
class Tangible (α : Type) [Wire α] : Prop where
  encode_ne_null (a : α) : encode a ≠ .null

open Faithful

variable {α : Type} [Wire α]

theorem ofText?_of_spelled {v : Json} {text : String} (h : v.Spelled text.toList) :
    (ofText? text : Option α) = decode v := by
  rw [ofText?, Json.ofText?, Json.ofChars?_of_spelled h]
  rfl

theorem ofText?_toText [Faithful α] (a : α) : ofText? (toText a) = some a := by
  rw [ofText?, toText, Json.ofText?_text (proper a)]
  exact decode_encode a

theorem required_encode [Faithful α] (a : α) : required (some (encode a)) = some a :=
  decode_encode a

theorem optional_encode [Faithful α] (fallback a : α) : optional fallback (some (encode a)) = some a :=
  decode_encode a

instance : Faithful Unit := ⟨fun _ => trivial, fun _ => rfl⟩

instance : Faithful String := ⟨fun _ => rfl, fun _ => rfl⟩

theorem below?_ofNat {n bound : Nat} (h : n < bound) : (Json.ofNat n).below? bound = some n := by
  rw [Json.below?, Json.ofNat, Json.natural?, Json.Literal.natural?_toDigits]
  simp [h]

instance : Faithful UInt32 where
  proper n := Json.proper_ofNat n.toNat
  decode_encode n := by
    simp [decode, encode, below?_ofNat n.toNat_lt]

instance : Faithful UInt64 where
  proper n := Json.proper_ofNat n.toNat
  decode_encode n := by
    simp [decode, encode, below?_ofNat n.toNat_lt]

instance [Faithful α] [Tangible α] : Faithful (Option α) where
  proper
    | none => trivial
    | some a => proper a
  decode_encode
    | none => rfl
    | some a => by
      have hnull := Tangible.encode_ne_null a
      have ha := decode_encode a
      simp only [decode, encode, ha]
      rfl

instance : Faithful Ballot where
  proper b := proper b.packed
  decode_encode b := congrArg (Option.map Ballot.mk) (decode_encode b.packed)

omit [Wire α] in
theorem record?_encoded (names : List String) (values : List Json) (h : names.Nodup) (hl : names.length = values.length)
    (n : Nat) {f : List (Option Json) → Option α} {a : α} (hf : f (values.map some) = some a) :
    ((Json.ofFields (names.zip values)).record? names n >>= f) = some a := by
  rw [Json.record?_zip h hl, Option.bind_eq_bind, Option.bind_some, hf]

/-! The content of a variant is read as the record of its fields. -/

theorem decode_put (content : Json) : (decode (.ofFields [("Put", content)]) : Option Action) =
    (content.record? ["key", "value"] 2 >>= fun
      | [k, v] => do return .put (← required k) (← required v)
      | _ => none) := rfl

theorem decode_delete (content : Json) : (decode (.ofFields [("Delete", content)]) : Option Action) =
    (content.record? ["key"] 1 >>= fun
      | [k] => do return .delete (← required k)
      | _ => none) := rfl

theorem decode_prepare (content : Json) : (decode (.ofFields [("prepare", content)]) : Option Request) =
    (content.record? ["req"] 1 >>= fun
      | [m] => do return .prepare (← required m)
      | _ => none) := rfl

theorem decode_accept (content : Json) : (decode (.ofFields [("accept", content)]) : Option Request) =
    (content.record? ["req"] 1 >>= fun
      | [m] => do return .accept (← required m)
      | _ => none) := rfl

theorem decode_learn (content : Json) : (decode (.ofFields [("learn", content)]) : Option Request) =
    (content.record? ["msg"] 1 >>= fun
      | [m] => do return .learn (← required m)
      | _ => none) := rfl

instance : Faithful Action where
  proper
    | .put k v => ⟨rfl, ⟨rfl, proper k, rfl, proper v, trivial⟩, trivial⟩
    | .delete k => ⟨rfl, ⟨rfl, proper k, trivial⟩, trivial⟩
  decode_encode
    | .put k v => (decode_put _).trans
        (record?_encoded ["key", "value"] [encode k, encode v] (by decide) rfl 2 (by simp [required_encode]))
    | .delete k => (decode_delete _).trans
        (record?_encoded ["key"] [encode k] (by decide) rfl 1 (by simp [required_encode]))

instance : Faithful Vote where
  proper v := ⟨rfl, proper v.ballot, rfl, proper v.action, trivial⟩
  decode_encode v := record?_encoded ["proposal", "action"] [encode v.ballot, encode v.action] (by decide) rfl 2
    (by simp [required_encode])

instance : Tangible Vote := ⟨nofun⟩

instance : Faithful Prepare where
  proper m := ⟨rfl, proper m.ballot, rfl, proper m.key, rfl, proper m.sender, trivial⟩
  decode_encode m := record?_encoded ["proposal", "key", "proposer_id"]
    [encode m.ballot, encode m.key, encode m.sender] (by decide) rfl 3 (by simp [required_encode])

instance : Faithful Promise where
  proper p := ⟨rfl, proper p.ballot, rfl, proper p.accepted, trivial⟩
  decode_encode p := record?_encoded ["proposal", "accepted"] [encode p.ballot, encode p.accepted] (by decide) rfl 2
    (by simp [required_encode, optional_encode])

instance : Tangible Promise := ⟨nofun⟩

instance : Faithful Proposal where
  proper m := ⟨rfl, proper m.ballot, rfl, proper m.sender, rfl, proper m.action, trivial⟩
  decode_encode m := record?_encoded ["proposal", "proposer_id", "action"]
    [encode m.ballot, encode m.sender, encode m.action] (by decide) rfl 3 (by simp [required_encode])

instance : Faithful Request where
  proper
    | .prepare m => ⟨rfl, ⟨rfl, proper m, trivial⟩, trivial⟩
    | .accept m => ⟨rfl, ⟨rfl, proper m, trivial⟩, trivial⟩
    | .learn m => ⟨rfl, ⟨rfl, proper m, trivial⟩, trivial⟩
  decode_encode
    | .prepare m => (decode_prepare _).trans
        (record?_encoded ["req"] [encode m] (by decide) rfl 1 (by simp [required_encode]))
    | .accept m => (decode_accept _).trans
        (record?_encoded ["req"] [encode m] (by decide) rfl 1 (by simp [required_encode]))
    | .learn m => (decode_learn _).trans
        (record?_encoded ["msg"] [encode m] (by decide) rfl 1 (by simp [required_encode]))

instance : Faithful CrashPlan where
  proper p := ⟨rfl, proper p.minChecks, rfl, proper p.maxChecks, rfl, proper p.recoveryDelay, trivial⟩
  decode_encode p := record?_encoded ["min_checks", "max_checks", "recovery_delay"]
    [encode p.minChecks, encode p.maxChecks, encode p.recoveryDelay] (by decide) rfl 3 (by simp [required_encode])

instance : Tangible CrashPlan := ⟨nofun⟩

instance : Tangible UInt64 := ⟨nofun⟩

instance : Faithful Shortfall where
  proper
    | .strict | .degraded => rfl
  decode_encode
    | .strict | .degraded => rfl

instance : Faithful Config where
  proper c := ⟨rfl, proper c.clusterSize, rfl, proper c.crash, rfl, proper c.shortfall, rfl, proper c.maxRounds, rfl,
    proper c.callTimeoutMs, rfl, proper c.seed, trivial⟩
  decode_encode c := record?_encoded
    ["cluster_size", "crash", "accept_shortfall", "max_rounds", "rpc_timeout_ms", "seed"]
    [encode c.clusterSize, encode c.crash, encode c.shortfall, encode c.maxRounds, encode c.callTimeoutMs,
      encode c.seed] (by decide) rfl 0 (by simp [optional_encode])

theorem decode_getKey (content : Json) : (decode (.ofFields [("get", content)]) : Option Access) =
    (content.record? ["key"] 1 >>= fun
      | [k] => do return .get (← required k)
      | _ => none) := rfl

theorem decode_putKey (content : Json) : (decode (.ofFields [("put", content)]) : Option Access) =
    (content.record? ["key", "value"] 2 >>= fun
      | [k, v] => do return .put (← required k) (← required v)
      | _ => none) := rfl

theorem decode_deleteKey (content : Json) : (decode (.ofFields [("delete", content)]) : Option Access) =
    (content.record? ["key"] 1 >>= fun
      | [k] => do return .delete (← required k)
      | _ => none) := rfl

instance : Faithful Access where
  proper
    | .get k => ⟨rfl, ⟨rfl, proper k, trivial⟩, trivial⟩
    | .put k v => ⟨rfl, ⟨rfl, proper k, rfl, proper v, trivial⟩, trivial⟩
    | .delete k => ⟨rfl, ⟨rfl, proper k, trivial⟩, trivial⟩
  decode_encode
    | .get k => (decode_getKey _).trans
        (record?_encoded ["key"] [encode k] (by decide) rfl 1 (by simp [required_encode]))
    | .put k v => (decode_putKey _).trans
        (record?_encoded ["key", "value"] [encode k, encode v] (by decide) rfl 2 (by simp [required_encode]))
    | .delete k => (decode_deleteKey _).trans
        (record?_encoded ["key"] [encode k] (by decide) rfl 1 (by simp [required_encode]))

/-- Every message between replicas, every part of one, every configuration and every request of a client is read
from its text as it was. -/
theorem ofText?_toText_messages :
    (∀ b : Ballot, ofText? (toText b) = some b) ∧ (∀ a : Action, ofText? (toText a) = some a) ∧
      (∀ m : Prepare, ofText? (toText m) = some m) ∧ (∀ v : Vote, ofText? (toText v) = some v) ∧
      (∀ p : Promise, ofText? (toText p) = some p) ∧ (∀ m : Proposal, ofText? (toText m) = some m) ∧
      (∀ p : CrashPlan, ofText? (toText p) = some p) ∧ (∀ s : Shortfall, ofText? (toText s) = some s) ∧
      (∀ c : Config, ofText? (toText c) = some c) ∧ (∀ q : Request, ofText? (toText q) = some q) ∧
      ∀ a : Access, ofText? (toText a) = some a :=
  ⟨ofText?_toText, ofText?_toText, ofText?_toText, ofText?_toText, ofText?_toText, ofText?_toText, ofText?_toText,
    ofText?_toText, ofText?_toText, ofText?_toText, ofText?_toText⟩

example : toText (Action.put "\"\\" "\n\x01é") =
    "\x7b\"Put\":\x7b\"key\":\"\\\"\\\\\",\"value\":\"\\n\\u0001é\"\x7d\x7d" := by
  decide +kernel

end Wire

end SynodStore

import Mathlib.Data.List.DropRight
import SynodStore.Proofs.Grammar
import SynodStore.Proofs.Idle
import SynodStore.Shell.Session

namespace SynodStore

namespace Text

variable {c : Char} {s t w : List Char}

def Solid (s : List Char) : Prop :=
  ∃ t c, s = t ++ [c] ∧ isBlank c = false

theorem Solid.append (h : Solid t) (s : List Char) : Solid (s ++ t) := by
  obtain ⟨t, c, rfl, hc⟩ := h
  exact ⟨s ++ t, c, (List.append_assoc ..).symm, hc⟩

theorem Word.ends (h : Word w) : Solid w :=
  ⟨w.dropLast, w.getLast h.ne_nil, (List.dropLast_append_getLast h.ne_nil).symm, h.solid _ (List.getLast_mem h.ne_nil)⟩

theorem Solid.trimEnd_concat (h : Solid s) (hc : isBlank c = true) : trimEnd (s ++ [c]) = s := by
  obtain ⟨t, d, rfl, hd⟩ := h
  have hblank : List.rdropWhile isBlank (t ++ [d] ++ [c]) = List.rdropWhile isBlank (t ++ [d]) :=
    List.rdropWhile_concat_pos isBlank _ c hc
  exact hblank.trans (List.rdropWhile_concat_neg isBlank t d (by simp [hd]))

end Text

namespace Shell

open Text (Solid Utf8.Fault Word)

/-! What the lines come to in front of a single map. -/

namespace Plain

def entryLine (s : Store) (i : Nat) : String :=
  "replica " ++ toString i ++ ":" ++ String.join (s.toList.map fun (k, v) => " " ++ k ++ "=" ++ v)

def listing (n : Nat) (s : Store) : String :=
  "\n".intercalate ((List.range n).map (entryLine s))

def obey (n : Nat) : Command → Store → Response × Store
  | .get k, s => (.line (s[k]?.getD "(not found)"), s)
  | .put k v, s => (.line "OK", s.insert k v)
  | .delete k, s => (.line "OK", s.erase k)
  | .dump, s => (.line (listing n s), s)
  | .quit, s => (.farewell, s)

def respond (n : Nat) (line : String) (s : Store) : Response × Store :=
  match Command.parse line with
  | .ok none => (.silence, s)
  | .ok (some c) => obey n c s
  | .error text => (.line ("error: cannot parse '" ++ text ++ "'"), s)

def converse (n : Nat) : List (List UInt8) → Store → (List String × Option Utf8.Fault) × Store
  | [], s => (([], none), s)
  | line :: rest, s =>
    match Text.Utf8.decode (Text.Utf8.chomp line) with
    | .error fault => (([], some fault), s)
    | .ok text =>
      match respond n (String.ofList text) s with
      | (.silence, s) => converse n rest s
      | (.farewell, s) => (([], none), s)
      | (.line text, s) =>
        let p := converse n rest s
        ((text :: p.1.1, p.1.2), p.2)

def Verbal (s : Store) : Prop :=
  ∀ k v : String, s[k]? = some v → Word k.toList ∧ Word v.toList

theorem verbal_empty : Verbal ∅ := by
  simp [Verbal]

theorem Verbal.obey {s : Store} {c : Command} (h : Verbal s) (hc : c.Plain) (n : Nat) : Verbal (obey n c s).2 := by
  cases c with
  | get | dump | quit => exact h
  | put k v =>
      intro k' v' hv
      rw [Plain.obey, Std.ExtTreeMap.getElem?_insert] at hv
      split at hv
      · obtain rfl := Option.some.inj hv
        obtain rfl : k = k' := by simpa using ‹compare k k' = .eq›
        exact hc
      · exact h k' v' hv
  | delete k =>
      intro k' v' hv
      rw [Plain.obey, Std.ExtTreeMap.getElem?_erase] at hv
      split at hv
      · cases hv
      · exact h k' v' hv

theorem solid_entries {entries : List (String × String)} (h : ∀ e ∈ entries, Word e.2.toList) {start : String}
    (hs : Solid start.toList) :
    Solid (start ++ String.join (entries.map fun (k, v) => " " ++ k ++ "=" ++ v)).toList := by
  induction entries generalizing start with
  | nil => simpa using hs
  | cons e entries ih =>
      obtain ⟨he, hentries⟩ := List.forall_mem_cons.1 h
      have hfirst : Solid (start ++ (" " ++ e.1 ++ "=" ++ e.2)).toList := by
        simpa using he.ends.append (start ++ (" " ++ e.1 ++ "=")).toList
      have hrest := ih hentries hfirst
      rwa [String.append_assoc, ← String.join_cons] at hrest

theorem solid_entryLine {s : Store} (h : Verbal s) (i : Nat) : Solid (entryLine s i).toList := by
  refine solid_entries (fun e he => (h e.1 e.2 ?_).2) ⟨("replica " ++ toString i).toList, ':', by simp, rfl⟩
  exact Std.ExtTreeMap.mem_toList_iff_getElem?_eq_some.1 he

theorem solid_intercalate {line : String} {lines : List String} (h : ∀ l ∈ line :: lines, Solid l.toList) :
    Solid ("\n".intercalate (line :: lines)).toList := by
  induction lines generalizing line with
  | nil => simpa using h
  | cons next lines ih =>
      rw [String.intercalate_cons_cons, String.toList_append]
      exact (ih fun l hl => h l (List.mem_cons_of_mem _ hl)).append _

theorem join_terminated (line : String) (lines : List String) :
    String.join ((line :: lines).map (· ++ "\n")) = "\n".intercalate (line :: lines) ++ "\n" := by
  induction lines generalizing line with
  | nil => simp
  | cons next lines ih =>
      rw [List.map_cons, String.join_cons, ih, String.intercalate_cons_cons]
      simp only [String.append_assoc]

/-- Of lines that end in no blank only the last line end is trimmed. -/
theorem trimEnd_listing {s : Store} (h : Verbal s) {n : Nat} (hn : 0 < n) :
    Text.trimEnd (String.join ((List.range n).map fun i => entryLine s i ++ "\n")).toList = (listing n s).toList := by
  obtain ⟨i, is, hi⟩ := List.exists_cons_of_ne_nil (List.range_eq_nil.not.2 hn.ne')
  have hjoin := join_terminated (entryLine s i) (is.map (entryLine s))
  have hsolid : Solid ("\n".intercalate (entryLine s i :: is.map (entryLine s))).toList := by
    refine solid_intercalate fun l hl => ?_
    rw [← List.map_cons] at hl
    obtain ⟨x, -, rfl⟩ := List.mem_map.1 hl
    exact solid_entryLine h x
  rw [← List.map_cons, List.map_map] at hjoin
  rw [listing, hi]
  exact (congrArg (fun text : String => Text.trimEnd text.toList) hjoin).trans
    ((congrArg Text.trimEnd String.toList_append).trans (hsolid.trimEnd_concat rfl))

end Plain

namespace Session

variable {u : Session} {n : Nat} {l : Learner}

theorem access_eq (a : Access) (u : Session) :
    access a u =
      let p := Cluster.access (u.client.turn % u.cluster.replicas.length) a u.cluster
      (p.1, ⟨p.2, ⟨u.client.turn + 1⟩⟩) := rfl

theorem converse_cons (line : List UInt8) (rest : List (List UInt8)) (u : Session) :
    converse (line :: rest) u =
      match Text.Utf8.decode (Text.Utf8.chomp line) with
      | .error fault => (([], some fault), u)
      | .ok text =>
        match respond (String.ofList text) u with
        | (.silence, u) => converse rest u
        | (.farewell, u) => (([], none), u)
        | (.line text, u) =>
          let p := converse rest u
          ((text :: p.1.1, p.1.2), p.2) := by
  simp only [converse, hear, bind, StateT.bind]
  cases Text.Utf8.decode (Text.Utf8.chomp line) with
  | error fault => rfl
  | ok text =>
      simp only [StateT.bind]
      cases respond (String.ofList text) u with
      | mk response u =>
          cases response with
          | silence | farewell | line text => rfl

theorem dumpText_eq {c : Cluster} (h : c.Idle n l) (hs : Plain.Verbal l.store) :
    dumpText c = Plain.listing n l.store := by
  have hlines : (c.replicas.map fun r => replicaLine r ++ "\n") =
      (c.replicas.map (·.id.toNat)).map fun i => Plain.entryLine l.store i ++ "\n" := by
    rw [List.map_map]
    refine List.map_congr_left fun r hr => ?_
    rw [replicaLine, Replica.dump, h.level.learner r hr]
    rfl
  rw [dumpText, hlines, h.ids, Plain.trimEnd_listing hs h.inhabited, String.ofList_toList]

/-- Nothing is under way in the session, and the replicas hold this map, which is of words. -/
structure Holds (n : Nat) (s : Store) (u : Session) : Prop where
  idle : ∃ l, u.cluster.Idle n l ∧ l.store = s
  verbal : Plain.Verbal s

namespace Holds

variable {s : Store}

theorem write (h : u.Holds n s) (a : Access) (action : Action)
    (ha : ∀ place c, Cluster.access place a c =
      (.committed (Cluster.propose place action c).1.isOk, (Cluster.propose place action c).2))
    (hb : (access a u).2.cluster.bounded) :
    (access a u).1 = .committed true ∧ ∃ l, (access a u).2.cluster.Idle n l ∧ l.store = action.apply s := by
  obtain ⟨⟨l, h, rfl⟩, -⟩ := h
  have hlt : u.client.turn % u.cluster.replicas.length < u.cluster.proposers.length := by
    rw [h.staffed, h.length]
    exact Nat.mod_lt _ h.inhabited
  simp only [access_eq, ha] at hb ⊢
  obtain ⟨b, l', hout, hstore, hidle⟩ := h.propose (List.getElem?_eq_getElem hlt) action hb
  rw [hout]
  exact ⟨rfl, l', hidle, hstore⟩

theorem obey (h : u.Holds n s) (c : Command) (hb : (Session.execute c u).2.cluster.bounded) :
    (Session.execute c u).1 = (Plain.obey n c s).1 ∧
      ∃ l, (Session.execute c u).2.cluster.Idle n l ∧ l.store = (Plain.obey n c s).2 := by
  cases c with
  | get k =>
      obtain ⟨⟨l, h, rfl⟩, -⟩ := h
      have hlt : u.client.turn % u.cluster.replicas.length < u.cluster.replicas.length :=
        Nat.mod_lt _ (h.length ▸ h.inhabited)
      have hread : u.cluster.read (u.client.turn % u.cluster.replicas.length) k = l.store[k]? := by
        rw [Cluster.read, List.getElem?_eq_getElem hlt, Option.bind_some, Replica.get?,
          h.level.learner _ (List.getElem_mem hlt)]
      refine ⟨?_, l, h, rfl⟩
      exact congrArg (fun v : Option String => Response.line (v.getD "(not found)")) hread
  | put k v =>
      obtain ⟨hreply, hholds⟩ := h.write (.put k v) (.put k v) (fun place c => rfl) hb
      refine ⟨?_, hholds⟩
      show Response.line (replyText (access (.put k v) u).1) = _
      rw [hreply]
      rfl
  | delete k =>
      obtain ⟨hreply, hholds⟩ := h.write (.delete k) (.delete k) (fun place c => rfl) hb
      refine ⟨?_, hholds⟩
      show Response.line (replyText (access (.delete k) u).1) = _
      rw [hreply]
      rfl
  | dump =>
      obtain ⟨⟨l, h, rfl⟩, hs⟩ := h
      exact ⟨congrArg Response.line (dumpText_eq h hs), l, h, rfl⟩
  | quit => exact ⟨rfl, h.idle⟩

theorem execute (h : u.Holds n s) {c : Command} (hc : c.Plain) (hb : (execute c u).2.cluster.bounded) :
    (Session.execute c u).1 = (Plain.obey n c s).1 ∧ (Session.execute c u).2.Holds n (Plain.obey n c s).2 :=
  (h.obey c hb).imp_right fun hidle => ⟨hidle, h.verbal.obey hc n⟩

theorem respond (h : u.Holds n s) (line : String) (hb : (respond line u).2.cluster.bounded) :
    (Session.respond line u).1 = (Plain.respond n line s).1 ∧
      (Session.respond line u).2.Holds n (Plain.respond n line s).2 := by
  simp only [Session.respond, Plain.respond] at hb ⊢
  cases hc : Command.parse line with
  | error text => exact ⟨rfl, h⟩
  | ok c =>
      rw [hc] at hb
      cases c with
      | none => exact ⟨rfl, h⟩
      | some c => exact h.execute (Command.plain_of_parse hc) hb

theorem converse (h : u.Holds n s) (lines : List (List UInt8))
    (hb : ∀ i, (converse (lines.take i) u).2.cluster.bounded) :
    (Session.converse lines u).1 = (Plain.converse n lines s).1 ∧
      (Session.converse lines u).2.Holds n (Plain.converse n lines s).2 := by
  induction lines generalizing u s with
  | nil => exact ⟨rfl, h⟩
  | cons line rest ih =>
      have hline := hb 1
      have hrest i := hb (i + 1)
      simp only [List.take_succ_cons, converse_cons, List.take_zero, Plain.converse] at hline hrest ⊢
      cases hd : Text.Utf8.decode (Text.Utf8.chomp line) with
      | error fault => exact ⟨rfl, h⟩
      | ok text =>
          rw [hd] at hline hrest
          dsimp only at hline hrest ⊢
          have hnext := h.respond (String.ofList text)
          generalize Session.respond (String.ofList text) u = answered at hline hrest hnext ⊢
          generalize Plain.respond n (String.ofList text) s = expected at hnext ⊢
          obtain ⟨response, u⟩ := answered
          obtain ⟨response', s⟩ := expected
          cases response with
          | silence =>
              obtain ⟨rfl, hnext⟩ := hnext hline
              exact ih hnext hrest
          | farewell =>
              obtain ⟨rfl, hnext⟩ := hnext hline
              exact ⟨rfl, hnext⟩
          | line text =>
              obtain ⟨rfl, hnext⟩ := hnext hline
              obtain ⟨hout, hholds⟩ := ih hnext hrest
              exact ⟨congrArg (fun p => (text :: p.1, p.2)) hout, hholds⟩

end Holds

theorem pairwise_toList (s : Store) : s.toList.Pairwise (·.1 < ·.1) :=
  s.ordered_keys_toList.imp fun h => compareOfLessAndEq_eq_lt.1 h

/-- A session prints what a single map would make of the lines, whichever replicas serve them. In between all
replicas hold that map, and no acceptor remembers a key. -/
theorem converse_eq_plain (config : Config) (hv : config.validate = .ok ()) (hc : config.crash = none)
    (entropy : UInt64) (clock : Nat → Int) :
    ∃ c, Cluster.startDirect config entropy clock = .ok c ∧ ∀ client lines,
      (∀ i, (converse (lines.take i) ⟨c, client⟩).2.cluster.bounded) →
      let session := converse lines ⟨c, client⟩
      let plain := Plain.converse config.clusterSize.toNat lines ∅
      session.1 = plain.1 ∧ plain.2.toList.Pairwise (·.1 < ·.1) ∧
        ∀ r ∈ session.2.cluster.replicas, r.learner.store = plain.2 ∧
          ∃ a, r.supervisor.current? = some a ∧ a.tracked = 0 := by
  obtain ⟨c, hstart, -⟩ := Cluster.exists_startDirect hv entropy clock
  refine ⟨c, hstart, fun client lines hb => ?_⟩
  have hidle : c.Idle config.clusterSize.toNat .fresh := Cluster.idle_of_startDirect hstart hc (hb 0)
  have hholds : Holds config.clusterSize.toNat ∅ ⟨c, client⟩ := ⟨⟨_, hidle, rfl⟩, Plain.verbal_empty⟩
  obtain ⟨hout, ⟨l, hidle, hstore⟩, -⟩ := hholds.converse lines hb
  refine ⟨hout, pairwise_toList _, fun r hr => ⟨?_, ?_⟩⟩
  · rw [hidle.level.learner r hr, hstore]
  · obtain ⟨a, hl, ha⟩ := hidle.steady r hr
    exact ⟨a, by rw [Supervisor.current?, hl], Acceptor.tracked_eq_zero ha⟩

/-- The second of three replicas reads what the first one wrote on a clock far ahead. -/
theorem converse_eq_plain_ahead :
    ∃ c, Cluster.startDirect (.steady 3) 0 (fun i => 1000 - 300 * i) = .ok c ∧
      let lines := Text.Utf8.lines "PUT k v\nget k\n\nput k\nDUMP\n".toUTF8.toList
      let session := Session.converse lines ⟨c, .fresh⟩
      session.1 = (["OK", "v", "error: cannot parse 'put k'",
        "replica 0: k=v\nreplica 1: k=v\nreplica 2: k=v"], none) ∧
      session.1 = (Plain.converse 3 lines ∅).1 ∧
      ∀ r ∈ session.2.cluster.replicas, ∃ a, r.supervisor.current? = some a ∧ a.tracked = 0 := by
  let config := Config.steady 3
  let clock (i : Nat) : Int := 1000 - 300 * i
  let c := (Cluster.startDirect config 0 clock).toOption.getD ⟨[], []⟩
  let lines := Text.Utf8.lines "PUT k v\nget k\n\nput k\nDUMP\n".toUTF8.toList
  obtain ⟨c', hc, h⟩ := converse_eq_plain config rfl rfl 0 clock
  have he : c' = c := by simp only [c, hc]; rfl
  subst he
  have hrun : (∀ i < 6, (Session.converse (lines.take i) ⟨c, .fresh⟩).2.cluster.bounded) ∧ lines.length = 5 ∧
      (Plain.converse 3 lines ∅).1 = (["OK", "v", "error: cannot parse 'put k'",
        "replica 0: k=v\nreplica 1: k=v\nreplica 2: k=v"], none) := by decide +kernel
  obtain ⟨hb, hlength, hprinted⟩ := hrun
  obtain ⟨hout, -, hreplicas⟩ := h .fresh lines (by
    intro i
    rcases Nat.lt_or_ge i 6 with hi | hi
    · exact hb i hi
    · have htake : lines.take i = lines.take 5 := by
        rw [List.take_of_length_le (by omega), List.take_of_length_le (by omega)]
      exact htake ▸ hb 5 (by decide))
  exact ⟨c, hc, hout.trans hprinted, hout, fun r hr => (hreplicas r hr).2⟩

end Session

end SynodStore.Shell

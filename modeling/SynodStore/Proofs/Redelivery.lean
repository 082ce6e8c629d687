import Mathlib.Data.List.Basic
import SynodStore.Learner

namespace SynodStore

/-- The announcements for a key under one ballot all carry one action. -/
def Consistent (heard : List Proposal) : Prop :=
  ∀ p ∈ heard, ∀ q ∈ heard, p.action.key = q.action.key → p.ballot = q.ballot → p.action = q.action

instance (heard : List Proposal) : Decidable (Consistent heard) :=
  inferInstanceAs (Decidable (∀ p ∈ heard, ∀ q ∈ heard, p.action.key = q.action.key → p.ballot = q.ballot →
    p.action = q.action))

def last? (k : String) (heard : List Proposal) : Option Proposal :=
  heard.find? (·.action.key = k)

/-- The map that the announcements make of this one if none is left out. -/
def Store.plain (s : Store) (heard : List Proposal) : Store :=
  heard.foldr (fun m t => m.action.apply t) s

/-- The announcement puts a value under its key right after one that did so under the same ballot. -/
def Proposal.repeats (m : Proposal) (earlier : List Proposal) : Bool :=
  m.action.value?.isSome ∧ (last? m.action.key earlier).any fun q => q.action.value?.isSome ∧ q.ballot = m.ballot

def repeats : List Proposal → Nat
  | [] => 0
  | m :: earlier => if m.repeats earlier then repeats earlier + 1 else repeats earlier

variable {s : Store} {heard earlier : List Proposal} {m q : Proposal} {k : String}

theorem Consistent.tail (h : Consistent (m :: earlier)) : Consistent earlier :=
  fun p hp q hq => h p (List.mem_cons_of_mem m hp) q (List.mem_cons_of_mem m hq)

theorem Consistent.cons (h : Consistent heard) (hm : m ∈ heard) : Consistent (m :: heard) := by
  intro p hp q hq
  have hin {p : Proposal} (hp : p ∈ m :: heard) : p ∈ heard := by
    rcases List.mem_cons.1 hp with rfl | hp
    · exact hm
    · exact hp
  exact h p (hin hp) q (hin hq)

theorem last?_cons_self (m : Proposal) (earlier : List Proposal) : last? m.action.key (m :: earlier) = some m := by
  simp [last?]

theorem last?_cons_of_ne (h : m.action.key ≠ k) : last? k (m :: earlier) = last? k earlier := by
  simp [last?, h]

theorem mem_of_last? (h : last? k heard = some q) : q ∈ heard ∧ q.action.key = k :=
  ⟨List.mem_of_find?_eq_some h, by simpa using List.find?_some h⟩

theorem Consistent.action_eq (h : Consistent (m :: earlier)) (hq : last? m.action.key earlier = some q)
    (hb : q.ballot = m.ballot) : q.action = m.action :=
  h q (List.mem_cons_of_mem m (mem_of_last? hq).1) m List.mem_cons_self (mem_of_last? hq).2 hb

theorem getElem?_plain (s : Store) (heard : List Proposal) (k : String) :
    (s.plain heard)[k]? = (last? k heard).elim s[k]? (·.action.value?) := by
  induction heard with
  | nil => rfl
  | cons m earlier ih =>
      rw [Store.plain, List.foldr_cons, Action.getElem?_apply]
      by_cases hk : m.action.key = k
      · subst k
        rw [if_pos rfl, last?_cons_self]
        rfl
      · rw [if_neg hk, last?_cons_of_ne hk]
        exact ih

theorem apply_plain (hq : last? m.action.key earlier = some q) (ha : q.action = m.action) :
    m.action.apply (s.plain earlier) = s.plain earlier := by
  apply Std.ExtTreeMap.ext_getElem?
  intro k
  rw [Action.getElem?_apply]
  by_cases hk : m.action.key = k
  · subst k
    rw [if_pos rfl, getElem?_plain, hq, ← ha]
    rfl
  · rw [if_neg hk]

theorem size_eq_of_isSome_eq {α β : Type} {t : Std.ExtTreeMap String α} {u : Std.ExtTreeMap String β}
    (h : ∀ k : String, t[k]?.isSome = u[k]?.isSome) : t.size = u.size := by
  have hkeys : (t.map fun _ _ => ()) = u.map fun _ _ => () := by
    apply Std.ExtTreeMap.ext_getElem?
    intro k
    have hk := h k
    rw [Std.ExtTreeMap.getElem?_map, Std.ExtTreeMap.getElem?_map]
    cases ht : t[k]? <;> cases hu : u[k]? <;> simp_all
  rw [← Std.ExtTreeMap.size_map (t := t), hkeys, Std.ExtTreeMap.size_map]

theorem Proposal.repeats_iff : m.repeats earlier ↔ m.action.value?.isSome ∧
    ∃ q, last? m.action.key earlier = some q ∧ q.action.value?.isSome ∧ q.ballot = m.ballot := by
  simp [repeats, Option.any_eq_true]

namespace Learner

/-- A learner that writes to this map, after the announcements. -/
def after (s : Store) (heard : List Proposal) : Learner :=
  heard.foldr (fun m l => l.learn m) ⟨s, ∅, 0⟩

theorem after_cons (s : Store) (m : Proposal) (earlier : List Proposal) :
    after s (m :: earlier) = (after s earlier).learn m := rfl

theorem lastApplied?_after (h : Consistent heard) (k : String) :
    (after s heard).lastApplied? k = (last? k heard).bind fun q => q.action.value?.map fun _ => q.ballot := by
  induction heard with
  | nil => simp [after, last?, lastApplied?]
  | cons m earlier ih =>
      have ih := ih h.tail
      by_cases hk : m.action.key = k
      · subst k
        rw [last?_cons_self, Option.bind_some, after_cons]
        by_cases hm : (after s earlier).lastApplied? m.action.key = some m.ballot
        · obtain ⟨q, hq, hv⟩ := Option.bind_eq_some_iff.1 (ih.symm.trans hm)
          have hb : q.ballot = m.ballot := by
            obtain ⟨v, -, hb⟩ := Option.map_eq_some_iff.1 hv
            exact hb
          rw [learn_of_applied hm, hm, ← hv, h.action_eq hq hb, hb]
        · rw [learn_of_not_applied hm, lastApplied?, getElem?_record, if_pos rfl]
      · rw [last?_cons_of_ne hk, ← ih, after_cons, lastApplied?_learn_of_ne hk]

theorem lastApplied?_of_isSome (h : Consistent heard) (hk : ((after s heard).lastApplied? k).isSome) :
    (after s heard).lastApplied? k = (last? k heard).map (·.ballot) := by
  rw [lastApplied?_after h] at hk ⊢
  cases hq : last? k heard with
  | none => rfl
  | some q =>
      rw [hq, Option.bind_some, Option.isSome_map] at hk
      obtain ⟨v, hv⟩ := Option.isSome_iff_exists.1 hk
      rw [Option.bind_some, hv]
      rfl

theorem applied_iff_repeats (h : Consistent (m :: earlier)) :
    (after s earlier).lastApplied? m.action.key = some m.ballot ↔ m.repeats earlier := by
  rw [lastApplied?_after h.tail, Proposal.repeats_iff, Option.bind_eq_some_iff]
  constructor
  · rintro ⟨q, hq, hv⟩
    obtain ⟨v, hv, hb⟩ := Option.map_eq_some_iff.1 hv
    have hput : q.action.value?.isSome := Option.isSome_of_mem hv
    exact ⟨h.action_eq hq hb ▸ hput, q, hq, hput, hb⟩
  · rintro ⟨-, q, hq, hput, hb⟩
    obtain ⟨v, hv⟩ := Option.isSome_iff_exists.1 hput
    exact ⟨q, hq, by rw [hv, Option.map_some, hb]⟩

theorem learn_of_repeats (h : Consistent (m :: earlier)) (hm : m.repeats earlier) :
    (after s earlier).learn m = after s earlier :=
  learn_of_applied ((applied_iff_repeats h).2 hm)

theorem learn_of_not_repeats (h : Consistent (m :: earlier)) (hm : ¬ m.repeats earlier) :
    (after s earlier).learn m =
      ⟨m.action.apply (after s earlier).store, record (after s earlier).applied m.ballot m.action,
        (after s earlier).count + 1⟩ :=
  learn_of_not_applied fun happlied => hm ((applied_iff_repeats h).1 happlied)

theorem learn_eq_self_iff (h : Consistent (m :: earlier)) :
    (after s earlier).learn m = after s earlier ↔ m.repeats earlier := by
  refine ⟨fun hsame => ?_, learn_of_repeats h⟩
  by_contra hn
  have hcount := congrArg count hsame
  rw [learn_of_not_repeats h hn] at hcount
  exact absurd hcount (Nat.succ_ne_self _)

/-- The announcements that are skipped would have changed nothing. -/
theorem store_after (h : Consistent heard) : (after s heard).store = s.plain heard := by
  induction heard with
  | nil => rfl
  | cons m earlier ih =>
      have ih := ih h.tail
      have hplain : s.plain (m :: earlier) = m.action.apply (s.plain earlier) := rfl
      rw [after_cons, hplain]
      by_cases hm : m.repeats earlier
      · obtain ⟨-, q, hq, -, hb⟩ := Proposal.repeats_iff.1 hm
        rw [learn_of_repeats h hm, ih, apply_plain hq (h.action_eq hq hb)]
      · rw [learn_of_not_repeats h hm, ih]

theorem learn_of_latest (h : Consistent (m :: earlier)) (hq : last? m.action.key earlier = some q)
    (hb : q.ballot = m.ballot) :
    ((after s earlier).learn m).store = (after s earlier).store ∧
    ∀ k, ((after s earlier).learn m).lastApplied? k = (after s earlier).lastApplied? k := by
  have ha : q.action = m.action := h.action_eq hq hb
  constructor
  · rw [← after_cons, store_after h, store_after h.tail]
    exact apply_plain hq ha
  · intro k
    rw [← after_cons, lastApplied?_after h, lastApplied?_after h.tail]
    by_cases hk : m.action.key = k
    · subst k
      rw [last?_cons_self, hq, Option.bind_some, Option.bind_some, ha, hb]
    · rw [last?_cons_of_ne hk]

theorem count_after (h : Consistent heard) : (after s heard).count + repeats heard = heard.length := by
  induction heard with
  | nil => rfl
  | cons m earlier ih =>
      have ih := ih h.tail
      rw [after_cons, repeats, List.length_cons]
      split
      · rename_i hm
        rw [learn_of_repeats h hm]
        omega
      · rename_i hm
        rw [learn_of_not_repeats h hm]
        dsimp only
        omega

theorem isSome_lastApplied?_after (h : Consistent heard) (k : String) :
    ((after ∅ heard).lastApplied? k).isSome = ((after ∅ heard).store[k]?).isSome := by
  rw [lastApplied?_after h, store_after h, getElem?_plain]
  cases last? k heard <;> simp

/-- The map is what it would be if each announcement were applied, repeated ones included. A ballot is kept for just the
keys of the map, that of the last announcement, and a put is left out only right after one under its ballot. -/
theorem follows_plain (h : Consistent heard) :
    let l := after ∅ heard
    l.store = Store.plain ∅ heard ∧
    (∀ k, (l.lastApplied? k).isSome = l.store[k]?.isSome) ∧ l.tracked = l.store.size ∧
    (∀ k, l.store[k]?.isSome → l.lastApplied? k = (last? k heard).map (·.ballot)) ∧
    l.count + repeats heard = heard.length := by
  intro l
  have hsome := isSome_lastApplied?_after h
  exact ⟨store_after h, hsome, size_eq_of_isSome_eq hsome, fun k hk => lastApplied?_of_isSome h ((hsome k).trans hk),
    count_after h⟩

/-- A put is announced twice with a delete of another key in between, and the deleted key is put once more. -/
theorem follows_plain_interleaved :
    let heard : List Proposal := [⟨⟨64⟩, 0, .put "j" "x"⟩, ⟨⟨33⟩, 1, .put "k" "w"⟩, ⟨⟨48⟩, 0, .delete "j"⟩,
      ⟨⟨33⟩, 1, .put "k" "w"⟩, ⟨⟨16⟩, 0, .put "j" "v"⟩]
    let l := after ∅ heard
    Consistent heard ∧ l.store = Store.plain ∅ heard ∧ l.store.toList = [("j", "x"), ("k", "w")] ∧
    l.tracked = l.store.size ∧ l.lastApplied? "k" = some ⟨33⟩ ∧ l.count = 4 := by
  intro heard l
  have hconsistent : Consistent heard := by decide
  have hsame : l.store.toList = [("j", "x"), ("k", "w")] ∧ l.store["k"]?.isSome ∧
      (last? "k" heard).map (·.ballot) = some ⟨33⟩ ∧ repeats heard = 1 := by decide +kernel
  obtain ⟨hlist, hk, hlast, hrepeats⟩ := hsame
  obtain ⟨hstore, -, hsize, happlied, hcount⟩ := follows_plain hconsistent
  refine ⟨hconsistent, hstore, hlist, hsize, (happlied "k" hk).trans hlast, ?_⟩
  rw [hrepeats] at hcount
  exact Nat.add_right_cancel hcount

theorem repeats_iff_latest (h : Consistent heard) (hm : m ∈ heard) :
    m.repeats heard ↔ (last? m.action.key heard).map (·.ballot) = some m.ballot ∧ m.action.value?.isSome := by
  rw [Proposal.repeats_iff, Option.map_eq_some_iff]
  constructor
  · rintro ⟨hput, q, hq, -, hb⟩
    exact ⟨⟨q, hq, hb⟩, hput⟩
  · rintro ⟨⟨q, hq, hb⟩, hput⟩
    exact ⟨hput, q, hq, (h.cons hm).action_eq hq hb ▸ hput, hb⟩

/-- An announcement that comes once more leaves the learner as it was if it put a value and was the last one for its
key. The map and the ballots stay as they were whenever it was the last one for its key. In all other cases it is
applied anew, whatever was decided for the key since. -/
theorem learn_again_iff (s : Store) (h : Consistent heard) (hm : m ∈ heard) :
    let l := after s heard
    let latest := (last? m.action.key heard).map (·.ballot) = some m.ballot
    (l.learn m = l ↔ latest ∧ m.action.value?.isSome) ∧
    (latest → (l.learn m).store = l.store ∧ ∀ k, (l.learn m).lastApplied? k = l.lastApplied? k) ∧
    (¬ (latest ∧ m.action.value?.isSome) → (l.learn m).store = m.action.apply l.store ∧
      (l.learn m).lastApplied? m.action.key = (m.action.value?.map fun _ => m.ballot) ∧
      (l.learn m).count = l.count + 1) := by
  intro l latest
  have hc : Consistent (m :: heard) := h.cons hm
  have hrepeats := repeats_iff_latest h hm
  refine ⟨(learn_eq_self_iff hc).trans hrepeats, fun hlatest => ?_, fun hlater => ?_⟩
  · obtain ⟨q, hq, hb⟩ := Option.map_eq_some_iff.1 hlatest
    exact learn_of_latest hc hq hb
  · have hlearn := learn_of_not_repeats (s := s) hc fun hr => hlater (hrepeats.1 hr)
    refine ⟨congrArg store hlearn, ?_, congrArg count hlearn⟩
    rw [← after_cons, lastApplied?_after hc, last?_cons_self]
    rfl

/-- The last announcement for a key deleted it. -/
theorem learn_again_iff_deleted :
    let m : Proposal := ⟨⟨32⟩, 0, .delete "k"⟩
    let heard : List Proposal := [⟨⟨48⟩, 0, .put "j" "w"⟩, m, ⟨⟨16⟩, 0, .put "k" "v"⟩]
    let l := after ∅ heard
    Consistent heard ∧ m ∈ heard ∧ (last? "k" heard).map (·.ballot) = some ⟨32⟩ ∧ l.learn m ≠ l ∧
    (l.learn m).store = l.store ∧ (l.learn m).count = l.count + 1 := by
  intro m heard l
  have hconsistent : Consistent heard := by decide
  have hm : m ∈ heard := by decide
  have hlatest : (last? "k" heard).map (·.ballot) = some ⟨32⟩ := by decide
  have hdelete : ¬ ((last? "k" heard).map (·.ballot) = some ⟨32⟩ ∧ m.action.value?.isSome) := by decide
  obtain ⟨hiff, hkept, hanew⟩ := learn_again_iff ∅ hconsistent hm
  exact ⟨hconsistent, hm, hlatest, fun hsame => hdelete (hiff.1 hsame), (hkept hlatest).1, (hanew hdelete).2.2⟩

/-- A value that was overwritten comes back with its announcement. -/
theorem not_idle_overwritten :
    let m : Proposal := ⟨⟨16⟩, 0, .put "k" "v"⟩
    let heard : List Proposal := [⟨⟨32⟩, 0, .put "k" "w"⟩, m]
    let l := after ∅ heard
    Consistent heard ∧ m ∈ heard ∧ l.store["k"]? = some "w" ∧ (l.learn m).store["k"]? = some "v" ∧
    (l.learn m).lastApplied? "k" ≠ l.lastApplied? "k" ∧ (l.learn m).count ≠ l.count := by
  decide +kernel

end Learner

end SynodStore

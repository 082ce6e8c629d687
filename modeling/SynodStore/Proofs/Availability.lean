import Mathlib.Data.List.Range
import SynodStore.Proofs.Generations

namespace SynodStore

inductive Pulse where
  | check
  | crash
  | reset
deriving DecidableEq

/-- What the coming live checks find: so many successes, then so many failures, then a new generation. -/
structure Timetable where
  successes : Nat
  failures : Nat
  generation : Nat

namespace CrashPlan

variable (p : CrashPlan) (stream : KeyStream)

def outage : Nat :=
  p.recoveryDelay.toNat + 1

def spent : Nat → KeyStream
  | 0 => stream
  | i + 1 => ((spent i).draw p.least p.most).2

def countdown (i : Nat) : UInt32 :=
  ((p.spent stream i).draw p.least p.most).1

/-- The results of live checks while the countdowns from the `i`-th on run, `n` of them. -/
def schedule (i n : Nat) : List Bool :=
  (List.range' i n).flatMap fun j =>
    List.replicate (p.countdown stream j).toNat true ++ List.replicate p.outage false

theorem bounds_countdown (i : Nat) :
    min p.minChecks p.maxChecks ≤ p.countdown stream i ∧ p.countdown stream i ≤ max p.minChecks p.maxChecks := by
  have hle : p.least ≤ p.most := by
    simp only [least, most]
    split
    · assumption
    · exact (UInt32.le_total _ _).resolve_left ‹_›
  exact KeyStream.le_draw hle (p.spent stream i)

end CrashPlan

namespace Timetable

variable (p : CrashPlan) (stream : KeyStream)

def opening (i : Nat) : Timetable :=
  ⟨(p.countdown stream i).toNat, p.outage, i + 1⟩

def ahead (t : Timetable) : List Bool :=
  List.replicate t.successes true ++ List.replicate t.failures false

def beat (t : Timetable) : Pulse → List Bool × Timetable
  | .check =>
    match t.successes, t.failures with
    | c + 1, _ => ([true], { t with successes := c })
    | 0, k + 2 => ([false], { t with failures := k + 1 })
    | 0, _ => ([false], opening p stream t.generation)
  | .crash => ([], { t with successes := 0 })
  | .reset => ([], opening p stream t.generation)

def beats (t : Timetable) : List Pulse → List Bool × Timetable
  | [] => ([], t)
  | x :: xs =>
    let first := t.beat p stream x
    let rest := first.2.beats xs
    (first.1 ++ rest.1, rest.2)

def Sound (t : Timetable) : Prop :=
  0 < t.failures ∧ t.failures ≤ p.outage

variable {p stream} {t : Timetable}

theorem sound_opening (i : Nat) : (opening p stream i).Sound p :=
  ⟨Nat.succ_pos _, le_rfl⟩

theorem schedule_succ (i n : Nat) :
    p.schedule stream i (n + 1) = (opening p stream i).ahead ++ p.schedule stream (i + 1) n := by
  rw [CrashPlan.schedule, List.range'_succ, List.flatMap_cons]
  rfl

theorem Sound.beat (h : t.Sound p) (stream : KeyStream) (x : Pulse) : (t.beat p stream x).2.Sound p := by
  obtain ⟨c, k, i⟩ := t
  obtain ⟨hpos, hle⟩ := h
  cases x with
  | crash => exact ⟨hpos, hle⟩
  | reset => exact sound_opening i
  | check =>
      cases c with
      | succ c => exact ⟨hpos, hle⟩
      | zero =>
          obtain _ | _ | k := k
          · exact sound_opening i
          · exact sound_opening i
          · exact ⟨Nat.succ_pos k, Nat.le_of_succ_le hle⟩

theorem beats_append (xs ys : List Pulse) :
    t.beats p stream (xs ++ ys) =
      ((t.beats p stream xs).1 ++ ((t.beats p stream xs).2.beats p stream ys).1,
        ((t.beats p stream xs).2.beats p stream ys).2) := by
  induction xs generalizing t with
  | nil => rfl
  | cons x xs ih =>
      rw [List.cons_append, beats, ih, beats]
      simp only [List.append_assoc]

/-- Undisturbed checks find what is ahead, and then what follows from the countdowns to come. -/
theorem checks_eq (h : t.Sound p) {n m : Nat} (hm : n ≤ m + 1) :
    (t.beats p stream (List.replicate n .check)).1 = (t.ahead ++ p.schedule stream t.generation m).take n := by
  induction n generalizing t m with
  | zero => rfl
  | succ n ih =>
      have hm : n ≤ m := Nat.le_of_succ_le_succ hm
      have hnext {m : Nat} (hm : n ≤ m + 1) := ih (h.beat stream .check) hm
      obtain ⟨c, k, i⟩ := t
      rw [List.replicate_succ, beats]
      cases c with
      | succ c =>
          rw [ahead, List.replicate_succ, List.cons_append, List.cons_append, List.take_succ_cons]
          exact congrArg (true :: ·) (hnext (Nat.le_succ_of_le hm))
      | zero =>
          obtain _ | _ | k := k
          · exact absurd h.1 (Nat.lt_irrefl 0)
          · cases m with
            | zero =>
                obtain rfl := Nat.le_zero.1 hm
                rfl
            | succ m =>
                rw [schedule_succ]
                exact congrArg (false :: ·) (hnext hm)
          · exact congrArg (false :: ·) (hnext (Nat.le_succ_of_le hm))

theorem checks_opening (i n : Nat) :
    ((opening p stream i).beats p stream (List.replicate n .check)).1 = (p.schedule stream i n).take n := by
  cases n with
  | zero => rfl
  | succ n => rw [checks_eq (sound_opening i) le_rfl, schedule_succ]; rfl

theorem failures_beat (h : t.Sound p) (stream : KeyStream) :
    (t.beat p stream .check).2.generation * p.outage + t.failures =
      t.generation * p.outage + (t.beat p stream .check).2.failures + (t.beat p stream .check).1.count false := by
  obtain ⟨c, k, i⟩ := t
  cases c with
  | succ c => rfl
  | zero =>
      obtain _ | _ | k := k
      · exact absurd h.1 (Nat.lt_irrefl 0)
      · change (i + 1) * p.outage + 1 = i * p.outage + p.outage + 1
        rw [Nat.succ_mul]
      · rfl

theorem failures_checks (h : t.Sound p) (stream : KeyStream) (n : Nat) :
    (t.beats p stream (List.replicate n .check)).2.generation * p.outage + t.failures =
      t.generation * p.outage + (t.beats p stream (List.replicate n .check)).2.failures +
        (t.beats p stream (List.replicate n .check)).1.count false := by
  induction n generalizing t with
  | zero => rfl
  | succ n ih =>
      have hfirst := failures_beat h stream
      have hrest := ih (h.beat stream .check)
      rw [List.replicate_succ, beats, List.count_append]
      dsimp only
      omega

theorem Sound.beats (h : t.Sound p) (stream : KeyStream) (xs : List Pulse) : (t.beats p stream xs).2.Sound p := by
  induction xs generalizing t with
  | nil => exact h
  | cons x xs ih => exact ih (h.beat stream x)

theorem generation_checks (h : t.failures = p.outage) (stream : KeyStream) (n : Nat) :
    (t.beats p stream (List.replicate n .check)).2.generation =
      t.generation + (t.beats p stream (List.replicate n .check)).1.count false / p.outage := by
  have hpos : 0 < p.outage := Nat.succ_pos _
  have hsound : t.Sound p := ⟨h ▸ hpos, h.le⟩
  obtain ⟨hlow, hhigh⟩ := hsound.beats stream (List.replicate n .check)
  have hfailures := failures_checks hsound stream n
  rw [h] at hfailures
  generalize t.beats p stream (List.replicate n .check) = u at hfailures hlow hhigh ⊢
  have hlower : u.2.generation * p.outage ≤ u.1.count false + t.generation * p.outage := by omega
  have hupper : u.1.count false + t.generation * p.outage < (u.2.generation + 1) * p.outage := by
    rw [Nat.succ_mul]
    omega
  rw [← Nat.div_eq_of_lt_le hlower hupper, Nat.add_mul_div_right _ _ hpos, Nat.add_comm]

end Timetable

namespace Supervisor

variable {α : Type} {p : CrashPlan} {stream : KeyStream} {s : Supervisor} {t : Timetable}

inductive Stands (p : CrashPlan) (s : Supervisor) : Timetable → Prop
  | up {a : Acceptor} {c : Nat} (hl : s.lease = .live a (some c)) : Stands p s ⟨c, p.outage, s.generation⟩
  | down {k : Nat} (hk : k < p.recoveryDelay.toNat) (hl : s.lease = .down (k + 1)) :
      Stands p s ⟨0, k + 1, s.generation⟩

/-- The supervisor is where the timetable of its plan is, and has drawn a countdown for each generation. -/
structure Keeps (p : CrashPlan) (stream : KeyStream) (s : Supervisor) (t : Timetable) : Prop where
  plan : s.plan = some p
  stream : s.stream = p.spent stream s.generation
  stands : s.Stands p t

theorem keeps_install (hp : s.plan = some p) (hs : s.stream = p.spent stream s.generation) :
    s.install.Keeps p stream (.opening p stream s.generation) := by
  have hc : s.countdown = (some (p.countdown stream s.generation).toNat, p.spent stream (s.generation + 1)) := by
    rw [countdown, hp, hs]
    rfl
  simp only [install, hc]
  exact ⟨hp, rfl, .up rfl⟩

theorem keeps_wait (hp : s.plan = some p) (hs : s.stream = p.spent stream s.generation) {k : Nat}
    (hk : k ≤ p.recoveryDelay.toNat) :
    (s.wait k).Keeps p stream (Timetable.beat p stream ⟨0, k + 1, s.generation⟩ .check).2 := by
  cases k with
  | zero => exact keeps_install hp hs
  | succ k => exact ⟨hp, hs, .down hk rfl⟩

theorem crash_of_down (h : s.current? = none) : s.crash = s := by
  cases hl : s.lease with
  | live a n => simp [current?, hl] at h
  | down n => simp [Supervisor.crash, hl]

theorem isSome_current?_of_up (h : s.check.1 = true) : s.current?.isSome := by
  cases hl : s.lease with
  | live a n => simp [current?, hl]
  | down n => simp [Supervisor.check, hl] at h

namespace Keeps

theorem sound (h : s.Keeps p stream t) : t.Sound p := by
  cases h.stands with
  | up hl => exact ⟨Nat.succ_pos _, le_rfl⟩
  | down hk hl => exact ⟨Nat.succ_pos _, Nat.le_succ_of_le hk⟩

theorem generation (h : s.Keeps p stream t) : s.generation = t.generation := by
  cases h.stands <;> rfl

theorem check (h : s.Keeps p stream t) :
    [s.check.1] = (t.beat p stream .check).1 ∧ s.check.2.Keeps p stream (t.beat p stream .check).2 := by
  obtain ⟨hp, hs, hstands⟩ := h
  have hbeat (k : Nat) : (Timetable.beat p stream ⟨0, k + 1, s.generation⟩ .check).1 = [false] := by
    cases k <;> rfl
  cases hstands with
  | @up a c hl =>
      cases c with
      | succ c =>
          simp only [Supervisor.check, hl]
          exact ⟨rfl, hp, hs, .up rfl⟩
      | zero =>
          have hdelay : s.recoveryDelay = p.recoveryDelay.toNat := by rw [recoveryDelay, hp]; rfl
          simp only [Supervisor.check, hl, hdelay]
          exact ⟨(hbeat _).symm, keeps_wait hp hs le_rfl⟩
  | @down k hk hl =>
      simp only [Supervisor.check, hl, Nat.add_sub_cancel]
      exact ⟨(hbeat k).symm, keeps_wait hp hs hk.le⟩

theorem checks (h : s.Keeps p stream t) (n : Nat) :
    (s.checks n).1 = (t.beats p stream (List.replicate n .check)).1 ∧
      (s.checks n).2.Keeps p stream (t.beats p stream (List.replicate n .check)).2 := by
  induction n generalizing s t with
  | zero => exact ⟨rfl, h⟩
  | succ n ih =>
      obtain ⟨hanswer, hnext⟩ := h.check
      obtain ⟨hanswers, hlast⟩ := ih hnext
      rw [List.replicate_succ, Timetable.beats, ← hanswer, ← hanswers]
      exact ⟨rfl, hlast⟩

theorem crash (h : s.Keeps p stream t) : s.crash.Keeps p stream { t with successes := 0 } := by
  obtain ⟨hp, hs, hstands⟩ := h
  cases hstands with
  | up hl =>
      simp only [Supervisor.crash, hl]
      exact ⟨hp, hs, .up rfl⟩
  | down hk hl =>
      simp only [Supervisor.crash, hl]
      exact ⟨hp, hs, .down hk hl⟩

theorem install (h : s.Keeps p stream t) : s.install.Keeps p stream (.opening p stream t.generation) := by
  rw [← h.generation]
  exact keeps_install h.plan h.stream

theorem visit (h : s.Keeps p stream t) (f : Acceptor → α × Acceptor) : (s.visit f).2.Keeps p stream t := by
  obtain ⟨hp, hs, hstands⟩ := h
  cases hstands with
  | up hl =>
      simp only [Supervisor.visit, hl]
      exact ⟨hp, hs, .up rfl⟩
  | down hk hl =>
      simp only [Supervisor.visit, hl]
      exact ⟨hp, hs, .down hk hl⟩

theorem failures_of_up (h : s.Keeps p stream t) (hu : s.current?.isSome) : t.failures = p.outage := by
  cases h.stands with
  | up hl => rfl
  | down hk hl => simp [current?, hl] at hu

theorem serve (h : s.Keeps p stream t) (f : Acceptor → α × Acceptor) :
    [(s.serve f).1.isSome] = (t.beat p stream .check).1 ∧
      (s.serve f).2.Keeps p stream (t.beat p stream .check).2 := by
  obtain ⟨hanswer, hnext⟩ := h.check
  rw [← hanswer, Supervisor.serve]
  cases hc : s.check.1 with
  | false => exact ⟨rfl, hnext⟩
  | true =>
      have hup : s.check.2.current?.isSome := by
        rw [current?_check_of_up hc]
        exact isSome_current?_of_up hc
      rw [if_pos rfl, fst_visit, Option.isSome_map, hup]
      exact ⟨rfl, hnext.visit f⟩

end Keeps

end Supervisor

namespace Replica

def Operation.pulses : Operation → List Pulse
  | check times => List.replicate times .check
  | crash => [.crash]
  | reset => [.reset]
  | acceptor true _ => [.check]
  | _ => []

def Operation.found : Operation → Outcome → List Bool
  | check _, .checks up => up
  | acceptor true _, outcome => [decide (outcome ≠ .down)]
  | _, _ => []

/-- The results of all live checks in the operations, in their order. -/
def found (r : Replica) : List Operation → List Bool
  | [] => []
  | o :: operations => o.found (perform o r).1 ++ (perform o r).2.found operations

def Undisturbed (operations : List Operation) : Prop :=
  ∀ o ∈ operations, o ≠ .crash ∧ o ≠ .reset

def checked (operations : List Operation) : Nat :=
  (operations.flatMap Operation.pulses).count .check

variable {p : CrashPlan} {stream : KeyStream} {r : Replica} {t : Timetable} {operations : List Operation}

theorem keeps_perform (h : r.supervisor.Keeps p stream t) (o : Operation) :
    o.found (perform o r).1 = (t.beats p stream o.pulses).1 ∧
      (perform o r).2.supervisor.Keeps p stream (t.beats p stream o.pulses).2 := by
  cases o with
  | check times => exact h.checks times
  | crash => exact ⟨rfl, h.crash⟩
  | reset => exact ⟨rfl, h.install⟩
  | learn m => exact ⟨rfl, h.visit _⟩
  | store key value => exact ⟨rfl, h⟩
  | acceptor live operation =>
      cases live with
      | false => exact ⟨rfl, h.visit _⟩
      | true =>
          obtain ⟨hanswer, hnext⟩ := h.serve (·.perform operation)
          refine ⟨?_, hnext⟩
          have hfound : (Operation.acceptor true operation).found (perform (.acceptor true operation) r).1 =
              [(r.supervisor.serve (·.perform operation)).1.isSome] := by
            simp only [perform, reach, if_true, Operation.found]
            cases (r.supervisor.serve (·.perform operation)).1 <;> rfl
          rw [hfound, hanswer]
          exact (List.append_nil _).symm

theorem keeps_run (h : r.supervisor.Keeps p stream t) (operations : List Operation) :
    r.found operations = (t.beats p stream (operations.flatMap Operation.pulses)).1 ∧
      (r.run operations).supervisor.Keeps p stream (t.beats p stream (operations.flatMap Operation.pulses)).2 := by
  induction operations generalizing r t with
  | nil => exact ⟨rfl, h⟩
  | cons o operations ih =>
      obtain ⟨hfirst, hkeeps⟩ := keeps_perform h o
      obtain ⟨hrest, hlast⟩ := ih hkeeps
      rw [List.flatMap_cons, Timetable.beats_append, found, hfirst, hrest]
      exact ⟨rfl, hlast⟩

theorem pulses_of_undisturbed (h : Undisturbed operations) :
    operations.flatMap Operation.pulses = List.replicate (checked operations) .check := by
  have hall : ∀ x ∈ operations.flatMap Operation.pulses, x = .check := by
    intro x hx
    obtain ⟨o, ho, hx⟩ := List.mem_flatMap.1 hx
    obtain ⟨hcrash, hreset⟩ := h o ho
    cases o with
    | check times => exact List.eq_of_mem_replicate hx
    | crash => exact absurd rfl hcrash
    | reset => exact absurd rfl hreset
    | acceptor live operation =>
        cases live with
        | false => exact absurd hx List.not_mem_nil
        | true => exact List.mem_singleton.1 hx
    | learn m => exact absurd hx List.not_mem_nil
    | store key value => exact absurd hx List.not_mem_nil
  exact List.eq_replicate_iff.2 ⟨(List.count_eq_length.2 fun x hx => (hall x hx).symm).symm, hall⟩

theorem keeps_start (id : UInt32) (p : CrashPlan) (stream : KeyStream) :
    (Replica.start id (some p) stream).supervisor.Keeps p stream (.opening p stream 0) :=
  Supervisor.keeps_install rfl rfl

theorem generation_of_undisturbed (h : r.supervisor.Keeps p stream t) (ht : t.failures = p.outage)
    (ho : Undisturbed operations) :
    (r.run operations).supervisor.generation =
      r.supervisor.generation + (r.found operations).count false / p.outage := by
  obtain ⟨hfound, hkeeps⟩ := keeps_run h operations
  rw [hkeeps.generation, hfound, h.generation, pulses_of_undisturbed ho]
  exact Timetable.generation_checks ht stream _

theorem found_of_undisturbed (h : r.supervisor.Keeps p stream t) (ho : Undisturbed operations) :
    r.found operations =
      (t.ahead ++ p.schedule stream t.generation (checked operations)).take (checked operations) := by
  rw [(keeps_run h operations).1, pulses_of_undisturbed ho]
  exact Timetable.checks_eq h.sound (Nat.le_succ _)

theorem found_of_opening {i : Nat} (h : r.supervisor.Keeps p stream (.opening p stream i))
    (ho : Undisturbed operations) :
    r.found operations = (p.schedule stream i (checked operations)).take (checked operations) := by
  rw [(keeps_run h operations).1, pulses_of_undisturbed ho]
  exact Timetable.checks_opening i _

theorem found_of_crash (h : r.supervisor.Keeps p stream t) (hu : r.supervisor.current?.isSome)
    (ho : Undisturbed operations) :
    let crashed := (perform .crash r).2
    crashed.found operations = (List.replicate p.outage false ++
      p.schedule stream r.supervisor.generation (checked operations)).take (checked operations) ∧
    (crashed.run operations).supervisor.generation =
      r.supervisor.generation + (crashed.found operations).count false / p.outage := by
  intro crashed
  have hcrashed : crashed.supervisor.Keeps p stream _ := h.crash
  have hfailures := h.failures_of_up hu
  have hg : crashed.supervisor.generation = r.supervisor.generation := Supervisor.generation_crash
  refine ⟨?_, hg ▸ generation_of_undisturbed hcrashed hfailures ho⟩
  rw [found_of_undisturbed hcrashed ho, ← hcrashed.generation, hg, Timetable.ahead]
  dsimp only
  rw [hfailures]
  rfl

theorem perform_crash_of_down (h : r.supervisor.current? = none) : (perform .crash r).2 = r := by
  have hsame : r.supervisor.crash = r.supervisor := Supervisor.crash_of_down h
  exact congrArg (fun s => { r with supervisor := s }) hsame

theorem found_of_reset (h : r.supervisor.Keeps p stream t) (ho : Undisturbed operations) :
    let renewed := (perform .reset r).2
    renewed.found operations =
      (p.schedule stream r.supervisor.generation (checked operations)).take (checked operations) ∧
    (renewed.run operations).supervisor.generation =
      r.supervisor.generation + 1 + (renewed.found operations).count false / p.outage := by
  intro renewed
  have hrenewed : renewed.supervisor.Keeps p stream (.opening p stream r.supervisor.generation) :=
    Supervisor.keeps_install h.plan h.stream
  exact ⟨found_of_opening hrenewed ho, generation_of_undisturbed hrenewed rfl ho⟩

/-- Live checks succeed for as long as the first countdown says, fail for one outage, succeed again for as long as the
second countdown says, and so on. Only checks, crashes and resets have a bearing on that. A crash takes away the
successes that are left, if an acceptor is up, and a reset goes on to the next countdown. -/
theorem found_as_scheduled (id : UInt32) (p : CrashPlan) (stream : KeyStream) :
    let r := Replica.start id (some p) stream
    (∀ i, min p.minChecks p.maxChecks ≤ p.countdown stream i ∧ p.countdown stream i ≤ max p.minChecks p.maxChecks) ∧
    (∀ operations, Undisturbed operations →
      r.found operations = (p.schedule stream 0 (checked operations)).take (checked operations) ∧
      (r.run operations).supervisor.generation = 1 + (r.found operations).count false / p.outage) ∧
    (∀ operations, (r.run operations).supervisor.stream = p.spent stream (r.run operations).supervisor.generation) ∧
    (∀ operations others, operations.flatMap Operation.pulses = others.flatMap Operation.pulses →
      r.found operations = r.found others ∧
      (r.run operations).supervisor.generation = (r.run others).supervisor.generation) ∧
    ∀ before after, Undisturbed after →
      let s := r.run before
      let g := s.supervisor.generation
      let crashed := (perform .crash s).2
      let renewed := (perform .reset s).2
      (s.supervisor.current?.isSome →
        crashed.found after =
          (List.replicate p.outage false ++ p.schedule stream g (checked after)).take (checked after) ∧
        (crashed.run after).supervisor.generation = g + (crashed.found after).count false / p.outage) ∧
      (s.supervisor.current? = none → crashed = s) ∧
      renewed.found after = (p.schedule stream g (checked after)).take (checked after) ∧
      (renewed.run after).supervisor.generation = g + 1 + (renewed.found after).count false / p.outage := by
  intro r
  have hr : r.supervisor.Keeps p stream (.opening p stream 0) := keeps_start id p stream
  refine ⟨p.bounds_countdown stream, fun operations ho => ?_, fun operations => ?_, fun operations others h => ?_,
    fun before after ho => ?_⟩
  · exact ⟨found_of_opening hr ho, generation_of_undisturbed hr rfl ho⟩
  · exact (keeps_run hr operations).2.stream
  · obtain ⟨hfound, hkeeps⟩ := keeps_run hr operations
    obtain ⟨hfound', hkeeps'⟩ := keeps_run hr others
    rw [hfound, hfound', hkeeps.generation, hkeeps'.generation, h]
    exact ⟨rfl, rfl⟩
  · have hs := (keeps_run hr before).2
    exact ⟨fun hup => found_of_crash hs hup ho, perform_crash_of_down, found_of_reset hs ho⟩

/-- The bounds are the wrong way round. -/
theorem found_as_scheduled_reversed :
    let p : CrashPlan := ⟨3, 1, 1⟩
    let r := Replica.start 0 (some p) (.ofSeed 5)
    let operations : List Operation := [.check 1, .acceptor true (.prepare ⟨⟨16⟩, "k", 0⟩),
      .learn ⟨⟨16⟩, 0, .put "k" "v"⟩, .acceptor false (.clear "k"), .check 2]
    let down := r.run [.crash, .check 1]
    r.found operations = [true, false, false, true] ∧ (r.run operations).supervisor.generation = 2 ∧
    r.found [.check 4] = r.found operations ∧ (perform .crash r).2.found [.check 3] = [false, false, true] ∧
    (perform .crash down).2 = down ∧ (perform .reset r).2.found [.check 3] = [true, true, false] := by
  intro p r operations down
  obtain ⟨-, hfound, -, hsame, hafter⟩ := found_as_scheduled 0 p (.ofSeed 5)
  have hundisturbed : Undisturbed operations := by simp [Undisturbed, operations]
  have hchecks : Undisturbed [.check 3] := by simp [Undisturbed]
  have houtage : p.outage = 2 := rfl
  have hfirst : (p.schedule (.ofSeed 5) 0 4).take 4 = [true, false, false, true] := by decide +kernel
  have hlost : (List.replicate p.outage false ++ p.schedule (.ofSeed 5) 1 3).take 3 = [false, false, true] := by
    decide +kernel
  have hsecond : (p.schedule (.ofSeed 5) 1 3).take 3 = [true, true, false] := by decide +kernel
  obtain ⟨hanswers, hgeneration⟩ := hfound operations hundisturbed
  obtain ⟨hcrash, -, hreset, -⟩ := hafter [] [.check 3] hchecks
  have hanswers := hanswers.trans hfirst
  refine ⟨hanswers, ?_, (hsame [.check 4] operations rfl).1, ?_, ?_, hreset.trans hsecond⟩
  · rw [hgeneration, hanswers, houtage]
    rfl
  · exact (hcrash rfl).1.trans hlost
  · exact (hafter [.crash, .check 1] [.check 3] hchecks).2.1 rfl

end Replica

end SynodStore

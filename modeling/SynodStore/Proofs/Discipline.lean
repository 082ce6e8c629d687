import SynodStore.Focus
import SynodStore.Proofs.Rounds

namespace SynodStore

structure Exchange where
  peer : Nat
  request : Request
  answer : Answer

/-- The ballots and the calls of a proposer, in a world that may change with every call. -/
structure Ledger (σ : Type) where
  issuer : Issuer
  calls : List Exchange
  world : σ

variable {σ : Type}

namespace Ledger

def enter (l : Ledger σ) (calls : List Exchange) (world : σ) : Ledger σ :=
  { l with calls := l.calls ++ calls, world }

theorem calls_enter (l : Ledger σ) (calls : List Exchange) (w : σ) : (l.enter calls w).calls = l.calls ++ calls := rfl

theorem enter_enter (l : Ledger σ) (calls calls' : List Exchange) (w w' : σ) :
    (l.enter calls w).enter calls' w' = l.enter (calls ++ calls') w' := by
  simp only [enter, List.append_assoc]

theorem issuer_enter (l : Ledger σ) (calls : List Exchange) (w : σ) : (l.enter calls w).issuer = l.issuer := rfl

def spend (l : Ledger σ) : Ledger σ :=
  { l with issuer := l.issuer.next.2 }

theorem calls_spend (l : Ledger σ) : l.spend.calls = l.calls := rfl

theorem issuer_spend (l : Ledger σ) : l.spend.issuer = l.issuer.next.2 := rfl

end Ledger

/-- A proposer that calls the replicas of a list in turn. Each call may be answered in any way. -/
def Surroundings.calling (peers : List Nat) (ask : Nat → Request → StateM σ Answer) :
    Surroundings (StateM (Ledger σ)) where
  peers := return peers
  issue := focus (·.issuer) (fun issuer l => { l with issuer }) Issuer.next
  broadcast peers q := peers.mapM fun peer l =>
    let p := ask peer q l.world
    (p.1, l.enter [⟨peer, q, p.1⟩] p.2)

def phase (peers : List Nat) (q : Request) (answers : List Answer) : List Exchange :=
  List.zipWith (fun peer answer => ⟨peer, q, answer⟩) peers answers

/-- An attempt at a round: its ballot, what it puts forward if it comes to that, and the answers heard in each of its
phases. -/
structure Attempt where
  ballot : Ballot
  value : Action
  promises : List Answer
  votes : Option (List Answer)
  notices : Option (List Answer)

namespace Attempt

def calls (peers : List Nat) (sender : UInt32) (key : String) (a : Attempt) : List Exchange :=
  phase peers (.prepare ⟨a.ballot, key, sender⟩) a.promises ++
    a.votes.elim [] (phase peers (.accept ⟨a.ballot, sender, a.value⟩)) ++
    a.notices.elim [] (phase peers (.learn ⟨a.ballot, sender, a.value⟩))

def promised (a : Attempt) : List Promise :=
  a.promises.filterMap Answer.promise?

def voted (a : Attempt) : List Vote :=
  (a.votes.getD []).filterMap Answer.vote?

/-- Every replica is called once in each phase, the votes are asked for if the promises suffice, and what is put
forward goes by the promises of this attempt. -/
structure Regular (c : Config) (peers : List Nat) (action : Action) (a : Attempt) : Prop where
  promises : a.promises.length = peers.length
  votes : ∀ answers ∈ a.votes, answers.length = peers.length
  notices : ∀ answers ∈ a.notices, answers.length = peers.length
  asks : a.votes.isSome ↔ c.majority ≤ a.promised.length
  value : (∀ p ∈ a.promised, p.accepted = none) ∧ a.value = action ∨
    ∃ p ∈ a.promised, ∃ v, p.accepted = some v ∧ v.action = a.value ∧
      ∀ p' ∈ a.promised, ∀ v', p'.accepted = some v' → v'.ballot ≤ v.ballot

def Short (c : Config) (a : Attempt) : Prop :=
  c.majority ≤ a.promised.length ∧ a.voted.length < c.majority

def outcome (c : Config) (a : Attempt) : Except Failure Vote :=
  if a.promised.length < c.majority then .error (.quorumNotReached .prepare a.promised.length c.majority)
  else if c.majority ≤ a.voted.length then .ok ⟨a.ballot, a.value⟩
  else
    match c.shortfall with
    | .strict => .error (.quorumNotReached .accept a.voted.length c.majority)
    | .degraded => .error (.degraded a.ballot a.voted.length c.majority)

theorem outcome_of_voted {c : Config} {a : Attempt} (hp : c.majority ≤ a.promised.length)
    (hv : c.majority ≤ a.voted.length) : a.outcome c = .ok ⟨a.ballot, a.value⟩ := by
  rw [outcome, if_neg (Nat.not_lt.2 hp), if_pos hv]

theorem outcome_of_outvoted {c : Config} {a : Attempt} (h : a.Short c) :
    a.outcome c = match c.shortfall with
      | .strict => .error (.quorumNotReached .accept a.voted.length c.majority)
      | .degraded => .error (.degraded a.ballot a.voted.length c.majority) := by
  rw [outcome, if_neg (Nat.not_lt.2 h.1), if_neg (Nat.not_le.2 h.2)]

/-- What becomes of an attempt: the round tries again, or comes to what its last attempt comes to. -/
inductive Ending {ρ : Type} (c : Config) (a : Attempt) (retried : Bool) (again last p : ρ) : Prop
  | missed (hf : retried = false) (hs : a.Short c) (hn : a.notices = none) (hp : p = again)
  | final (hf : ¬ (retried = false ∧ a.Short c))
      (hn : a.notices.isSome ↔
        c.majority ≤ a.promised.length ∧ (c.majority ≤ a.voted.length ∨ c.shortfall = .degraded)) (hp : p = last)

/-- One attempt or two came to this, from a ledger on. -/
structure Course (c : Config) (peers : List Nat) (sender : UInt32) (action : Action) (l : Ledger σ)
    (p : Except Failure Vote × Ledger σ) (first : Attempt) (second : Option Attempt) : Prop where
  calls : p.2.calls = l.calls ++ (first :: second.toList).flatMap (·.calls peers sender action.key)
  ballots : l.issuer.take (first :: second.toList).length = (first :: second.toList).map (.ok ·.ballot)
  counter : p.2.issuer.counter.toNat = l.issuer.counter.toNat + (first :: second.toList).length
  regular : ∀ a ∈ first :: second.toList, a.Regular c peers action
  again : second.isSome ↔ first.Short c
  announces : first.notices.isSome ↔ c.majority ≤ first.promised.length ∧ c.majority ≤ first.voted.length
  insists : ∀ a ∈ second, (a.notices.isSome ↔ c.majority ≤ a.promised.length ∧
    (c.majority ≤ a.voted.length ∨ c.shortfall = .degraded))
  once : first.notices = none ∨ ∀ a ∈ second, a.notices = none
  outcome : p.1 = (second.getD first).outcome c

end Attempt

theorem Issuer.next_cases (i : Issuer) :
    i.next.1 = .error .counterOverflow ∧ UInt64.size ≤ i.counter.toNat + 1 ∨
    ∃ b, i.next.1 = .ok b ∧ i.next.2.counter.toNat = i.counter.toNat + 1 := by
  by_cases h : i.counter.toNat + 1 < UInt64.size
  · have ht : (i.counter + 1).toNat = i.counter.toNat + 1 := by
      rw [UInt64.toNat_add]
      exact Nat.mod_eq_of_lt h
    refine .inr ⟨Ballot.pack (i.counter + 1) i.id, if_neg fun h0 => ?_, ht⟩
    rw [h0] at ht
    exact Nat.succ_ne_zero _ ht.symm
  · have hs : i.counter.toNat + 1 = UInt64.size := Nat.le_antisymm i.counter.toNat_lt (Nat.le_of_not_lt h)
    refine .inl ⟨if_pos (UInt64.toNat_inj.1 ?_), Nat.le_of_not_lt h⟩
    rw [UInt64.toNat_add, UInt64.toNat_one, hs]
    rfl

namespace Surroundings

variable (ask : Nat → Request → StateM σ Answer) (c : Config) (sender : UInt32) (peers : List Nat)
variable {r : Round} {l : Ledger σ} {value : Action}

theorem broadcast_calling (wired peers : List Nat) (q : Request) (l : Ledger σ) :
    ∃ answers w, (calling wired ask).broadcast peers q l = (answers, l.enter (phase peers q answers) w) ∧
      answers.length = peers.length := by
  simp only [calling]
  induction peers generalizing l with
  | nil => exact ⟨[], l.world, by simp [Ledger.enter, phase]; rfl, rfl⟩
  | cons peer peers ih =>
      obtain ⟨answers, w, h, hl⟩ := ih (l.enter [⟨peer, q, (ask peer q l.world).1⟩] (ask peer q l.world).2)
      refine ⟨(ask peer q l.world).1 :: answers, w, ?_, by simp [hl]⟩
      rw [List.mapM_cons]
      simp only [bind, StateT.bind, h, pure]
      rw [Ledger.enter_enter]
      rfl

theorem carry_learn {outcome : Except Failure Vote} (hr : r.stage = .learn value outcome) :
    ∃ answers w, (calling peers ask).carry c sender peers r l =
        (outcome, l.enter (phase peers (.learn ⟨r.ballot, sender, value⟩) answers) w) ∧
      answers.length = peers.length := by
  obtain ⟨answers, w, h, hl⟩ := broadcast_calling ask peers peers (r.request sender) l
  refine ⟨answers, w, ?_, hl⟩
  rw [carry_of_announced (congrArg Prod.snd h) hr, Round.request, hr]

theorem issue_calling (l : Ledger σ) : (calling peers ask).issue l = (l.issuer.next.1, l.spend) :=
  rfl

def again (action : Action) (l : Ledger σ) : Except Failure Vote × Ledger σ :=
  match (calling peers ask).issue l with
  | (.ok ballot, l) => (calling peers ask).carry c sender peers (.second action ballot) l
  | (.error fault, l) => (.error (.fault fault), l)

theorem carry_accept (hr : r.stage = .accept value) {promises : List Answer}
    (hp : c.majority ≤ (promises.filterMap Answer.promise?).length) :
    ∃ (votes : List Answer) (notices : Option (List Answer)) (w : σ), votes.length = peers.length ∧
      (∀ answers ∈ notices, answers.length = peers.length) ∧
      let a : Attempt := ⟨r.ballot, value, promises, some votes, notices⟩
      let l' := l.enter (phase peers (.accept ⟨r.ballot, sender, value⟩) votes ++
        notices.elim [] (phase peers (.learn ⟨r.ballot, sender, value⟩))) w
      a.Ending c r.retried (again ask c sender peers r.action l') (a.outcome c, l')
        ((calling peers ask).carry c sender peers r l) := by
  obtain ⟨votes, w, h, hl⟩ := broadcast_calling ask peers peers (r.request sender) l
  have hreq : r.request sender = .accept ⟨r.ballot, sender, value⟩ := by rw [Round.request, hr]
  have hconcl := r.conclusion c votes
  rw [carry_eq, h, hreq]
  dsimp only
  generalize r.conclude c votes = progress at hconcl ⊢
  have hlearn (outcome : Except Failure Vote) := carry_learn ask c sender peers
    (l := l.enter (phase peers (.accept ⟨r.ballot, sender, value⟩) votes) w)
    (r := { r with stage := .learn value outcome }) rfl
  simp only [Ledger.enter_enter] at hlearn
  have hshort (notices : Option (List Answer)) (hm : (votes.filterMap Answer.vote?).length < c.majority) :
      Attempt.Short c ⟨r.ballot, value, promises, some votes, notices⟩ := ⟨hp, hm⟩
  cases hconcl with
  | unpromised hr' | promised hr' | announced _ _ hr' => rw [hr] at hr'; cases hr'
  | retry _ _ hf hm =>
      refine ⟨votes, none, w, hl, by simp, .missed hf (hshort none hm) rfl ?_⟩
      dsimp only [again, Option.elim]
      rw [List.append_nil]
      generalize (calling peers ask).issue _ = issued
      obtain ⟨fault | ballot, l⟩ := issued <;> rfl
  | outvoted _ _ hf hs hm =>
      refine ⟨votes, none, w, hl, by simp, .final (by simp [hf]) ⟨by simp, fun h => ?_⟩ ?_⟩
      · rw [hs] at h
        exact absurd (h.2.resolve_right (by decide)) (Nat.not_le.2 hm)
      · dsimp only [Option.elim]
        rw [Attempt.outcome_of_outvoted (hshort none hm), hs, List.append_nil]
        rfl
  | degraded value' hr' hf hs hm =>
      obtain rfl : value = value' := by simpa [hr] using hr'
      obtain ⟨notices, w', hn, hl'⟩ :=
        hlearn (.error (.degraded r.ballot (votes.filterMap Answer.vote?).length c.majority))
      refine ⟨votes, some notices, w', hl, fun _ ha => Option.some.inj ha ▸ hl',
        .final (by simp [hf]) ⟨fun _ => ⟨hp, .inr hs⟩, fun _ => rfl⟩ ?_⟩
      rw [Attempt.outcome_of_outvoted (hshort _ hm), hs]
      exact hn
  | accepted value' hr' hm =>
      obtain rfl : value = value' := by simpa [hr] using hr'
      obtain ⟨notices, w', hn, hl'⟩ := hlearn (.ok ⟨r.ballot, value⟩)
      refine ⟨votes, some notices, w', hl, fun _ ha => Option.some.inj ha ▸ hl',
        .final (fun h => absurd hm (Nat.not_le.2 h.2.2)) ⟨fun _ => ⟨hp, .inl hm⟩, fun _ => rfl⟩ ?_⟩
      rw [Attempt.outcome_of_voted hp hm]
      exact hn

theorem carry_prepare (hr : r.stage = .prepare) :
    ∃ (a : Attempt) (w : σ), a.ballot = r.ballot ∧ a.Regular c peers r.action ∧
      let l' := l.enter (a.calls peers sender r.action.key) w
      a.Ending c r.retried (again ask c sender peers r.action l') (a.outcome c, l')
        ((calling peers ask).carry c sender peers r l) := by
  obtain ⟨promises, w, h, hl⟩ := broadcast_calling ask peers peers (r.request sender) l
  have hreq : r.request sender = .prepare ⟨r.ballot, r.action.key, sender⟩ := by rw [Round.request, hr]
  have hconcl := r.conclusion c promises
  have hvalue := chooseValue_spec (promises.filterMap Answer.promise?) r.action
  rw [carry_eq, h, hreq]
  dsimp only
  generalize r.conclude c promises = progress at hconcl ⊢
  cases hconcl with
  | retry _ hr' | outvoted _ hr' | degraded _ hr' | accepted _ hr' | announced _ _ hr' => rw [hr] at hr'; cases hr'
  | unpromised _ hm =>
      have hlt := Nat.not_le.2 hm
      refine ⟨⟨r.ballot, _, promises, none, none⟩, w, rfl, ⟨hl, by simp, by simp, ?_, hvalue⟩, .final ?_ ?_ ?_⟩
      · exact ⟨by simp, fun h => absurd h hlt⟩
      · exact fun h => hlt h.2.1
      · exact ⟨by simp, fun h => absurd h.1 hlt⟩
      · simp [Attempt.outcome, Attempt.promised, if_pos hm, Attempt.calls]
  | promised _ hm =>
      generalize (chooseValue (promises.filterMap Answer.promise?)).getD r.action = value at hvalue ⊢
      obtain ⟨votes, notices, w', hv, hn, hending⟩ := carry_accept ask c sender peers
        (l := l.enter (phase peers (.prepare ⟨r.ballot, r.action.key, sender⟩) promises) w)
        (r := { r with stage := .accept value }) rfl hm
      simp only [Ledger.enter_enter, ← List.append_assoc] at hending
      refine ⟨⟨r.ballot, value, promises, some votes, notices⟩, w', rfl, ⟨hl, ?_, hn, ?_, hvalue⟩, hending⟩
      · rintro _ ⟨⟩
        exact hv
      · exact ⟨fun _ => hm, fun _ => rfl⟩

theorem again_attempt (action : Action) :
    let p := again ask c sender peers action l
    p.1 = .error (.fault .counterOverflow) ∧ UInt64.size ≤ l.issuer.counter.toNat + 1 ∨
    ∃ (a : Attempt) (w : σ), l.issuer.next.1 = .ok a.ballot ∧
      l.issuer.next.2.counter.toNat = l.issuer.counter.toNat + 1 ∧ a.Regular c peers action ∧
      (a.notices.isSome ↔ c.majority ≤ a.promised.length ∧ (c.majority ≤ a.voted.length ∨ c.shortfall = .degraded)) ∧
      p = (a.outcome c, l.spend.enter (a.calls peers sender action.key) w) := by
  dsimp only
  rw [again, issue_calling]
  obtain ⟨hi, hs⟩ | ⟨b, hi, hc⟩ := l.issuer.next_cases
  · exact .inl ⟨by rw [hi], hs⟩
  · obtain ⟨a, w, rfl, hregular, hending⟩ := carry_prepare ask c sender peers (r := .second action b) (l := l.spend) rfl
    cases hending with
    | missed hf => cases hf
    | final _ hn he => exact .inr ⟨a, w, hi, hc, hregular, hn, by rw [hi]; exact he⟩

variable {ask c sender peers} in
/-- Unless its counter runs out, a round makes an attempt under the next ballot, and one more under the ballot after it
if and only if the first got promises enough and too few votes. -/
theorem round_attempts (action : Action) (hne : peers ≠ []) :
    let p := (calling peers ask).round c sender action l
    p.1 = .error (.fault .counterOverflow) ∧ UInt64.size ≤ l.issuer.counter.toNat + 2 ∨
    ∃ (first : Attempt) (second : Option Attempt), Attempt.Course c peers sender action l p first second := by
  dsimp only
  have hissue := issue_calling ask peers l
  obtain ⟨h1, hs⟩ | ⟨b, h1, hc1⟩ := l.issuer.next_cases
  · have hp : peers.isEmpty = false := by simpa using hne
    rw [h1] at hissue
    refine .inl ⟨?_, Nat.le_succ_of_le hs⟩
    rw [round_eq, show (calling peers ask).peers l = (peers, l) from rfl]
    dsimp only
    rw [hp, hissue]
    rfl
  rw [h1] at hissue
  rw [round_of_issued action rfl hne hissue]
  obtain ⟨first, w, rfl, hregular, ⟨-, hshort, hnone, he⟩ | ⟨hlast, hlearn, he⟩⟩ :=
    carry_prepare ask c sender peers (r := .first action b) (l := l.spend) rfl
  · obtain ⟨hfault, hs⟩ | ⟨second, w', h2, hc2, hregular', hlearn, he'⟩ := again_attempt ask c sender peers
      (l := l.spend.enter (first.calls peers sender action.key) w) action
    · rw [he]
      rw [Ledger.issuer_enter, Ledger.issuer_spend, hc1] at hs
      exact .inl ⟨hfault, hs⟩
    rw [Ledger.issuer_enter, Ledger.issuer_spend] at h2 hc2
    refine .inr ⟨first, some second, ?_⟩
    rw [he.trans he']
    constructor
    case calls => simp [Ledger.calls_enter, Ledger.calls_spend]
    case ballots => simp [Issuer.take, h1, h2]
    case counter => exact hc2.trans (congrArg (· + 1) hc1)
    case regular => exact List.forall_mem_cons.2 ⟨hregular, List.forall_mem_singleton.2 hregular'⟩
    case again => exact ⟨fun _ => hshort, fun _ => rfl⟩
    case announces =>
      rw [hnone]
      exact ⟨by simp, fun h => absurd h.2 (Nat.not_le.2 hshort.2)⟩
    case insists =>
      rintro _ ⟨⟩
      exact hlearn
    case once => exact .inl hnone
    case outcome => rfl
  · have hlong : ¬ first.Short c := fun h => hlast ⟨rfl, h⟩
    refine .inr ⟨first, none, ?_⟩
    rw [he]
    constructor
    case calls => simp [Ledger.calls_enter, Ledger.calls_spend, Round.first]
    case ballots => exact congrArg (fun r => [r]) h1
    case counter => exact hc1
    case regular => exact List.forall_mem_singleton.2 hregular
    case again => exact ⟨by simp, fun h => absurd h hlong⟩
    case announces =>
      refine hlearn.trans (and_congr_right fun hm => or_iff_left_of_imp fun _ => ?_)
      exact Nat.le_of_not_lt fun hv => hlong ⟨hm, hv⟩
    case insists => simp
    case once => exact .inr (by simp)
    case outcome => rfl

/-- The first attempt recovers what was voted for under ballot 7. The second hears of no vote and puts forward the
action of the caller, for which one replica votes. -/
theorem round_attempts_degraded :
    let silent : Answer := .error .scripted
    let blank : Answer := .ok (.promise (some ⟨⟨0⟩, none⟩))
    let voted : Answer := .ok (.promise (some ⟨⟨0⟩, some ⟨⟨7⟩, .put "k" "left"⟩⟩))
    let refused : Answer := .ok (.vote none)
    let vote : Answer := .ok (.vote (some ⟨⟨0⟩, .delete "other"⟩))
    let answers := [blank, voted, silent, refused, refused, vote] ++ [blank, silent, blank, silent, vote, refused] ++
      [silent, silent, silent]
    let l : Ledger (List Answer) := ⟨⟨2, 0, by decide⟩, [], answers⟩
    let c : Config := { Config.standard with clusterSize := 3, shortfall := .degraded }
    let ask : Nat → Request → StateM (List Answer) Answer := fun _ _ answers => (answers.headD silent, answers.tail)
    let p := (calling [0, 1, 2] ask).round c 2 (.put "k" "mine") l
    [0, 1, 2] ≠ [] ∧ p.1 = .error (.degraded (Ballot.pack 2 2) 1 2) ∧
    p.2.calls.map (·.answer) = answers ∧
    ∃ (first : Attempt) (second : Option Attempt),
      Attempt.Course c [0, 1, 2] 2 (.put "k" "mine") l p first second :=
  ⟨by decide, by decide +kernel, by decide +kernel,
    (round_attempts (.put "k" "mine") (by decide)).resolve_left fun h => absurd h.2 (by decide)⟩

end Surroundings

end SynodStore

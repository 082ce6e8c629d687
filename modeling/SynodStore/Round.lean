import SynodStore.CallError
import SynodStore.Config
import SynodStore.Message

namespace SynodStore

abbrev Answer := Except CallError Reply

namespace Answer

def promise? : Answer → Option Promise
  | .ok (.promise p) => p
  | _ => none

def vote? : Answer → Option Vote
  | .ok (.vote v) => v
  | _ => none

end Answer

/-- The vote under the highest ballot, the last of them if several share it. -/
def highestVote : List Vote → Option Vote
  | [] => none
  | v :: vs =>
    match highestVote vs with
    | none => some v
    | some w => if w.ballot < v.ballot then some v else some w

/-- The action that the promises oblige a proposer to put forward. -/
def chooseValue (promises : List Promise) : Option Action :=
  (highestVote (promises.filterMap (·.accepted))).map (·.action)

inductive Stage where
  | prepare
  | accept (value : Action)
  | learn (value : Action) (outcome : Except Failure Vote)

def Stage.left : Stage → Nat
  | prepare => 2
  | accept _ => 1
  | learn _ _ => 0

/-- A round in progress. One that missed its votes is retried once, under a new ballot. -/
structure Round where
  action : Action
  ballot : Ballot
  retried : Bool
  stage : Stage

inductive Progress where
  | ask (round : Round)
  | retry
  | finished (outcome : Except Failure Vote)

namespace Round

def first (action : Action) (ballot : Ballot) : Round :=
  ⟨action, ballot, false, .prepare⟩

def second (action : Action) (ballot : Ballot) : Round :=
  ⟨action, ballot, true, .prepare⟩

def request (r : Round) (sender : UInt32) : Request :=
  match r.stage with
  | .prepare => .prepare ⟨r.ballot, r.action.key, sender⟩
  | .accept value => .accept ⟨r.ballot, sender, value⟩
  | .learn value _ => .learn ⟨r.ballot, sender, value⟩

def shortfall (c : Config) (r : Round) (value : Action) (votes : Nat) : Progress :=
  if !r.retried then .retry
  else
    match c.shortfall with
    | .strict => .finished (.error (.quorumNotReached .accept votes c.majority))
    | .degraded => .ask { r with stage := .learn value (.error (.degraded r.ballot votes c.majority)) }

/-- Goes on once every replica has answered or failed to. Whatever is neither a promise nor a vote counts as
nothing, and the answers to an announcement do not matter. -/
def conclude (c : Config) (r : Round) (answers : List Answer) : Progress :=
  match r.stage with
  | .prepare =>
    let promises := answers.filterMap Answer.promise?
    if promises.length < c.majority then
      .finished (.error (.quorumNotReached .prepare promises.length c.majority))
    else .ask { r with stage := .accept ((chooseValue promises).getD r.action) }
  | .accept value =>
    let votes := (answers.filterMap Answer.vote?).length
    if votes < c.majority then r.shortfall c value votes
    else .ask { r with stage := .learn value (.ok ⟨r.ballot, value⟩) }
  | .learn _ outcome => .finished outcome

def left (r : Round) : Nat :=
  r.stage.left + if r.retried then 0 else 3

theorem left_conclude {c : Config} {r s : Round} {answers : List Answer} (h : r.conclude c answers = .ask s) :
    s.left < r.left := by
  obtain ⟨action, ballot, retried, stage⟩ := r
  cases stage with
  | prepare =>
    simp only [conclude] at h
    split at h <;> cases h
    simp [left, Stage.left]
  | accept value =>
    simp only [conclude, shortfall] at h
    split at h
    · cases retried <;> simp at h
      split at h <;> cases h
      simp [left, Stage.left]
    · cases h
      simp [left, Stage.left]
  | learn value outcome => cases h

theorem retried_of_conclude {c : Config} {r : Round} {answers : List Answer} (h : r.conclude c answers = .retry) :
    r.retried = false := by
  obtain ⟨action, ballot, retried, stage⟩ := r
  cases stage with
  | prepare =>
    simp only [conclude] at h
    split at h <;> cases h
  | accept value =>
    simp only [conclude, shortfall] at h
    split at h
    · cases retried with
      | false => rfl
      | true =>
        simp only [Bool.not_true, Bool.false_eq_true, if_false] at h
        split at h <;> cases h
    · cases h
  | learn value outcome => cases h

theorem left_second (action : Action) (ballot : Ballot) {r : Round} (h : r.retried = false) :
    (second action ballot).left < r.left := by
  simp only [left, second, Stage.left, h, reduceIte, Bool.false_eq_true]
  omega

end Round

end SynodStore

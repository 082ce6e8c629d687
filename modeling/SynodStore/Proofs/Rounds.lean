import SynodStore.Proofs.Grounds
import SynodStore.Proofs.Quorum

namespace SynodStore

namespace Round

variable {answers answers' : List Answer}

theorem filterMap_heard {β : Type} (f : Answer → Option β) (hf : ∀ failure, f (.error failure) = none) :
    answers.filterMap f = (answers.map Except.toOption).filterMap fun o => o.bind fun reply => f (.ok reply) := by
  rw [List.filterMap_map]
  refine List.filterMap_congr fun a _ => ?_
  cases a with
  | error failure => exact hf failure
  | ok reply => rfl

theorem conclude_congr (r : Round) {c : Config} (h : answers.map Except.toOption = answers'.map Except.toOption) :
    r.conclude c answers = r.conclude c answers' := by
  have hpromises : answers.filterMap Answer.promise? = answers'.filterMap Answer.promise? := by
    rw [filterMap_heard _ fun _ => rfl, h, ← filterMap_heard _ fun _ => rfl]
  have hvotes : answers.filterMap Answer.vote? = answers'.filterMap Answer.vote? := by
    rw [filterMap_heard _ fun _ => rfl, h, ← filterMap_heard _ fun _ => rfl]
  rw [conclude, conclude, hpromises, hvotes]

end Round

namespace Surroundings

variable {σ : Type} (e : Surroundings (StateM σ)) (c : Config) (sender : UInt32)

theorem carry_eq (peers : List Nat) (r : Round) (s : σ) :
    e.carry c sender peers r s =
      let p := e.broadcast peers (r.request sender) s
      match r.conclude c p.1 with
      | .ask next => e.carry c sender peers next p.2
      | .retry =>
        match e.issue p.2 with
        | (.ok ballot, s) => e.carry c sender peers (.second r.action ballot) s
        | (.error fault, s) => (.error (.fault fault), s)
      | .finished outcome => (outcome, p.2) := by
  rw [carry]
  simp only [bind, StateT.bind, pure]
  generalize e.broadcast peers (r.request sender) s = p
  obtain ⟨answers, s⟩ := p
  dsimp only
  cases hn : r.conclude c answers with
  | ask next => rfl
  | retry =>
      simp only [StateT.bind]
      cases e.issue s with
      | mk issued s =>
          cases issued with
          | ok ballot => rfl
          | error fault => rfl
  | finished outcome => rfl

section

variable {e c sender} {peers : List Nat} {r next : Round} {s s' : σ} {answers : List Answer} {value : Action}
variable {outcome : Except Failure Vote}

theorem carry_of_ask (h : e.broadcast peers (r.request sender) s = (answers, s'))
    (hn : r.conclude c answers = .ask next) : e.carry c sender peers r s = e.carry c sender peers next s' := by
  rw [carry_eq, h]
  dsimp only
  rw [hn]

theorem carry_of_announced (h : (e.broadcast peers (r.request sender) s).2 = s')
    (hr : r.stage = .learn value outcome) : e.carry c sender peers r s = (outcome, s') := by
  have hn : r.conclude c (e.broadcast peers (r.request sender) s).1 = .finished outcome := by rw [Round.conclude, hr]
  rw [carry_eq]
  dsimp only
  rw [hn, h]

end

theorem round_eq (action : Action) (s : σ) :
    e.round c sender action s =
      let p := e.peers s
      if p.1.isEmpty then (.error .unwired, p.2)
      else match e.issue p.2 with
        | (.ok ballot, s) => e.carry c sender p.1 (.first action ballot) s
        | (.error fault, s) => (.error (.fault fault), s) := by
  simp only [round, bind, StateT.bind]
  generalize e.peers s = p
  obtain ⟨peers, s⟩ := p
  dsimp only
  cases peers.isEmpty with
  | true => rfl
  | false =>
      simp only [Bool.false_eq_true, if_false, StateT.bind]
      cases e.issue s with
      | mk issued s =>
          cases issued with
          | ok ballot => rfl
          | error fault => rfl

variable {e c sender} in
theorem round_of_issued {peers : List Nat} {b : Ballot} {s s' : σ} (action : Action) (hp : e.peers s = (peers, s))
    (hne : peers ≠ []) (hi : e.issue s = (.ok b, s')) :
    e.round c sender action s = e.carry c sender peers (.first action b) s' := by
  rw [round_eq, hp]
  dsimp only
  rw [if_neg (by simpa using hne), hi]

theorem attempts_eq (action : Action) (n : Nat) (s : σ) :
    e.attempts c sender action (n + 1) s =
      match e.round c sender action s with
      | (.error failure, s) => (.error failure, s)
      | (.ok decision, s) =>
        if decision.action = action then (.ok decision.ballot, s) else e.attempts c sender action n s := by
  rw [attempts]
  simp only [bind, StateT.bind]
  cases e.round c sender action s with
  | mk outcome s =>
      cases outcome with
      | error failure => rfl
      | ok decision =>
          by_cases h : decision.action = action
          · simp only [h, if_true]
            rfl
          · simp only [h, if_false]

def Agree {α τ : Type} (R : σ → τ → Prop) (p : α × σ) (p' : α × τ) : Prop :=
  p.1 = p'.1 ∧ R p.2 p'.2

/-- Surroundings in which a proposer fares alike while the states correspond, as far as it calls such peers. The errors
that it hears may differ. -/
structure Mirrors {τ : Type} (e : Surroundings (StateM σ)) (e' : Surroundings (StateM τ)) (wired : List Nat → Prop)
    (R : σ → τ → Prop) : Prop where
  peers : ∀ s t, R s t → Agree R (e.peers s) (e'.peers t) ∧ wired (e.peers s).1
  issue : ∀ s t, R s t → Agree R (e.issue s) (e'.issue t)
  broadcast : ∀ peers q s t, wired peers → R s t →
    (e.broadcast peers q s).1.map Except.toOption = (e'.broadcast peers q t).1.map Except.toOption ∧
      R (e.broadcast peers q s).2 (e'.broadcast peers q t).2

namespace Mirrors

variable {τ : Type} {e} {e' : Surroundings (StateM τ)} {wired : List Nat → Prop} {R : σ → τ → Prop} {s : σ} {t : τ}
variable (h : e.Mirrors e' wired R)

include h

theorem carry {peers : List Nat} (hp : wired peers) (r : Round) (hs : R s t) :
    Agree R (e.carry c sender peers r s) (e'.carry c sender peers r t) := by
  induction hk : r.left using Nat.strongRecOn generalizing r s t with
  | ind k ih =>
      subst hk
      obtain ⟨hanswers, hstate⟩ := h.broadcast peers (r.request sender) s t hp hs
      rw [carry_eq, carry_eq]
      dsimp only
      rw [r.conclude_congr hanswers]
      cases hn : r.conclude c (e'.broadcast peers (r.request sender) t).1 with
      | ask next => exact ih _ (Round.left_conclude hn) next hstate rfl
      | finished outcome => exact ⟨rfl, hstate⟩
      | retry =>
          obtain ⟨hissued, hstate⟩ := h.issue _ _ hstate
          dsimp only
          generalize e.issue (e.broadcast peers (r.request sender) s).2 = i at hissued hstate ⊢
          generalize e'.issue (e'.broadcast peers (r.request sender) t).2 = i' at hissued hstate ⊢
          obtain ⟨fault | b, s⟩ := i <;> obtain ⟨_, t⟩ := i' <;> cases hissued
          · exact ⟨rfl, hstate⟩
          · exact ih _ (Round.left_second _ _ (Round.retried_of_conclude hn)) _ hstate rfl

theorem round (action : Action) (hs : R s t) :
    Agree R (e.round c sender action s) (e'.round c sender action t) := by
  obtain ⟨⟨hpeers, hstate⟩, hwired⟩ := h.peers s t hs
  rw [round_eq, round_eq]
  dsimp only
  rw [← hpeers]
  split
  · exact ⟨rfl, hstate⟩
  · obtain ⟨hissued, hstate⟩ := h.issue _ _ hstate
    generalize e.issue (e.peers s).2 = i at hissued hstate ⊢
    generalize e'.issue (e'.peers t).2 = i' at hissued hstate ⊢
    obtain ⟨fault | b, s'⟩ := i <;> obtain ⟨_, t'⟩ := i' <;> cases hissued
    · exact ⟨rfl, hstate⟩
    · exact h.carry _ _ hwired _ hstate

theorem attempts (action : Action) (n : Nat) (hs : R s t) :
    Agree R (e.attempts c sender action n s) (e'.attempts c sender action n t) := by
  induction n generalizing s t with
  | zero => exact ⟨rfl, hs⟩
  | succ n ih =>
      obtain ⟨houtcome, hstate⟩ := h.round c sender action hs
      rw [attempts_eq, attempts_eq]
      generalize e.round c sender action s = p at houtcome hstate ⊢
      generalize e'.round c sender action t = p' at houtcome hstate ⊢
      obtain ⟨failure | d, s⟩ := p <;> obtain ⟨_, t⟩ := p' <;> cases houtcome
      · exact ⟨rfl, hstate⟩
      · dsimp only
        split
        · exact ⟨rfl, hstate⟩
        · exact ih hstate

end Mirrors

/-- Surroundings that do the same to a part of the state, whatever becomes of the rest. -/
structure Views {τ : Type} (e : Surroundings (StateM σ)) (e' : Surroundings (StateM τ)) (view : τ → σ) : Prop where
  peers : ∀ t, e.peers (view t) = ((e'.peers t).1, view (e'.peers t).2)
  issue : ∀ t, e.issue (view t) = ((e'.issue t).1, view (e'.issue t).2)
  broadcast : ∀ peers q t, e.broadcast peers q (view t) =
    ((e'.broadcast peers q t).1, view (e'.broadcast peers q t).2)

namespace Views

variable {τ : Type} {e} {e' : Surroundings (StateM τ)} {view : τ → σ}

theorem mirrors (h : e.Views e' view) : e.Mirrors e' (fun _ => True) fun s t => s = view t where
  peers s t hs := by
    subst hs
    rw [h.peers]
    exact ⟨⟨rfl, rfl⟩, trivial⟩
  issue s t hs := by
    subst hs
    rw [h.issue]
    exact ⟨rfl, rfl⟩
  broadcast peers q s t _ hs := by
    subst hs
    rw [h.broadcast]
    exact ⟨rfl, rfl⟩

theorem attempts (h : e.Views e' view) (action : Action) (n : Nat) (t : τ) :
    e.attempts c sender action n (view t) =
      ((e'.attempts c sender action n t).1, view (e'.attempts c sender action n t).2) := by
  obtain ⟨houtcome, hstate⟩ := h.mirrors.attempts c sender action n rfl
  exact Prod.ext houtcome hstate

end Views

end Surroundings

/-- What can be relied on while an action is put through: between attempts after so many ballots, under a ballot,
once a value has its votes, and once it was announced. -/
structure Safeguards (σ : Type) where
  idle : Nat → σ → Prop
  trying : Nat → Ballot → σ → Prop
  voted : Nat → Ballot → Action → σ → Prop
  decided : Nat → Action → σ → Prop

namespace Surroundings

variable {σ : Type}

structure Keeps (e : Surroundings (StateM σ)) (c : Config) (sender : UInt32) (peers : List Nat) (key : String)
    (Q : Action → Prop) (I : Safeguards σ) : Prop where
  wired : ∀ n s, I.idle n s → e.peers s = (peers, s)
  issue : ∀ n s, I.idle n s → I.idle (n + 1) (e.issue s).2 ∧
    ∀ b, (e.issue s).1 = .ok b → I.trying (n + 1) b (e.issue s).2
  resting : ∀ n b s, I.trying n b s → I.idle n s
  prepare : ∀ n b s, I.trying n b s → I.trying n b (e.broadcast peers (.prepare ⟨b, key, sender⟩) s).2 ∧
    ∀ p ∈ (e.broadcast peers (.prepare ⟨b, key, sender⟩) s).1.filterMap Answer.promise?,
      ∀ v, p.accepted = some v → Q v.action
  accept : ∀ n b value s, I.trying n b s → Q value →
    I.idle n (e.broadcast peers (.accept ⟨b, sender, value⟩) s).2 ∧
      (c.majority ≤ ((e.broadcast peers (.accept ⟨b, sender, value⟩) s).1.filterMap Answer.vote?).length →
        I.voted n b value (e.broadcast peers (.accept ⟨b, sender, value⟩) s).2)
  learn : ∀ n b value s, I.voted n b value s → Q value →
    I.decided n value (e.broadcast peers (.learn ⟨b, sender, value⟩) s).2

end Surroundings

inductive Safeguards.Outcome {σ : Type} (I : Safeguards σ) (Q : Action → Prop) (n k : Nat) :
    Except Failure Vote × σ → Prop
  | decided (d : Vote) (s : σ) (j : Nat) (hj : j ≤ k) (hQ : Q d.action) (hs : I.decided (n + j) d.action s) :
      Outcome I Q n k (.ok d, s)
  | failed (failure : Failure) (s : σ) (j : Nat) (hj : j ≤ k) (hs : I.idle (n + j) s) :
      Outcome I Q n k (.error failure, s)

theorem Safeguards.Outcome.later {σ : Type} {I : Safeguards σ} {Q : Action → Prop} {n k : Nat}
    {p : Except Failure Vote × σ} (h : I.Outcome Q (n + 1) k p) : I.Outcome Q n (k + 1) p := by
  cases h with
  | decided d s j hj hQ hs => exact .decided d s (1 + j) (by omega) hQ (Nat.add_assoc n 1 j ▸ hs)
  | failed failure s j hj hs => exact .failed failure s (1 + j) (by omega) (Nat.add_assoc n 1 j ▸ hs)

namespace Surroundings.Keeps

variable {σ : Type} {e : Surroundings (StateM σ)} {c : Config} {sender : UInt32} {peers : List Nat}
variable {action : Action} {Q : Action → Prop} {I : Safeguards σ} {n k : Nat} {s : σ} {r : Round}

theorem carry_learn (h : e.Keeps c sender peers action.key Q I) {value : Action}
    (hr : r.stage = .learn value (.ok ⟨r.ballot, value⟩)) (hQ : Q value) (hs : I.voted n r.ballot value s) :
    I.Outcome Q n k (e.carry c sender peers r s) := by
  have hl := h.learn n r.ballot value s hs hQ
  simp only [carry_eq, Round.request, hr, Round.conclude]
  exact .decided _ _ 0 (Nat.zero_le _) hQ hl

variable (h : e.Keeps c sender peers action.key Q I) (hc : c.shortfall = .strict) (ha : r.action = action)

include h hc

theorem carry_accept {value : Action} (hr : r.stage = .accept value) (hQ : Q value) (hs : I.trying n r.ballot s)
    (hretry : r.retried = false → 1 ≤ k ∧ ∀ b s, I.trying (n + 1) b s →
      I.Outcome Q n k (e.carry c sender peers (.second r.action b) s)) :
    I.Outcome Q n k (e.carry c sender peers r s) := by
  obtain ⟨hidle, hvoted⟩ := h.accept n r.ballot value s hs hQ
  have hreq : r.request sender = .accept ⟨r.ballot, sender, value⟩ := by simp only [Round.request, hr]
  rw [carry_eq, hreq]
  generalize e.broadcast peers (.accept ⟨r.ballot, sender, value⟩) s = p at hidle hvoted ⊢
  have hconcl := r.conclusion c p.1
  dsimp only
  generalize r.conclude c p.1 = progress at hconcl ⊢
  cases hconcl with
  | unpromised hr' | promised hr' | announced _ _ hr' => rw [hr] at hr'; cases hr'
  | degraded _ _ _ hd => rw [hc] at hd; cases hd
  | outvoted => exact .failed _ _ 0 (Nat.zero_le _) hidle
  | accepted value' hr' hm =>
      obtain rfl : value = value' := by simpa [hr] using hr'
      exact carry_learn h (r := { r with stage := _ }) rfl hQ (hvoted hm)
  | retry _ _ hf =>
      obtain ⟨hissue, hb⟩ := h.issue n p.2 hidle
      dsimp only
      generalize e.issue p.2 = issued at hissue hb ⊢
      obtain ⟨fault | ballot, s⟩ := issued
      · exact .failed _ _ 1 (hretry hf).1 hissue
      · exact (hretry hf).2 ballot s (hb ballot rfl)

include ha

theorem carry_prepare (hr : r.stage = .prepare) (hQ : Q action) (hs : I.trying n r.ballot s)
    (hretry : r.retried = false → 1 ≤ k ∧ ∀ b s, I.trying (n + 1) b s →
      I.Outcome Q n k (e.carry c sender peers (.second r.action b) s)) :
    I.Outcome Q n k (e.carry c sender peers r s) := by
  obtain ⟨htry, hvotes⟩ := h.prepare n r.ballot s hs
  have hreq : r.request sender = .prepare ⟨r.ballot, action.key, sender⟩ := by simp only [Round.request, hr, ha]
  rw [carry_eq, hreq]
  generalize e.broadcast peers (.prepare ⟨r.ballot, action.key, sender⟩) s = p at htry hvotes ⊢
  have hconcl := r.conclusion c p.1
  dsimp only
  generalize r.conclude c p.1 = progress at hconcl ⊢
  cases hconcl with
  | retry _ hr' | outvoted _ hr' | degraded _ hr' | accepted _ hr' | announced _ _ hr' => rw [hr] at hr'; cases hr'
  | unpromised => exact .failed _ _ 0 (Nat.zero_le _) (h.resting n r.ballot p.2 htry)
  | promised =>
      refine carry_accept h hc (r := { r with stage := _ }) rfl ?_ htry hretry
      cases hv : chooseValue (p.1.filterMap Answer.promise?) with
      | none => exact ha ▸ hQ
      | some value =>
          obtain ⟨q, hq, v, hqv, rfl⟩ := exists_of_chooseValue hv
          exact hvotes q hq v hqv

omit ha

theorem round (hQ : Q action) (hs : I.idle n s) : I.Outcome Q n 2 (e.round c sender action s) := by
  have hsecond {n : Nat} {b : Ballot} {s : σ} (hs : I.trying n b s) :
      I.Outcome Q n 0 (e.carry c sender peers (.second action b) s) :=
    carry_prepare h hc rfl rfl hQ hs fun hf => by cases hf
  have hfirst {n : Nat} {b : Ballot} {s : σ} (hs : I.trying n b s) :
      I.Outcome Q n 1 (e.carry c sender peers (.first action b) s) :=
    carry_prepare h hc rfl rfl hQ hs fun _ => ⟨Nat.le_refl _, fun b s hs => (hsecond hs).later⟩
  obtain ⟨hissue, hb⟩ := h.issue n s hs
  simp only [round_eq, h.wired n s hs]
  split
  · exact .failed _ _ 0 (Nat.zero_le _) hs
  · generalize e.issue s = issued at hissue hb ⊢
    obtain ⟨fault | ballot, s⟩ := issued
    · exact .failed _ _ 1 (by decide) hissue
    · exact (hfirst (hb ballot rfl)).later

theorem attempts (hQ : Q action) (hidle : ∀ n value s, Q value → I.decided n value s → I.idle n s)
    (hs : I.idle n s) (m : Nat) :
    match e.attempts c sender action m s with
    | (.ok _, s) => ∃ n, I.decided n action s
    | (.error _, s) => ∃ n, I.idle n s := by
  induction m generalizing n s with
  | zero => exact ⟨n, hs⟩
  | succ m ih =>
      have hround := h.round hc hQ hs
      rw [attempts_eq]
      generalize e.round c sender action s = result at hround ⊢
      cases hround with
      | failed failure s j hj hs => exact ⟨_, hs⟩
      | decided d s j hj hQd hs =>
          dsimp only
          by_cases hd : d.action = action
          · rw [if_pos hd]
            exact ⟨_, hd ▸ hs⟩
          · rw [if_neg hd]
            exact ih (hidle _ _ _ hQd hs)

end Surroundings.Keeps

end SynodStore

import SynodStore.Proofs.Lineup
import SynodStore.Proofs.Quorum

namespace SynodStore

open Scenario (Fate)

variable {α β γ : Type} {sizes : List Nat}

def groups (sizes : List Nat) (l : List α) : List α :=
  (List.zipWith List.replicate sizes l).flatten

theorem groups_cons (size : Nat) (x : α) (l : List α) :
    groups (size :: sizes) (x :: l) = List.replicate size x ++ groups sizes l :=
  rfl

theorem groups_append {sizes' : List Nat} {l l' : List α} (h : sizes.length = l.length) :
    groups (sizes ++ sizes') (l ++ l') = groups sizes l ++ groups sizes' l' := by
  simp only [groups, List.zipWith_append h, List.flatten_append]

theorem length_groups {l : List α} (h : sizes.length = l.length) : (groups sizes l).length = sizes.sum := by
  induction sizes generalizing l with
  | nil => rfl
  | cons size sizes ih =>
      cases l with
      | nil => cases h
      | cons x l => rw [groups_cons, List.length_append, List.length_replicate, ih (Nat.succ.inj h), List.sum_cons]

theorem mem_of_mem_groups {l : List α} {x : α} (h : x ∈ groups sizes l) : x ∈ l := by
  induction sizes generalizing l with
  | nil => cases h
  | cons size sizes ih =>
      cases l with
      | nil => cases h
      | cons y l =>
          rw [groups_cons, List.mem_append] at h
          rcases h with h | h
          · rw [List.eq_of_mem_replicate h]
            exact List.mem_cons_self
          · exact List.mem_cons_of_mem _ (ih h)

theorem mem_groups {l : List α} {x : α} {i size : Nat} (hs : sizes[i]? = some size) (hx : l[i]? = some x)
    (hpos : 0 < size) : x ∈ groups sizes l := by
  induction sizes generalizing l i with
  | nil => cases hs
  | cons size' sizes ih =>
      cases l with
      | nil => cases hx
      | cons y l =>
          rw [groups_cons, List.mem_append]
          cases i with
          | zero =>
              cases hs
              cases hx
              exact .inl (List.mem_replicate.2 ⟨hpos.ne', rfl⟩)
          | succ i => exact .inr (ih hs hx)

theorem zipWith_groups (f : α → β → γ) (l : List α) (l' : List β) :
    List.zipWith f (groups sizes l) (groups sizes l') = groups sizes (List.zipWith f l l') := by
  induction sizes generalizing l l' with
  | nil => rfl
  | cons size sizes ih =>
      cases l with
      | nil => rfl
      | cons x l =>
          cases l' with
          | nil => simp [groups]
          | cons y l' => simp [groups_cons, List.zipWith_append, ih]

theorem length_filterMap_groups (f : α → Option β) (l : List α) :
    ((groups sizes l).filterMap f).length =
      (List.zipWith (fun size x => (f x).elim 0 fun _ => size) sizes l).sum := by
  induction sizes generalizing l with
  | nil => rfl
  | cons size sizes ih =>
      cases l with
      | nil => rfl
      | cons x l => cases hx : f x <;> simp [groups_cons, List.filterMap_append, hx, ih]

theorem length_filterMap_groups_of_isSome {f : α → Option β} {l : List α} (h : sizes.length = l.length)
    (hf : ∀ x ∈ l, (f x).isSome) : ((groups sizes l).filterMap f).length = sizes.sum := by
  rw [List.filterMap_length_eq_length.2 fun x hx => hf x (mem_of_mem_groups hx), length_groups h]

section

variable {answers : List Answer}

theorem chooseValue_groups_eq_none (h : answers.all fun x => x.promise?.all (·.accepted.isNone)) :
    chooseValue ((groups sizes answers).filterMap Answer.promise?) = none := by
  apply chooseValue_eq_none
  intro p hp
  obtain ⟨x, hx, hxp⟩ := List.mem_filterMap.1 hp
  have hnone := List.all_eq_true.1 h x (mem_of_mem_groups hx)
  simpa [hxp] using hnone

theorem chooseValue_groups {action : Action} {i size : Nat} {x : Answer} {p : Promise} {v : Vote}
    (h : answers.all fun x => x.promise?.all (·.accepted.all (·.action = action))) (hs : sizes[i]? = some size)
    (hpos : 0 < size) (hx : answers[i]? = some x) (hp : x.promise? = some p) (hv : p.accepted = some v) :
    chooseValue ((groups sizes answers).filterMap Answer.promise?) = some action := by
  obtain ⟨q, hq, w, hw, -, hchoose⟩ := exists_chooseValue (List.mem_filterMap.2 ⟨x, mem_groups hs hx hpos, hp⟩) hv
  obtain ⟨y, hy, hyq⟩ := List.mem_filterMap.1 hq
  have hall := List.all_eq_true.1 h y (mem_of_mem_groups hy)
  have haction : w.action = action := by simpa [hyq, hw] using hall
  rw [hchoose, haction]

end

namespace Synod.Reaches

variable {κ : Conditions} {u : Synod} {n : Nat} {t : Mandate} {round : Round} {k : String}
variable {proposers : List Proposer} {sessions : List Session} {fates : List Fate}

theorem hear_groups {before rest after : List Nat} {x y z : List Cell} {done : List Answer}
    (h : Reaches κ u k (groups (before ++ rest ++ after) (x ++ y ++ z)) proposers sessions)
    (hs : sessions[n]? = some
      ⟨t, .running round ((groups before done).map some ++ List.replicate (rest ++ after).sum none)⟩)
    (hp : t.peers = List.range (before ++ rest ++ after).sum) (hx : before.length = x.length)
    (hy : rest.length = y.length) (hz : after.length = z.length) (hd : before.length = done.length)
    (hk : (round.request t.sender).key = k) (hl : rest.length = fates.length)
    (hf : fates.all (κ.fate (round.request t.sender))) :
    Reaches κ u k (groups (before ++ rest ++ after) (x ++ Cell.held (round.request t.sender) y fates ++ z)) proposers
      (sessions.set n ⟨t, .running round
        ((groups (before ++ rest) (done ++ Cell.heard (round.request t.sender) y fates)).map some ++
          List.replicate after.sum none)⟩) := by
  have hxy : (before ++ rest).length = (x ++ y).length := by simp [hx, hy]
  rw [groups_append hxy, groups_append hx] at h
  have hsum : (groups rest y).length + (groups after z).length = (rest ++ after).sum := by
    rw [length_groups hy, length_groups hz, List.sum_append]
  have hrange : (groups before x).length + (groups rest y).length + (groups after z).length =
      (before ++ rest ++ after).sum := by
    rw [length_groups hx, length_groups hy, length_groups hz, List.sum_append, List.sum_append]
  rw [← hsum] at hs
  rw [← hrange] at hp
  have hdone : (groups before done).length = (groups before x).length := by rw [length_groups hd, length_groups hx]
  have hfates : (groups rest fates).length = (groups rest y).length := by rw [length_groups hl, length_groups hy]
  have hnext := h.hear hs hp hdone hk hfates fun f hf' => List.all_eq_true.1 hf f (mem_of_mem_groups hf')
  have hheld : (before ++ rest).length = (x ++ Cell.held (round.request t.sender) y fates).length := by
    simp [Cell.held, hx, ← hy, ← hl]
  rw [Cell.held, Cell.heard, zipWith_groups, zipWith_groups, length_groups hz] at hnext
  rw [groups_append hheld, groups_append hx, groups_append hd]
  exact hnext

theorem facing_eq (hp : t.peers = List.range sizes.sum) :
    t.facing round = ⟨t, .running round ((groups [] []).map some ++ List.replicate sizes.sum none)⟩ := by
  simp [Mandate.facing, hp, groups, List.map_const']

theorem hear_front {first after : List Nat} {x y : List Cell}
    (h : Reaches κ u k (groups (first ++ after) (x ++ y)) proposers sessions)
    (hs : sessions[n]? = some (t.facing round))
    (hp : t.peers = List.range (first ++ after).sum) (hx : first.length = x.length) (hy : after.length = y.length)
    (hk : (round.request t.sender).key = k) (fates : List Fate) (hl : first.length = fates.length)
    (hf : fates.all (κ.fate (round.request t.sender))) :
    Reaches κ u k (groups (first ++ after) (Cell.held (round.request t.sender) x fates ++ y)) proposers
      (sessions.set n ⟨t, .running round
        ((groups first (Cell.heard (round.request t.sender) x fates)).map some ++
          List.replicate after.sum none)⟩) := by
  rw [facing_eq hp] at hs
  exact @hear_groups κ u n t round k proposers sessions fates [] first after [] x y [] h hs hp rfl hx hy rfl hk hl hf

theorem hear_rest {before rest : List Nat} {x y : List Cell} {done : List Answer}
    (h : Reaches κ u k (groups (before ++ rest) (x ++ y)) proposers sessions)
    (hs : sessions[n]? = some ⟨t, .running round ((groups before done).map some ++ List.replicate rest.sum none)⟩)
    (hp : t.peers = List.range (before ++ rest).sum) (hx : before.length = x.length) (hy : rest.length = y.length)
    (hd : before.length = done.length) (hk : (round.request t.sender).key = k) (fates : List Fate)
    (hl : rest.length = fates.length) (hf : fates.all (κ.fate (round.request t.sender))) :
    Reaches κ u k (groups (before ++ rest) (x ++ Cell.held (round.request t.sender) y fates)) proposers
      (sessions.set n ⟨t, .running round
        ((groups (before ++ rest) (done ++ Cell.heard (round.request t.sender) y fates)).map some)⟩) := by
  rw [← List.append_nil (before ++ rest), ← List.append_nil (x ++ y)] at h
  rw [← List.append_nil (before ++ rest)] at hp
  rw [← List.append_nil rest] at hs
  have hall := h.hear_groups hs hp hx hy rfl hd hk hl hf
  simpa only [List.append_nil, List.sum_nil, List.replicate_zero] using hall

theorem answer {cells : List Cell} (h : Reaches κ u k (groups sizes cells) proposers sessions)
    (hs : sessions[n]? = some (t.facing round)) (hp : t.peers = List.range sizes.sum)
    (hc : sizes.length = cells.length) (hk : (round.request t.sender).key = k) (fates : List Fate)
    (hl : sizes.length = fates.length) (hf : fates.all (κ.fate (round.request t.sender))) :
    Reaches κ u k (groups sizes (Cell.held (round.request t.sender) cells fates)) proposers (sessions.set n
      ⟨t, .running round ((groups sizes (Cell.heard (round.request t.sender) cells fates)).map some)⟩) := by
  rw [facing_eq hp] at hs
  exact @hear_rest κ u n t round k proposers sessions [] sizes [] cells [] h hs hp rfl hc rfl hk fates hl hf

theorem pass {cells : List Cell} (h : Reaches .calm u k (groups sizes cells) proposers sessions)
    (hs : sessions[n]? = some (t.facing round)) (hp : t.peers = List.range sizes.sum)
    (hc : sizes.length = cells.length) (hk : (round.request t.sender).key = k) :
    Reaches .calm u k (groups sizes (cells.map fun x => (x.serve (round.request t.sender)).2)) proposers
      (sessions.set n ⟨t, .running round
        ((groups sizes (cells.map fun x => .ok (x.serve (round.request t.sender)).1)).map some)⟩) := by
  have hall := h.answer hs hp hc hk (cells.map fun _ => .pass) (by simpa using hc) (by simp [Conditions.calm])
  rwa [Cell.heard_pass, Cell.held_pass] at hall

/-- Where no call is lost a round comes to its announcement with the votes of all replicas if they all admit its
ballot. -/
theorem vote {cells : List Cell} {action : Action} {ballot : Ballot} (chosen : Option Action)
    (h : Reaches .calm u k (groups sizes cells) proposers sessions)
    (hs : sessions[n]? = some (t.facing (.first action ballot))) (hp : t.peers = List.range sizes.sum)
    (hc : sizes.length = cells.length) (hk : action.key = k) (hkey : (chosen.getD action).key = k)
    (hm : t.config.majority ≤ sizes.sum) (ha : cells.all (·.slot.admitsPrepare ballot))
    (hv : chooseValue ((groups sizes (cells.map (Cell.promising ballot))).filterMap Answer.promise?) = chosen) :
    Reaches .calm u k (groups sizes (cells.map (Cell.voted ⟨ballot, chosen.getD action⟩))) proposers
      (sessions.set n (t.facing
        ⟨action, ballot, false, .learn (chosen.getD action) (.ok ⟨ballot, chosen.getD action⟩)⟩)) := by
  have hlt := (List.getElem?_eq_some_iff.1 hs).1
  let q : Prepare := ⟨ballot, action.key, t.sender⟩
  let m : Proposal := ⟨ballot, t.sender, chosen.getD action⟩
  have hpromised : cells.map (fun x => (x.serve (.prepare q)).2) = cells.map (Cell.promised ballot) :=
    List.map_congr_left fun x hx => by rw [Cell.serve_prepare (m := q) (List.all_eq_true.1 ha x hx)]
  have hpromising : cells.map (fun x => (.ok (x.serve (.prepare q)).1 : Answer)) =
      cells.map (Cell.promising ballot) :=
    List.map_congr_left fun x hx => by rw [Cell.serve_prepare (m := q) (List.all_eq_true.1 ha x hx), Cell.promising]
  have hvoted : (cells.map (Cell.promised ballot)).map (fun x => (x.serve (.accept m)).2) =
      cells.map (Cell.voted m.vote) := by
    rw [List.map_map]
    exact List.map_congr_left fun x _ => congrArg Prod.snd (x.serve_accept_promised m)
  have hvoting : (cells.map (Cell.promised ballot)).map (fun x => (.ok (x.serve (.accept m)).1 : Answer)) =
      cells.map fun _ => .ok (.vote (some m.vote)) := by
    rw [List.map_map]
    apply List.map_congr_left
    intro x _
    show Except.ok ((x.promised m.ballot).serve (.accept m)).1 = _
    rw [Cell.serve_accept_promised]
  have h₁ := h.pass hs hp hc hk
  simp only [Round.request, Round.first] at h₁
  rw [hpromised, hpromising] at h₁
  have h₂ := h₁.ask (List.getElem?_set_self hlt) (Round.ask_accept chosen rfl ?_ hv)
  · rw [List.set_set] at h₂
    have h₃ := h₂.pass (List.getElem?_set_self hlt) hp (by simpa using hc) hkey
    simp only [Round.request] at h₃
    rw [hvoted, hvoting, List.set_set] at h₃
    have h₄ := h₃.ask (List.getElem?_set_self hlt) (Round.ask_learn rfl ?_)
    · rwa [List.set_set] at h₄
    · rwa [length_filterMap_groups_of_isSome (by simpa using hc) (by simp [Answer.vote?])]
  · rwa [length_filterMap_groups_of_isSome (by simpa using hc) (by simp [Answer.promise?, Cell.promising])]

end Synod.Reaches

end SynodStore

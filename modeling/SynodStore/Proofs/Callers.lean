import Mathlib.Logic.Function.Basic
import SynodStore.Proofs.Delivery

namespace SynodStore.Network

variable {κ σ : Type} {f : Errand → StateM σ String} {net base : Network κ σ}
variable {es : List Errand} {e : Errand} {st : Nat → Standing} {roused : List Nat} {stamina i : Nat}

theorem clockSpan_pos {t : Nat} (h : 0 < t) : 0 < clockSpan t := by
  rw [clockSpan]
  split
  · exact h
  · decide

/-- A crowd has assembled to run the errands, and this is how far each of the callers is. -/
def assembled (es : List Errand) (st : Nat → Standing) (roused : List Nat) (stamina : Nat) (net : Network κ σ) :
    Network κ σ :=
  { net with
    issued := net.issued + es.length
    crowd := ⟨net.issued,
      es.mapIdx fun i e => ⟨e.node, e.text, e.timeout, net.now + clockSpan e.timeout, st i⟩, roused, stamina⟩ }

theorem convene_eq (net : Network κ σ) (es : List Errand) :
    net.convene es = net.assembled es (fun _ => .fresh) (List.range' net.issued es.length) net.crowd.stamina := by
  have hm (g : Errand → Caller) : es.mapIdx (fun _ e => g e) = es.map g := by
    exact List.ext_getElem (by simp) (by simp)
  rw [convene, assembled, hm]

section

variable (net : Network κ σ)

theorem caller?_assembled (hi : es[i]? = some e) : (net.assembled es st roused stamina).crowd.caller? (net.issued + i) =
    some ⟨e.node, e.text, e.timeout, net.now + clockSpan e.timeout, st i⟩ := by
  rw [Crowd.caller?, if_neg (by simp [assembled])]
  simp [assembled, hi]

theorem standing?_assembled (hi : i < es.length) :
    (net.assembled es st roused stamina).crowd.standing? (net.issued + i) = some (st i) := by
  rw [Crowd.standing?, caller?_assembled net (List.getElem?_eq_getElem hi)]
  rfl

theorem move_assembled (i : Nat) (x : Standing) : (net.assembled es st roused stamina).move (net.issued + i) x =
    net.assembled es (Function.update st i x) roused stamina := by
  have hc : (net.assembled es st roused stamina).crowd.move (net.issued + i) x =
      (net.assembled es (Function.update st i x) roused stamina).crowd := by
    simp only [Crowd.move, assembled, Nat.add_sub_cancel_left]
    congr 1
    refine List.ext_getElem (by simp) fun j hj hj' => ?_
    rw [List.getElem_modify]
    by_cases hij : i = j
    · subst j
      simp
    · simp [hij, Function.update_of_ne (Ne.symm hij)]
  rw [move, hc]
  rfl

theorem rouse_caller_assembled (t : Nat) : (net.assembled es st roused stamina).rouse (.caller t) =
    net.assembled es st (if t ∈ roused then roused else roused ++ [t]) stamina := by
  have hc : (net.assembled es st roused stamina).crowd.rouse t =
      (net.assembled es st (if t ∈ roused then roused else roused ++ [t]) stamina).crowd := by
    by_cases ht : t ∈ roused
    · rw [if_pos ht]
      exact if_pos ht
    · rw [if_neg ht]
      exact if_neg ht
  rw [rouse, hc]
  rfl

theorem rouse_of_ne_caller {p : Party} (hp : ∀ t, p ≠ .caller t) :
    net.rouse p = { net with awake := if p ∈ net.awake then net.awake else net.awake ++ [p] } := by
  cases p with
  | caller t => exact absurd rfl (hp t)
  | carrier | server _ =>
      simp only [rouse]
      split <;> rfl

theorem alert_of_rested {p : Party} (hr : net.resting = []) : net.alert p = net.rouse p := by
  rw [alert, hr, if_neg List.not_mem_nil]

end

theorem act_fresh (net : Network κ σ) (hi : es[i]? = some e) (hst : st i = .fresh) (hline : net.line = .carrying)
    (hheld : net.held = none) (hrest : net.resting = []) (hplaces : 0 < net.places) (ht : 0 < e.timeout)
    (hs : 1 < stamina) :
    (net.assembled es st roused stamina).act (net.issued + i) =
      ({ net with
          queue := net.queue ++ [⟨net.issued + i, e.node, e.text⟩]
          places := net.places - 1
          awake := if .carrier ∈ net.awake then net.awake else net.awake ++ [.carrier] } : Network κ σ).assembled
        es (Function.update st i .sent) roused (stamina - 1) := by
  have hlt : i < es.length := (List.getElem?_eq_some_iff.1 hi).1
  let placed : Network κ σ := { net with places := net.places - 1 }
  let posted : Network κ σ := { placed with queue := net.queue ++ [⟨net.issued + i, e.node, e.text⟩] }
  let alerted : Network κ σ :=
    { posted with awake := if .carrier ∈ net.awake then net.awake else net.awake ++ [.carrier] }
  let caller : Caller := ⟨e.node, e.text, e.timeout, net.now + clockSpan e.timeout, .fresh⟩
  have henter : (net.assembled es st roused stamina).enter (net.issued + i) =
      placed.assembled es (Function.update st i .admitted) roused stamina := by
    rw [enter, if_neg (by simp [assembled, hline]), if_neg (by simp [assembled]; omega)]
    exact move_assembled placed i .admitted
  have hsend : (placed.assembled es (Function.update st i .admitted) roused stamina).send (net.issued + i) caller =
      alerted.assembled es (Function.update st i .sent) roused (stamina - 1) := by
    have hmove : ((posted.assembled es (Function.update st i .admitted) roused stamina).move
        (net.issued + i) .sent).spend =
          posted.assembled es (Function.update st i .sent) roused (stamina - 1) := by
      rw [show net.issued = posted.issued from rfl, move_assembled, Function.update_idem]
      rfl
    have hheld : (posted.assembled es (Function.update st i .sent) roused (stamina - 1)).held.isNone := by
      simp [assembled, posted, placed, hheld]
    have halert : (posted.assembled es (Function.update st i .sent) roused (stamina - 1)).alert .carrier =
        alerted.assembled es (Function.update st i .sent) roused (stamina - 1) := by
      rw [alert_of_rested _ (by exact hrest), rouse_of_ne_caller _ (by simp)]
      rfl
    rw [← halert]
    exact (congrArg (fun n : Network κ σ => if n.held.isNone then n.alert .carrier else n) hmove).trans (if_pos hheld)
  have hproceed : (net.assembled es st roused stamina).proceed (net.issued + i) caller =
      alerted.assembled es (Function.update st i .sent) roused (stamina - 1) := by
    rw [proceed, if_pos rfl, henter, if_neg (by simp [assembled]; omega), standing?_assembled placed hlt,
      Function.update_self]
    exact hsend
  rw [act, caller?_assembled net hi, hst]
  dsimp only
  rw [hproceed, show net.issued = alerted.issued from rfl, standing?_assembled alerted hlt, Function.update_self]
  dsimp only
  have hpos := clockSpan_pos ht
  rw [if_neg (by simp [assembled]; omega), if_neg (by simp [assembled, alerted, posted, placed]; omega),
    if_neg (by simp [assembled]; omega)]

theorem act_answered (net : Network κ σ) {result : Except CallError String} (hi : es[i]? = some e)
    (hst : st i = .answered result) (hs : 0 < stamina) : (net.assembled es st roused stamina).act (net.issued + i) =
      net.assembled es (Function.update st i (.returned result)) roused (stamina - 1) := by
  have hlt : i < es.length := (List.getElem?_eq_some_iff.1 hi).1
  have hproceed : (net.assembled es st roused stamina).proceed (net.issued + i)
      ⟨e.node, e.text, e.timeout, net.now + clockSpan e.timeout, .answered result⟩ =
        net.assembled es (Function.update st i (.returned result)) roused (stamina - 1) := by
    rw [proceed, if_neg Bool.false_ne_true, if_neg (by simp [assembled]; omega), standing?_assembled net hlt, hst]
    dsimp only
    rw [move_assembled]
    rfl
  rw [act, caller?_assembled net hi, hst]
  dsimp only
  rw [hproceed, standing?_assembled net hlt, Function.update_self]

theorem foldl_range' {β : Type} {g : β → Nat → β} {state : Nat → β} {start n : Nat}
    (hg : ∀ i < n, g (state i) (start + i) = state (i + 1)) : (List.range' start n).foldl g (state 0) = state n := by
  induction n with
  | zero => rfl
  | succ n ih =>
      rw [List.range'_concat, List.foldl_append, ih fun i hi => hg i (Nat.lt_succ_of_lt hi), Nat.one_mul]
      exact hg n (Nat.lt_succ_self n)

/-- The first so many callers have come further than the others. -/
def blend (i : Nat) (st st' : Nat → Standing) : Nat → Standing := fun j => if j < i then st' j else st j

theorem blend_self (i : Nat) (st st' : Nat → Standing) : blend i st st' i = st i :=
  if_neg (Nat.lt_irrefl i)

theorem update_blend (i : Nat) (st st' : Nat → Standing) :
    Function.update (blend i st st') i (st' i) = blend (i + 1) st st' := by
  funext j
  by_cases hj : j = i
  · subst j
    simp [blend]
  · rw [Function.update_of_ne hj]
    have hlt : j < i + 1 ↔ j < i := by omega
    simp only [blend, hlt]

theorem assembled_length (net : Network κ σ) (st st' : Nat → Standing) :
    net.assembled es (blend es.length st st') roused stamina = net.assembled es st' roused stamina := by
  have hc : es.mapIdx (fun i e =>
      (⟨e.node, e.text, e.timeout, net.now + clockSpan e.timeout, blend es.length st st' i⟩ : Caller)) =
        es.mapIdx fun i e => ⟨e.node, e.text, e.timeout, net.now + clockSpan e.timeout, st' i⟩ := by
    refine List.ext_getElem (by simp) fun i hi hi' => ?_
    have hlt : i < es.length := by simpa using hi
    simp [blend, hlt]
  rw [assembled, hc]
  rfl

theorem gather_assembled (net : Network κ σ) (hl : es.length ≤ intimate) :
    (net.assembled es st roused stamina).gather =
      (List.range' net.issued es.length).foldl act (net.assembled es st [] stamina) := by
  have hc : (net.assembled es st roused stamina).crowd.callers.length = es.length := by simp [assembled]
  rw [gather, hc, if_pos hl, Crowd.tickets, hc]
  rfl

def parcels (t : Nat) : List Errand → List Package
  | [] => []
  | e :: es => ⟨t, e.node, e.text⟩ :: parcels (t + 1) es

theorem parcels_append (t : Nat) (es es' : List Errand) :
    parcels t (es ++ es') = parcels t es ++ parcels (t + es.length) es' := by
  induction es generalizing t with
  | nil => rfl
  | cons e es ih => simp [parcels, ih, Nat.add_assoc, Nat.add_comm 1]

theorem parcels_take_succ (t : Nat) (hi : es[i]? = some e) :
    parcels t (es.take (i + 1)) = parcels t (es.take i) ++ [⟨t + i, e.node, e.text⟩] := by
  obtain ⟨hlt, rfl⟩ := List.getElem?_eq_some_iff.1 hi
  rw [← List.take_append_getElem hlt, parcels_append, List.length_take_of_le (Nat.le_of_lt hlt)]
  rfl

theorem gather_fresh (hs : net.Still) (hne : es ≠ []) (hl : es.length ≤ intimate) (hp : es.length ≤ net.places)
    (hstamina : es.length < stamina) (ht : ∀ e ∈ es, 0 < e.timeout) :
    (net.assembled es (fun _ => .fresh) roused stamina).gather =
      ({ net with queue := parcels net.issued es, places := net.places - es.length, awake := [.carrier] } :
        Network κ σ).assembled es (fun _ => .sent) [] (stamina - es.length) := by
  let posted (i : Nat) : Network κ σ :=
    { net with
      queue := parcels net.issued (es.take i)
      places := net.places - i
      awake := if i = 0 then [] else [.carrier] }
  let state (i : Nat) := (posted i).assembled es (blend i (fun _ => .fresh) fun _ => .sent) [] (stamina - i)
  have hstep (i : Nat) (hi : i < es.length) : (state i).act (net.issued + i) = state (i + 1) := by
    have he := List.getElem?_eq_getElem hi
    have hfresh : blend i (fun _ => .fresh) (fun _ => .sent) i = Standing.fresh := blend_self ..
    have hplaces : 0 < (posted i).places := Nat.sub_pos_of_lt (Nat.lt_of_lt_of_le hi hp)
    have hposted : { posted i with
        queue := (posted i).queue ++ [⟨net.issued + i, es[i].node, es[i].text⟩]
        places := (posted i).places - 1
        awake := if .carrier ∈ (posted i).awake then (posted i).awake else (posted i).awake ++ [.carrier] } =
          posted (i + 1) := by
      simp only [posted, parcels_take_succ net.issued he, Nat.sub_sub]
      by_cases hi : i = 0 <;> simp [hi]
    refine (act_fresh (posted i) he hfresh hs.line hs.held hs.resting hplaces (ht _ (List.getElem_mem hi))
      (show 1 < stamina - i by omega)).trans ?_
    rw [update_blend i (fun _ => .fresh) fun _ => .sent]
    exact congrArg (assembled es _ [] _) hposted
  have hfirst : net.assembled es (fun _ => .fresh) [] stamina = state 0 := by
    have hposted : net = posted 0 := by
      simp only [posted, List.take_zero, parcels, Nat.sub_zero, if_true]
      rw [← hs.queue, ← hs.awake]
    exact congrArg (assembled es _ [] _) hposted
  have hlast : state es.length = ({ net with
      queue := parcels net.issued es
      places := net.places - es.length
      awake := [.carrier] } : Network κ σ).assembled es (fun _ => .sent) [] (stamina - es.length) := by
    have hpos : es.length ≠ 0 := fun h0 => hne (List.eq_nil_of_length_eq_zero h0)
    simp only [state, posted, List.take_length, if_neg hpos]
    exact assembled_length ..
  rw [gather_assembled net hl, hfirst, foldl_range' hstep, hlast]

theorem awaited_assembled (hi : i < es.length) (hst : st i = .sent) :
    (base.assembled es st roused stamina).awaited (base.issued + i) := by
  rw [awaited, standing?_assembled base hi, hst]
  rfl

theorem report_assembled (base : Network κ σ) (roused : List Nat) (stamina : Nat) (result : Except CallError String)
    (hi : i < es.length) (hst : st i = .sent) (hrest : base.resting = []) :
    ∃ roused' ≠ [], (base.assembled es st roused stamina).report (base.issued + i) result =
      base.assembled es (Function.update st i (.answered result)) roused' stamina := by
  refine ⟨if base.issued + i ∈ roused then roused else roused ++ [base.issued + i], ?_, ?_⟩
  · split
    · exact List.ne_nil_of_mem ‹_›
    · simp
  · rw [report, if_pos (awaited_assembled hi hst), move_assembled, alert_of_rested _ (by exact hrest),
      rouse_caller_assembled]

def answered (net : Network κ σ) (f : Errand → StateM σ String) (es : List Errand) (i : Nat) : Standing :=
  .answered ((heed net.reaches f es net.services).1[i]?.getD (.error .networkDown))

theorem answered_of_some (hi : es[i]? = some e) : net.answered f es i = .answered
    (if net.reaches e.node then .ok (f e (heed net.reaches f (es.take i) net.services).2).1
      else .error (.unreceived e.node)) := by
  rw [answered, getElem?_heed, hi]
  rfl

theorem gather_results (base : Network κ σ) (result : Nat → Except CallError String) (hl : es.length ≤ intimate)
    (hstamina : es.length ≤ stamina) : (base.assembled es (fun i => .answered (result i)) roused stamina).gather =
      base.assembled es (fun i => .returned (result i)) [] (stamina - es.length) := by
  let answered (i : Nat) : Standing := .answered (result i)
  let returned (i : Nat) : Standing := .returned (result i)
  let state (i : Nat) := base.assembled es (blend i answered returned) [] (stamina - i)
  have hstep (i : Nat) (hi : i < es.length) : (state i).act (base.issued + i) = state (i + 1) := by
    have he := List.getElem?_eq_getElem hi
    refine (act_answered base he (blend_self ..) (by omega)).trans ?_
    exact congrArg (fun st => base.assembled es st [] (stamina - i - 1)) (update_blend i _ returned)
  have hfirst : base.assembled es answered [] stamina = state 0 := rfl
  have hlast : state es.length = base.assembled es returned [] (stamina - es.length) := assembled_length base _ _
  rw [gather_assembled base hl, hfirst, foldl_range' hstep, hlast]

theorem results?_of_returned {c : Crowd} {returns : Returns}
    (hc : c.callers.map (·.standing) = returns.map .returned) : c.results? = some returns := by
  rw [Crowd.results?]
  generalize c.callers = callers at hc
  induction callers generalizing returns with
  | nil =>
      obtain rfl := List.map_eq_nil_iff.1 hc.symm
      rfl
  | cons caller callers ih =>
      obtain ⟨result, returns, rfl, hcaller, hcallers⟩ := List.map_eq_cons_iff.1 hc.symm
      have hstanding : caller.standing = .returned result := hcaller.symm
      rw [List.mapM_cons, hstanding, ih hcallers.symm]
      rfl

theorem results?_returned (base : Network κ σ) {returns : Returns} (hr : returns.length = es.length) :
    (base.assembled es (fun i => .returned (returns[i]?.getD (.error .networkDown))) roused stamina).crowd.results? =
      some returns := by
  refine results?_of_returned (List.ext_getElem (by simp [assembled, hr]) fun i hi hi' => ?_)
  have hlt : i < returns.length := by simpa using hi'
  simp [assembled, hlt]

theorem results?_sent (base : Network κ σ) (hne : es ≠ []) :
    (base.assembled es (fun _ => .sent) roused stamina).crowd.results? = none := by
  cases es with
  | nil => exact absurd rfl hne
  | cons e es => simp [Crowd.results?, assembled, List.mapIdx_cons, List.mapM_cons]

end SynodStore.Network

import SynodStore.Proofs.Callers

namespace SynodStore.Network

variable {κ σ : Type} {net base : Network κ σ} {es : List Errand} {e : Errand} {st : Nat → Standing}
variable {roused : List Nat} {stamina i : Nat} {p : Package} {queue ps : List Package} {name : String} {n : Node κ}

theorem shed_of_free (hh : net.held = none) : net.shed = net := by
  rw [shed, hh]

theorem carry_free (hh : net.held = none) (hq : net.queue = p :: queue) (k : Nat) :
    carry (k + 1) net = carry k (net.collect p queue) := by
  rw [carry.eq_def (k + 1)]
  simp only [shed_of_free hh, hh, hq]

theorem carry_done (hh : net.held = none) (hq : net.queue = []) (k : Nat) : carry (k + 1) net = net := by
  unfold carry
  simp only [shed_of_free hh, hh, hq]

theorem carry_laden (hh : net.held = some (p, n.built)) (hn : net.nodes[p.node]? = some n) (ha : n.alive = true)
    (hm : n.mailbox.length < capacity) (k : Nat) : carry (k + 1) net = carry k (net.deposit p) := by
  have hshed : net.shed = net := by
    simp [shed, hh, hn, ha]
  have hfull : net.full p.node = false := by
    simp [full, hn, hm]
  rw [carry.eq_def (k + 1)]
  simp only [hshed, hh, hfull, Bool.false_eq_true, if_false]

theorem route?_eq_some : net.route? name = some n ↔
    ¬ (net.dropping = true ∨ name ∈ net.unreachable) ∧ net.nodes[name]?.filter (·.listed) = some n := by
  rw [route?]
  split <;> simp [*]

theorem getElem?_of_route? (hr : net.route? name = some n) : net.nodes[name]? = some n :=
  (Option.filter_eq_some_iff.1 (route?_eq_some.1 hr).2).1

theorem vacate_of_none_waiting (hw : net.waiting = []) : net.vacate = { net with places := net.places + 1 } := by
  rw [vacate, hw]

theorem deposit_of_listening (hn : net.nodes[p.node]? = some n) (hw : n.work = .listening) :
    net.deposit p = ({ net with
      held := none
      nodes := net.nodes.modify p.node fun n => { n with mailbox := n.mailbox ++ [p] } } : Network κ σ).alert
        (.server p.node) := by
  simp [deposit, hn, hw]

theorem carry_lost (base : Network κ σ) (roused : List Nat) (stamina : Nat) (hi : es[i]? = some e) (hst : st i = .sent)
    (hheld : base.held = none) (hwait : base.waiting = []) (hrest : base.resting = [])
    (hq : base.queue = ⟨base.issued + i, e.node, e.text⟩ :: queue) (hr : base.route? e.node = none) :
    ∃ roused' ≠ [], ∀ k, carry (k + 1) (base.assembled es st roused stamina) =
      carry k (({ base with queue := queue, places := base.places + 1 } : Network κ σ).assembled es
        (Function.update st i (.answered (.error (.unreceived e.node)))) roused' stamina) := by
  have hlt : i < es.length := (List.getElem?_eq_some_iff.1 hi).1
  let rest : Network κ σ := { base with queue := queue, places := base.places + 1 }
  obtain ⟨roused', hne, hreport⟩ :=
    report_assembled rest roused stamina (.error (.unreceived e.node)) hlt hst hrest
  have hcollect : (base.assembled es st roused stamina).collect ⟨base.issued + i, e.node, e.text⟩ queue =
      rest.assembled es (Function.update st i (.answered (.error (.unreceived e.node)))) roused' stamina := by
    have hroute : (rest.assembled es st roused stamina).route? e.node = none := hr
    have hvacate : ({ base.assembled es st roused stamina with queue := queue } : Network κ σ).vacate =
        rest.assembled es st roused stamina := vacate_of_none_waiting hwait
    simp only [collect, hvacate, hroute]
    exact hreport
  refine ⟨roused', hne, fun k => ?_⟩
  rw [carry_free (by exact hheld) (by exact hq), hcollect]

theorem carry_delivered (base : Network κ σ) (es : List Errand) (st : Nat → Standing) (roused : List Nat)
    (stamina : Nat) (n : Node κ) (hheld : base.held = none) (hwait : base.waiting = []) (hrest : base.resting = [])
    (hq : base.queue = p :: queue) (hr : base.route? p.node = some n) (ha : n.alive = true) (hw : n.work = .listening)
    (hm : n.mailbox.length < capacity) (k : Nat) :
    carry (k + 2) (base.assembled es st roused stamina) =
      carry k (({ base with
        queue := queue
        places := base.places + 1
        awake := if .server p.node ∈ base.awake then base.awake else base.awake ++ [.server p.node]
        nodes := base.nodes.modify p.node fun n => { n with mailbox := n.mailbox ++ [p] } } :
          Network κ σ).assembled es st roused stamina) := by
  let vacated : Network κ σ := { base with queue := queue, places := base.places + 1 }
  let taken : Network κ σ := { vacated with held := some (p, n.built) }
  let placed : Network κ σ :=
    { vacated with nodes := base.nodes.modify p.node fun n => { n with mailbox := n.mailbox ++ [p] } }
  have hn : base.nodes[p.node]? = some n := getElem?_of_route? hr
  have hcollect : (base.assembled es st roused stamina).collect p queue = taken.assembled es st roused stamina := by
    have hvacate : ({ base.assembled es st roused stamina with queue := queue } : Network κ σ).vacate =
        vacated.assembled es st roused stamina := vacate_of_none_waiting hwait
    have hroute : (vacated.assembled es st roused stamina).route? p.node = some n := hr
    simp only [collect, hvacate, hroute]
    rfl
  have hdeposit : (taken.assembled es st roused stamina).deposit p =
      (placed.assembled es st roused stamina).alert (.server p.node) := by
    have hplaced : ({ taken with held := none, nodes := placed.nodes } : Network κ σ) = placed := by
      simp only [placed, taken, vacated, hheld]
    rw [← hplaced]
    exact deposit_of_listening hn hw
  rw [carry_free (by exact hheld) (by exact hq), hcollect, carry_laden rfl (by exact hn) ha hm, hdeposit,
    alert_of_rested _ (by exact hrest), rouse_of_ne_caller _ (by simp)]
  rfl

def sorted (net : Network κ σ) (ps : List Package) : Std.ExtTreeMap String (Node κ) :=
  net.nodes.map fun name n => { n with mailbox := ps.filter (·.node = name) }

theorem getElem?_sorted : (net.sorted ps)[name]? =
    net.nodes[name]?.map fun n => { n with mailbox := ps.filter (·.node = name) } :=
  Std.ExtTreeMap.getElem?_map

theorem route?_sorted {net' : Network κ σ} (hn : net'.nodes = net.sorted ps) (hd : net'.dropping = net.dropping)
    (hu : net'.unreachable = net.unreachable) : net'.route? name =
      (net.route? name).map fun n => { n with mailbox := ps.filter (·.node = name) } := by
  rw [route?, route?, hn, hd, hu, getElem?_sorted]
  split
  · rfl
  · cases net.nodes[name]? with
    | none => rfl
    | some n => cases hl : n.listed <;> simp [Option.filter_some, hl]

theorem sorted_nil (hs : net.Still) : net.sorted [] = net.nodes := by
  refine Std.ExtTreeMap.ext_getElem? fun name => ?_
  rw [getElem?_sorted]
  cases hn : net.nodes[name]? with
  | none => rfl
  | some n =>
      obtain ⟨hm, -⟩ := hs.nodes name n hn
      obtain ⟨host, listed, alive, built, mailbox, work⟩ := n
      cases hm
      rfl

theorem modify_sorted_append : ((net.sorted ps).modify p.node fun n => { n with mailbox := n.mailbox ++ [p] }) =
    net.sorted (ps ++ [p]) := by
  refine Std.ExtTreeMap.ext_getElem? fun name => ?_
  simp only [Std.ExtTreeMap.getElem?_modify, getElem?_sorted]
  by_cases hp : p.node = name
  · subst hp
    cases net.nodes[p.node]? <;> simp
  · simp [hp]

theorem modify_sorted_cons (hp : ∀ q ∈ ps, q.node ≠ p.node) :
    ((net.sorted (p :: ps)).modify p.node fun n => { n with mailbox := [] }) = net.sorted ps := by
  refine Std.ExtTreeMap.ext_getElem? fun name => ?_
  simp only [Std.ExtTreeMap.getElem?_modify, getElem?_sorted]
  by_cases hn : p.node = name
  · subst hn
    have hps : ps.filter (·.node = p.node) = [] := by simpa using hp
    cases net.nodes[p.node]? <;> simp [hps]
  · simp [hn]

theorem map_node_parcels (t : Nat) (es : List Errand) : (parcels t es).map (·.node) = es.map (·.node) := by
  induction es generalizing t with
  | nil => rfl
  | cons e es ih => simp [parcels, ih]

theorem length_parcels (t : Nat) (es : List Errand) : (parcels t es).length = es.length := by
  simpa using congrArg List.length (map_node_parcels t es)

theorem parcels_drop (t : Nat) (hi : es[i]? = some e) :
    parcels t (es.drop i) = ⟨t, e.node, e.text⟩ :: parcels (t + 1) (es.drop (i + 1)) := by
  obtain ⟨hlt, rfl⟩ := List.getElem?_eq_some_iff.1 hi
  rw [List.drop_eq_getElem_cons hlt]
  rfl

theorem ne_of_mem_take (hn : (es.map (·.node)).Nodup) (hi : es[i]? = some e) {t : Nat} {p : Package}
    (hp : p ∈ parcels t (es.take i)) : p.node ≠ e.node := by
  obtain ⟨hlt, rfl⟩ := List.getElem?_eq_some_iff.1 hi
  rw [← List.take_append_drop i es, List.drop_eq_getElem_cons hlt, List.map_append, List.nodup_append] at hn
  have hmem : p.node ∈ (es.take i).map (·.node) := map_node_parcels t (es.take i) ▸ List.mem_map_of_mem hp
  exact hn.2.2 _ hmem _ List.mem_cons_self

theorem ne_of_mem_drop (hn : (es.map (·.node)).Nodup) (hi : es[i]? = some e) {t : Nat} {p : Package}
    (hp : p ∈ parcels t (es.drop (i + 1))) : p.node ≠ e.node := by
  obtain ⟨hlt, rfl⟩ := List.getElem?_eq_some_iff.1 hi
  have hdrop : ((es.drop i).map (·.node)).Nodup := (List.map_drop ▸ List.drop_sublist i _).nodup hn
  rw [List.drop_eq_getElem_cons hlt, List.map_cons, List.nodup_cons] at hdrop
  have hmem : p.node ∈ (es.drop (i + 1)).map (·.node) := map_node_parcels t (es.drop (i + 1)) ▸ List.mem_map_of_mem hp
  exact fun he => hdrop.1 (he ▸ hmem)

def Heard (es : List Errand) (st : Nat → Standing) (roused : List Nat) : Prop :=
  ∀ i < es.length, ∀ result, st i = .answered result → roused ≠ []

def settled (net : Network κ σ) (es : List Errand) (i : Nat) : Standing :=
  match es[i]? with
  | none => .sent
  | some e => if net.reaches e.node then .sent else .answered (.error (.unreceived e.node))

def inbound (net : Network κ σ) (ps : List Package) : List Package :=
  ps.filter (net.reaches ·.node)

theorem inbound_append (ps qs : List Package) : net.inbound (ps ++ qs) = net.inbound ps ++ net.inbound qs :=
  List.filter_append ..

/-- The carrier has been busy with some of the packages, and the others are on the line. -/
def halfway (net : Network κ σ) (ps qs : List Package) : Network κ σ :=
  { net with
    queue := qs
    places := net.places - qs.length
    awake := (net.inbound ps).map (.server ·.node)
    nodes := net.sorted (net.inbound ps) }

theorem carry_step (stamina : Nat) (hs : net.Still)
    (halive : ∀ e ∈ es, ∀ n, net.route? e.node = some n → n.alive = true) (hl : es.length ≤ intimate)
    (hp : es.length ≤ net.places) (hn : (es.map (·.node)).Nodup) (hi : es[i]? = some e)
    (hr : Heard es (blend i (fun _ => .sent) (net.settled es)) roused) :
    ∃ roused', ∃ turns ≤ 2, Heard es (blend (i + 1) (fun _ => .sent) (net.settled es)) roused' ∧
      ∀ k, carry (k + turns)
        ((net.halfway (parcels net.issued (es.take i)) (parcels (net.issued + i) (es.drop i))).assembled es
          (blend i (fun _ => .sent) (net.settled es)) roused stamina) =
          carry k ((net.halfway (parcels net.issued (es.take (i + 1)))
            (parcels (net.issued + (i + 1)) (es.drop (i + 1)))).assembled es
              (blend (i + 1) (fun _ => .sent) (net.settled es)) roused' stamina) := by
  have hlt : i < es.length := (List.getElem?_eq_some_iff.1 hi).1
  let st := blend i (fun _ => .sent) (net.settled es)
  let base := net.halfway (parcels net.issued (es.take i)) (parcels (net.issued + i) (es.drop i))
  let base' := net.halfway (parcels net.issued (es.take (i + 1))) (parcels (net.issued + (i + 1)) (es.drop (i + 1)))
  have hst : st i = .sent := blend_self ..
  have hnext : Function.update st i (net.settled es i) = blend (i + 1) (fun _ => .sent) (net.settled es) :=
    update_blend ..
  have hqueue : base.queue = ⟨base.issued + i, e.node, e.text⟩ :: base'.queue := parcels_drop _ hi
  have hplaces : base.places + 1 = base'.places := by
    simp only [base, base', halfway, length_parcels, List.length_drop]
    omega
  have hroute : base.route? e.node = (net.route? e.node).map fun n =>
      { n with mailbox := (net.inbound (parcels net.issued (es.take i))).filter (·.node = e.node) } :=
    route?_sorted rfl rfl rfl
  cases hrt : net.route? e.node with
  | none =>
      have hreach : net.reaches e.node = false := by rw [reaches, hrt]; rfl
      have hlost : net.settled es i = .answered (.error (.unreceived e.node)) := by simp [settled, hi, hreach]
      have hbase : ({ base with queue := base'.queue, places := base.places + 1 } : Network κ σ) = base' := by
        rw [hplaces]
        simp [base, base', halfway, parcels_take_succ _ hi, inbound, hreach]
      obtain ⟨roused', hne, hcarry⟩ := carry_lost base roused stamina hi hst hs.held hs.waiting hs.resting hqueue
        (by rw [hroute, hrt]; rfl)
      refine ⟨roused', 1, by decide, fun _ _ _ _ => hne, fun k => (hcarry k).trans ?_⟩
      rw [hbase, ← hlost, hnext]
  | some n =>
      have hreach : net.reaches e.node = true := by rw [reaches, hrt]; rfl
      have hsent : net.settled es i = .sent := by simp [settled, hi, hreach]
      have hsame : st = blend (i + 1) (fun _ => .sent) (net.settled es) := by
        rw [← hnext, hsent, ← hst, Function.update_eq_self]
      have hfree : .server e.node ∉ base.awake := by
        rintro hmem
        obtain ⟨p, hp, hpe⟩ := List.mem_map.1 hmem
        exact ne_of_mem_take hn hi (List.mem_filter.1 hp).1 (Party.server.inj hpe)
      have hbase : ({ base with
          queue := base'.queue
          places := base.places + 1
          awake := if .server e.node ∈ base.awake then base.awake else base.awake ++ [.server e.node]
          nodes := base.nodes.modify e.node fun n =>
            { n with mailbox := n.mailbox ++ [⟨base.issued + i, e.node, e.text⟩] } } : Network κ σ) = base' := by
        have hin : net.inbound [⟨net.issued + i, e.node, e.text⟩] = [⟨net.issued + i, e.node, e.text⟩] := by
          simp [inbound, hreach]
        rw [if_neg hfree, hplaces]
        simp only [base, base', halfway, parcels_take_succ _ hi, inbound_append, hin, List.map_append, List.map_cons,
          List.map_nil, ← modify_sorted_append]
      have hnode := getElem?_of_route? hrt
      have hroom : ((net.inbound (parcels net.issued (es.take i))).filter (·.node = e.node)).length < capacity := by
        have h1 := List.length_filter_le (·.node = e.node) (net.inbound (parcels net.issued (es.take i)))
        have h2 := List.length_filter_le (net.reaches ·.node) (parcels net.issued (es.take i))
        rw [length_parcels, List.length_take] at h2
        simp only [inbound, intimate, capacity] at h1 h2 hl ⊢
        omega
      have hcarry := carry_delivered base es st roused stamina
        { n with mailbox := (net.inbound (parcels net.issued (es.take i))).filter (·.node = e.node) }
        hs.held hs.waiting hs.resting hqueue (by rw [hroute, hrt]; rfl)
        (halive e (List.mem_of_getElem? hi) n hrt) (hs.nodes e.node n hnode).2 hroom
      refine ⟨roused, 2, Nat.le_refl 2, hsame ▸ hr, fun k => (hcarry k).trans ?_⟩
      rw [hbase, hsame]

theorem carry_halfway (hs : net.Still) (halive : ∀ e ∈ es, ∀ n, net.route? e.node = some n → n.alive = true)
    (hl : es.length ≤ intimate) (hp : es.length ≤ net.places) (hn : (es.map (·.node)).Nodup) {k m : Nat}
    (hm : i + m = es.length) (hk : 2 * m < k) (hr : Heard es (blend i (fun _ => .sent) (net.settled es)) roused) :
    ∃ roused', Heard es (net.settled es) roused' ∧
      carry k ((net.halfway (parcels net.issued (es.take i)) (parcels (net.issued + i) (es.drop i))).assembled es
        (blend i (fun _ => .sent) (net.settled es)) roused stamina) =
          (net.halfway (parcels net.issued es) []).assembled es (net.settled es) roused' stamina := by
  induction m generalizing i k roused with
  | zero =>
      obtain rfl : i = es.length := hm
      refine ⟨roused, fun j hj result hst => hr j hj result ?_, ?_⟩
      · simpa [blend, hj] using hst
      · rw [List.take_length, List.drop_length, assembled_length]
        obtain ⟨k, rfl⟩ := Nat.exists_eq_add_of_lt hk
        exact carry_done (by exact hs.held) (by exact rfl) _
  | succ m ih =>
      have hi := List.getElem?_eq_getElem (show i < es.length by omega)
      obtain ⟨roused₁, turns, hturns, hheard, hstep⟩ := carry_step stamina hs halive hl hp hn hi hr
      obtain ⟨k, rfl⟩ : ∃ k', k = k' + turns := ⟨k - turns, by omega⟩
      obtain ⟨roused', hheard', hrun⟩ := @ih roused₁ (i + 1) k (by omega) (by omega) hheard
      exact ⟨roused', hheard', (hstep k).trans hrun⟩

end SynodStore.Network

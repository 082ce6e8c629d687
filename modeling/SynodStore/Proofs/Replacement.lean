import SynodStore.Proofs.Turns

namespace SynodStore.Network

variable {κ σ : Type} {h : Hosting κ σ} {net : Network κ σ} {e : Errand} {n : Node κ} {served : Served}
variable {response : String} {s : σ}

/-- What a server makes of a request, and what it leaves of the services, whoever else has called. -/
def Meets (h : Hosting κ σ) (net : Network κ σ) (host : κ) (text : String) (served : Served) (s : σ) : Prop :=
  ∀ issued crowd, employ h (vigor - 1) host text { net with issued := issued, crowd := crowd } =
    (served, { net with issued := issued, crowd := crowd, services := s })

/-- A way of making single calls, on networks that are fit for it. A server that cannot read its request is replaced
before the next call. -/
structure Delivers (h : Hosting κ σ) (fit : Network κ σ → Prop)
    (call : Errand → Network κ σ → Except CallError String × Network κ σ) : Prop where
  answer : ∀ (net : Network κ σ) e n response s, fit net → net.Still → net.route? e.node = some n → n.alive = true →
    0 < e.timeout → Meets h net n.host e.text (.response response none) s → ∃ issued crowd,
      let after := { net with services := s, issued := issued, crowd := crowd }
      call e net = (.ok response, after) ∧ fit after
  failure : ∀ (net : Network κ σ) e n s, fit net → net.Still → net.route? e.node = some n → n.alive = true →
    0 < e.timeout → Meets h net n.host e.text .unreadable s → ∃ issued crowd,
      let after := { ({ net with services := s } : Network κ σ).renew h e.node n with issued := issued, crowd := crowd }
      call e net = (.error (.unreceived e.node), after) ∧ fit after

theorem route?_insert_of_ne {name name' : String} (hne : name' ≠ name) (m : Node κ) (s : σ) :
    Network.route? { net with nodes := net.nodes.insert name m, services := s } name' = net.route? name' := by
  have hnode : (net.nodes.insert name m)[name']? = net.nodes[name']? := by
    simp [Std.ExtTreeMap.getElem?_insert, Ne.symm hne]
  rw [route?, route?, hnode]

theorem route?_renew_self (hs : net.Still) {name : String} (hr : net.route? name = some n) (ha : n.alive = true) :
    (net.renew h name n).route? name = some { n with built := n.built + 1 } := by
  obtain ⟨hopen, hnode⟩ := route?_eq_some.1 hr
  have hlisted : n.listed = true := (Option.filter_eq_some_iff.1 hnode).2
  obtain ⟨hmailbox, hwork⟩ := hs.nodes name n (getElem?_of_route? hr)
  refine route?_eq_some.2 ⟨hopen, ?_⟩
  rw [renew, Std.ExtTreeMap.getElem?_insert_self, Option.filter_some, if_pos rfl, hlisted, ha, hmailbox, hwork]

theorem swiftly?_one (hs : net.Still) (hr : net.route? e.node = some n) (ha : n.alive = true) (ht : 0 < e.timeout) :
    swiftly? h [e] net =
      match employ h (vigor - 1) n.host e.text net with
      | (.response text none, net') => some ([.ok text], net'.setStamina (leftover net.crowd.stamina 1))
      | (.unreadable, net') =>
        some ([.error (.unreceived e.node)], (net'.renew h e.node n).setStamina (leftover net.crowd.stamina 1))
      | _ => none := by
  have hcond : net.quiet && [e].length ≤ intimate && [e].all (0 < ·.timeout) := by
    simp [quiet_iff.2 hs, intimate, ht]
  have hfilter : (net.route? e.node).filter (·.alive) = some n := by
    rw [hr, Option.filter_some, if_pos ha]
  rw [swiftly?, if_pos hcond, oneByOne?, hfilter]
  dsimp only
  generalize employ h (vigor - 1) n.host e.text net = p
  obtain ⟨served, net'⟩ := p
  cases served with
  | collapse => rfl
  | unreadable => rfl
  | response text pause => cases pause <;> rfl

theorem delivers_call (h : Hosting κ σ) : Delivers h (fun _ => True) (call h) where
  answer net e n response s _ hs hr ha ht hm := by
    refine ⟨net.issued, { net.crowd with stamina := leftover net.crowd.stamina 1 }, ?_, trivial⟩
    have hswift := swiftly?_one (h := h) hs hr ha ht
    rw [show net = { net with issued := net.issued, crowd := net.crowd } from rfl, hm net.issued net.crowd] at hswift
    rw [call, burst, hswift]
    rfl
  failure net e n s _ hs hr ha ht hm := by
    refine ⟨net.issued, { net.crowd with stamina := leftover net.crowd.stamina 1 }, ?_, trivial⟩
    have hswift := swiftly?_one (h := h) hs hr ha ht
    rw [show net = { net with issued := net.issued, crowd := net.crowd } from rfl, hm net.issued net.crowd] at hswift
    rw [call, burst, hswift]
    rfl

def callByTurns (h : Hosting κ σ) (e : Errand) (net : Network κ σ) : Except CallError String × Network κ σ :=
  let p := byTurns h [e] net
  (p.1.headD (.error (.unreceived e.node)), p.2)

def handed (net : Network κ σ) (e : Errand) : Network κ σ :=
  let p : Package := ⟨net.issued, e.node, e.text⟩
  { net with nodes := net.nodes.modify e.node fun n => { n with mailbox := n.mailbox ++ [p] } }

theorem carry_one (hs : net.Still) (hr : net.route? e.node = some n) (ha : n.alive = true) (hp : 0 < net.places)
    (stamina k : Nat) :
    carry (k + 3) (({ net with queue := parcels net.issued [e], places := net.places - 1 } : Network κ σ).assembled [e]
        (fun _ => .sent) [] stamina) =
      ({ net.handed e with awake := [.server e.node] } : Network κ σ).assembled [e] (fun _ => .sent) [] stamina := by
  let p : Package := ⟨net.issued, e.node, e.text⟩
  let posted : Network κ σ := { net with queue := [p], places := net.places - 1 }
  obtain ⟨hmailbox, hwork⟩ := hs.nodes e.node n (getElem?_of_route? hr)
  have hdelivered : ({ posted with
      queue := []
      places := posted.places + 1
      awake := if .server p.node ∈ posted.awake then posted.awake else posted.awake ++ [.server p.node]
      nodes := posted.nodes.modify p.node fun n => { n with mailbox := n.mailbox ++ [p] } } : Network κ σ) =
        { net.handed e with awake := [.server e.node] } := by
    have hplaces : net.places - 1 + 1 = net.places := Nat.sub_add_cancel hp
    simp only [posted, p, handed, hs.awake, hs.queue, hplaces, List.not_mem_nil, if_false, List.nil_append]
  have hcarry := carry_delivered (p := p) posted [e] (fun _ => .sent) [] stamina n hs.held hs.waiting hs.resting rfl hr
    ha hwork (by rw [hmailbox]; decide) (k + 1)
  rw [hdelivered] at hcarry
  exact hcarry.trans (carry_done (by exact hs.held) (by exact hs.queue) k)

theorem byTurns_of_attend {done : Network κ σ} {result : Except CallError String} (hs : net.Still)
    (hr : net.route? e.node = some n) (ha : n.alive = true) (ht : 0 < e.timeout) (hp : 0 < net.places)
    (hstamina : 1 < net.crowd.stamina) (hawake : done.awake = []) (hrest : done.resting = [])
    (hattend : ∃ roused ≠ [], attend h e.node vigor ((net.handed e).assembled [e] (fun _ => .sent) []
        (net.crowd.stamina - 1)) =
      done.assembled [e] (fun _ => .answered result) roused (net.crowd.stamina - 1)) :
    byTurns h [e] net = ([result], { done with
      issued := done.issued + 1
      crowd := ⟨done.issued + 1, [], [], vigor - 1⟩ }) := by
  let left := net.crowd.stamina - 1
  let posted : Network κ σ :=
    { net with queue := parcels net.issued [e], places := net.places - 1, awake := [.carrier] }
  let brought : Network κ σ := { net.handed e with awake := [.server e.node] }
  obtain ⟨roused, hroused, hattend⟩ := hattend
  refine byTurns_of_work hs (List.cons_ne_nil e []) (by simp [intimate]) hp hstamina (by simpa using ht) rfl hrest
    fun k hk => ⟨roused, hroused, ?_⟩
  obtain ⟨k, rfl⟩ : ∃ k', k = k' + 2 := ⟨k - 2, (Nat.sub_add_cancel hk).symm⟩
  have hcarrier : work h (k + 2) (posted.assembled [e] (fun _ => .sent) [] left) =
      work h (k + 1) (brought.assembled [e] (fun _ => .sent) [] left) := by
    have hcarry := @carry_one _ _ net e n hs hr ha hp left 125
    have hasleep : ({ posted with awake := [] } : Network κ σ) =
        { net with queue := parcels net.issued [e], places := net.places - 1 } := by
      simp only [posted, hs.awake]
    rw [← hasleep] at hcarry
    exact (@work_carrier _ _ h (posted.assembled [e] (fun _ => .sent) [] left) rfl hs.line _).trans
      (congrArg (work h (k + 1)) hcarry)
  have hserver : work h (k + 1) (brought.assembled [e] (fun _ => .sent) [] left) =
      work h k (done.assembled [e] (fun _ => .answered result) roused left) := by
    have hasleep : ({ net.handed e with awake := [] } : Network κ σ) = net.handed e := by
      rw [← show (net.handed e).awake = [] from hs.awake]
    rw [← hasleep] at hattend
    exact (@work_server _ _ h (brought.assembled [e] (fun _ => .sent) [] left) e.node [] rfl k).trans
      (congrArg (work h k) hattend)
  exact hcarrier.trans (hserver.trans (work_of_all_asleep (by exact hawake) k))

theorem modify_mailbox (hs : net.Still) (name : String) :
    (net.nodes.modify name fun n => { n with mailbox := [] }) = net.nodes := by
  refine Std.ExtTreeMap.ext_getElem? fun key => ?_
  by_cases hne : name = key
  · subst hne
    cases hn : net.nodes[name]? with
    | none => simp [hn]
    | some n => simp [hn, ← (hs.nodes name n hn).1]
  · simp [Std.ExtTreeMap.getElem?_modify, hne]

theorem empty_handed (hs : net.Still) :
    ({ net.handed e with
      nodes := (net.handed e).nodes.modify e.node fun n => { n with mailbox := [] } } : Network κ σ) = net := by
  have hnodes : ((net.handed e).nodes.modify e.node fun n => { n with mailbox := [] }) = net.nodes := by
    rw [← modify_mailbox hs e.node]
    refine Std.ExtTreeMap.ext_getElem? fun name => ?_
    by_cases hne : e.node = name
    · subst hne
      simp [handed, Function.comp_def]
    · simp [handed, Std.ExtTreeMap.getElem?_modify, hne]
  rw [hnodes, handed]

theorem employ_assembled (hm : Meets h net n.host e.text served s) (stamina : Nat) :
    employ h (vigor - 1) n.host e.text (net.assembled [e] (fun _ => .sent) [] stamina) =
      (served, ({ net with services := s } : Network κ σ).assembled [e] (fun _ => .sent) [] stamina) :=
  hm _ _

theorem getElem?_handed (hn : net.nodes[e.node]? = some n) (hs : net.Still) :
    (net.handed e).nodes[e.node]? = some { n with mailbox := [⟨net.issued, e.node, e.text⟩] } := by
  simp [handed, hn, (hs.nodes e.node n hn).1]

theorem attend_answer (hs : net.Still) (hr : net.route? e.node = some n) (ha : n.alive = true)
    (hm : Meets h net n.host e.text (.response response none) s) (stamina : Nat) :
    ∃ roused ≠ [], attend h e.node vigor ((net.handed e).assembled [e] (fun _ => .sent) [] stamina) =
      ({ net with services := s } : Network κ σ).assembled [e] (fun _ => .answered (.ok response)) roused stamina := by
  let emptied : Network κ σ :=
    { net.handed e with nodes := (net.handed e).nodes.modify e.node fun n => { n with mailbox := [] } }
  have hn := getElem?_of_route? hr
  have hempty : emptied = net := empty_handed hs
  have hserve : employ h 127 n.host e.text (emptied.assembled [e] (fun _ => .sent) [] stamina) =
      (.response response none,
        ({ emptied with services := s } : Network κ σ).assembled [e] (fun _ => .sent) [] stamina) := by
    rw [hempty]
    exact employ_assembled hm stamina
  obtain ⟨roused, hne, hattend⟩ := attend_one (i := 0) (net.handed e) [] stamina
    { n with mailbox := [⟨net.issued, e.node, e.text⟩] } rfl rfl hs.held hs.resting (getElem?_handed hn hs) ha
    (hs.nodes e.node n hn).2 rfl hserve
  refine ⟨roused, hne, hattend.trans ?_⟩
  exact congrArg (fun base : Network κ σ => ({ base with services := s } : Network κ σ).assembled [e]
    (fun _ => .answered (.ok response)) roused stamina) hempty

theorem conclude_unreadable (hs : net.Still) (hw : n.mailbox = []) (stamina : Nat) :
    ∃ roused ≠ [], conclude h (net.assembled [e] (fun _ => .sent) [] stamina) ⟨net.issued, e.node, e.text⟩ n
        .unreadable =
      (net.renew h e.node n).assembled [e] (fun _ => .answered (.error (.unreceived e.node))) roused stamina := by
  have hset : (net.assembled [e] (fun _ => .sent) [] stamina).setMailbox e.node [] =
      net.assembled [e] (fun _ => .sent) [] stamina := by
    have hfree : ¬ net.held.any (·.1.node = e.node) := by simp [hs.held]
    exact (if_neg hfree).trans (congrArg (fun nodes => ({ net with nodes := nodes } : Network κ σ).assembled [e]
      (fun _ => .sent) [] stamina) (modify_mailbox hs e.node))
  obtain ⟨roused, hne, hreport⟩ := @report_assembled _ _ [e] (fun _ => .sent) 0 (net.renew h e.node n) [] stamina
    (.error (.unreceived e.node)) (Nat.zero_lt_one) rfl hs.resting
  refine ⟨roused, hne, .trans ?_ hreport⟩
  rw [conclude, hset, hw]
  rfl

theorem attend_failure (hs : net.Still) (hr : net.route? e.node = some n) (ha : n.alive = true)
    (hm : Meets h net n.host e.text .unreadable s) (stamina : Nat) :
    ∃ roused ≠ [], attend h e.node vigor ((net.handed e).assembled [e] (fun _ => .sent) [] stamina) =
      (({ net with services := s } : Network κ σ).renew h e.node n).assembled [e]
        (fun _ => .answered (.error (.unreceived e.node))) roused stamina := by
  let left : Network κ σ := { net with services := s }
  let waiting : Node κ := { n with mailbox := [⟨net.issued, e.node, e.text⟩] }
  have hn := getElem?_of_route? hr
  have hleft : left.Still := hs.after s net.issued net.crowd
  have hset : ((net.handed e).assembled [e] (fun _ => .sent) [] stamina).setMailbox e.node [] =
      net.assembled [e] (fun _ => .sent) [] stamina := by
    have hfree : ¬ (net.handed e).held.any (·.1.node = e.node) := by simp [handed, hs.held]
    exact (if_neg hfree).trans (congrArg (assembled [e] (fun _ => .sent) [] stamina) (empty_handed hs))
  obtain ⟨roused, hne, hconclude⟩ := @conclude_unreadable _ _ h left e { n with mailbox := [] } hleft rfl stamina
  let renewed := (left.renew h e.node n).assembled [e] (fun _ => .answered (.error (.unreceived e.node))) roused stamina
  have hrenewed : renewed.nodes[e.node]? = some ⟨n.host, true, true, n.built + 1, [], .listening⟩ := by
    simp [renewed, assembled, renew]
  have hserve : employ h 127 n.host e.text (net.assembled [e] (fun _ => .sent) [] stamina) =
      (.unreadable, left.assembled [e] (fun _ => .sent) [] stamina) := employ_assembled hm stamina
  have hhear := @attend_hear _ _ h ((net.handed e).assembled [e] (fun _ => .sent) [] stamina) _ [] e.node waiting
    (getElem?_handed hn hs) ha (hs.nodes e.node n hn).2 rfl 127
  rw [hset, hserve, hconclude] at hhear
  exact ⟨roused, hne, hhear.trans (attend_done h renewed _ hrenewed rfl rfl rfl 126)⟩

theorem delivers_byTurns (h : Hosting κ σ) :
    Delivers h (fun net => 0 < net.places ∧ 1 < net.crowd.stamina) (callByTurns h) where
  answer net e n response s hfit hs hr ha ht hm := by
    refine ⟨net.issued + 1, ⟨net.issued + 1, [], [], vigor - 1⟩, ?_, hfit.1, (by decide : 1 < vigor - 1)⟩
    have hattend := attend_answer hs hr ha hm (net.crowd.stamina - 1)
    rw [callByTurns, byTurns_of_attend hs hr ha ht hfit.1 hfit.2 (by exact hs.awake) (by exact hs.resting) hattend]
    rfl
  failure net e n s hfit hs hr ha ht hm := by
    refine ⟨net.issued + 1, ⟨net.issued + 1, [], [], vigor - 1⟩, ?_, hfit.1, (by decide : 1 < vigor - 1)⟩
    have hattend := attend_failure hs hr ha hm (net.crowd.stamina - 1)
    rw [callByTurns, byTurns_of_attend hs hr ha ht hfit.1 hfit.2 (by exact hs.awake) (by exact hs.resting) hattend]
    rfl

end SynodStore.Network

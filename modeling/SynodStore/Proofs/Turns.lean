import SynodStore.Proofs.Carriage

namespace SynodStore.Network

variable {κ σ : Type} {h : Hosting κ σ} {f : Errand → StateM σ String} {net base : Network κ σ}
variable {es : List Errand} {e : Errand} {st : Nat → Standing} {roused : List Nat} {stamina i : Nat}
variable {p : Package} {ps : List Package} {name : String} {n : Node κ}

theorem attend_hear (hn : net.nodes[name]? = some n) (ha : n.alive = true) (hw : n.work = .listening)
    (hm : n.mailbox = p :: ps) (k : Nat) : attend h name (k + 1) net =
      attend h name k (conclude h (employ h k n.host p.text (net.setMailbox name ps)).2 p { n with mailbox := ps }
        (employ h k n.host p.text (net.setMailbox name ps)).1) := by
  rw [attend.eq_def h name (k + 1)]
  simp only [hn, Option.filter_some, ha, if_true, hw, hm]

section

variable (h) (net) (n)

theorem attend_hand {ticket : Nat} {response : String} (hn : net.nodes[name]? = some n) (ha : n.alive = true)
    (hw : n.work = .replying ticket response) (k : Nat) : attend h name (k + 1) net =
      attend h name k ((net.setWork name .listening).report ticket (.ok response)) := by
  rw [attend.eq_def h name (k + 1)]
  simp only [hn, Option.filter_some, ha, if_true, hw]

theorem attend_done (hn : net.nodes[name]? = some n) (ha : n.alive = true) (hw : n.work = .listening)
    (hm : n.mailbox = []) (k : Nat) : attend h name (k + 1) net = net := by
  unfold attend
  simp only [hn, Option.filter_some, ha, if_true, hw, hm]

end

theorem attend_one (base : Network κ σ) (roused : List Nat) (stamina : Nat) (n : Node κ) (hi : es[i]? = some e)
    (hst : st i = .sent) (hheld : base.held = none) (hrest : base.resting = []) (hn : base.nodes[e.node]? = some n)
    (ha : n.alive = true) (hw : n.work = .listening) (hm : n.mailbox = [⟨base.issued + i, e.node, e.text⟩])
    {response : String} {s : σ} {k : Nat}
    (hserve : employ h (k + 2) n.host e.text (({ base with
        nodes := base.nodes.modify e.node fun n => { n with mailbox := [] } } : Network κ σ).assembled es st roused
          stamina) =
      (.response response none, ({ base with
        nodes := base.nodes.modify e.node fun n => { n with mailbox := [] }
        services := s } : Network κ σ).assembled es st roused stamina)) :
    ∃ roused' ≠ [], attend h e.node (k + 3) (base.assembled es st roused stamina) =
      ({ base with
        nodes := base.nodes.modify e.node fun n => { n with mailbox := [] }
        services := s } : Network κ σ).assembled es
          (Function.update st i (.answered (.ok response))) roused' stamina := by
  have hlt : i < es.length := (List.getElem?_eq_some_iff.1 hi).1
  let emptied : Network κ σ := { base with nodes := base.nodes.modify e.node fun n => { n with mailbox := [] } }
  let served : Network κ σ := { emptied with services := s }
  let replying : Network κ σ := { served with
    nodes := emptied.nodes.modify e.node fun n => { n with work := .replying (base.issued + i) response } }
  let listening : Network κ σ := { served with
    nodes := replying.nodes.modify e.node fun n => { n with work := .listening } }
  have hset : (base.assembled es st roused stamina).setMailbox e.node [] = emptied.assembled es st roused stamina := by
    have hfree : ¬ (emptied.assembled es st roused stamina).held.any (·.1.node = e.node) := by
      simp [emptied, assembled, hheld]
    exact if_neg hfree
  have hconclude : (served.assembled es st roused stamina).conclude h ⟨base.issued + i, e.node, e.text⟩
      { n with mailbox := [] } (.response response none) = replying.assembled es st roused stamina := by
    rw [conclude, reply, if_pos (awaited_assembled hlt hst)]
    rfl
  have hreplying : replying.nodes[e.node]? =
      some { n with mailbox := [], work := .replying (base.issued + i) response } := by
    simp [replying, emptied, hn]
  have hlistening : listening.nodes[e.node]? = some { n with mailbox := [], work := .listening } := by
    simp [listening, hreplying]
  have hnodes : listening.nodes = served.nodes := by
    refine Std.ExtTreeMap.ext_getElem? fun name => ?_
    by_cases hne : e.node = name
    · subst hne
      rw [hlistening, show served.nodes[e.node]? = some { n with mailbox := [] } by simp [served, emptied, hn], hw]
    · simp [listening, replying, served, Std.ExtTreeMap.getElem?_modify, hne]
  obtain ⟨roused', hne, hreport⟩ := report_assembled listening roused stamina (.ok response) hlt hst hrest
  refine ⟨roused', hne, ?_⟩
  let st' := Function.update st i (.answered (.ok response))
  have hhand : attend h e.node (k + 2) (replying.assembled es st roused stamina) =
      attend h e.node (k + 1) ((listening.assembled es st roused stamina).report (base.issued + i) (.ok response)) :=
    attend_hand h (replying.assembled es st roused stamina)
      { n with mailbox := [], work := .replying (base.issued + i) response } hreplying ha rfl (k + 1)
  have hdone : attend h e.node (k + 1) (listening.assembled es st' roused' stamina) =
      listening.assembled es st' roused' stamina :=
    attend_done h (listening.assembled es st' roused' stamina) { n with mailbox := [], work := .listening } hlistening
      ha rfl rfl k
  have hback : listening.assembled es st' roused' stamina = served.assembled es st' roused' stamina := by
    rw [← show ({ listening with nodes := served.nodes } : Network κ σ) = served from rfl, ← hnodes]
  rw [attend_hear (by exact hn) ha hw hm, hset, hserve, hconclude, hhand]
  exact (congrArg (attend h e.node (k + 1)) hreport).trans (hdone.trans hback)

def serving (net : Network κ σ) (ps : List Package) (s : σ) : Network κ σ :=
  { net with awake := ps.map (.server ·.node), nodes := net.sorted ps, services := s }

theorem work_of_all_asleep (hawake : net.awake = []) (k : Nat) : work h k net = net := by
  cases k with
  | zero => rfl
  | succ k => rw [work, hawake]

theorem work_server {name : String} {awake : List Party} (hawake : net.awake = .server name :: awake) (k : Nat) :
    work h (k + 1) net = work h k (attend h name vigor { net with awake := awake }) := by
  rw [work, hawake]
  rfl

/-- The servers are done with a package in at most one turn, and nobody turns to one that is lost. -/
theorem work_step (stamina : Nat) (hs : net.Still) (hp : Prompt h f es net) (hn : (es.map (·.node)).Nodup)
    (hi : es[i]? = some e) (hr : Heard es (blend i (net.settled es) (net.answered f es)) roused) :
    ∃ roused', ∃ turns ≤ 1, Heard es (blend (i + 1) (net.settled es) (net.answered f es)) roused' ∧
      ∀ k, work h (k + turns) ((net.serving (net.inbound (parcels (net.issued + i) (es.drop i)))
        (heed net.reaches f (es.take i) net.services).2).assembled es (blend i (net.settled es) (net.answered f es))
          roused stamina) =
        work h k ((net.serving (net.inbound (parcels (net.issued + (i + 1)) (es.drop (i + 1))))
          (heed net.reaches f (es.take (i + 1)) net.services).2).assembled es
            (blend (i + 1) (net.settled es) (net.answered f es)) roused' stamina) := by
  let s := (heed net.reaches f (es.take i) net.services).2
  let rest := net.inbound (parcels (net.issued + (i + 1)) (es.drop (i + 1)))
  have hdrop := parcels_drop (net.issued + i) hi
  cases hreach : net.reaches e.node with
  | false =>
      have hinbound : net.inbound (parcels (net.issued + i) (es.drop i)) = rest := by
        simp [hdrop, inbound, hreach, rest, Nat.add_assoc]
      have hservices : (heed net.reaches f (es.take (i + 1)) net.services).2 = s := by
        rw [services_take_succ hi, hreach]
        rfl
      have hlost : net.answered f es i = net.settled es i := by
        simp [answered_of_some hi, settled, hi, hreach]
      have hsame : blend (i + 1) (net.settled es) (net.answered f es) =
          blend i (net.settled es) (net.answered f es) := by
        rw [← update_blend, hlost, ← blend_self i (net.settled es) (net.answered f es), Function.update_eq_self]
      refine ⟨roused, 0, Nat.zero_le 1, hsame ▸ hr, fun k => ?_⟩
      rw [hinbound, hservices, hsame, Nat.add_zero]
  | true =>
      let p : Package := ⟨net.issued + i, e.node, e.text⟩
      let base : Network κ σ := { net.serving (p :: rest) s with awake := rest.map (.server ·.node) }
      obtain ⟨n, hrt⟩ := Option.isSome_iff_exists.1 hreach
      obtain ⟨halive, hserve⟩ := hp e (List.mem_of_getElem? hi) n hrt
      have hnode := getElem?_of_route? hrt
      have hinbound : net.inbound (parcels (net.issued + i) (es.drop i)) = p :: rest := by
        simp [hdrop, inbound, hreach, p, rest, Nat.add_assoc]
      have hothers : ∀ q ∈ rest, q.node ≠ p.node :=
        fun q hq => ne_of_mem_drop hn hi (List.mem_filter.1 hq).1
      have hmail : base.nodes[e.node]? = some { n with mailbox := [p] } := by
        have hfilter : rest.filter (·.node = e.node) = [] := by simpa using hothers
        simp [base, serving, getElem?_sorted, hnode, p, hfilter]
      have hnext : ({ base with
          nodes := base.nodes.modify e.node fun n => { n with mailbox := [] }
          services := (f e base.services).2 } : Network κ σ) =
            net.serving rest (heed net.reaches f (es.take (i + 1)) net.services).2 := by
        rw [services_take_succ hi, if_pos hreach]
        simp only [base, serving, ← modify_sorted_cons hothers]
        rfl
      have hsent : blend i (net.settled es) (net.answered f es) i = .sent := by
        simp [blend_self, settled, hi, hreach]
      have hanswer : net.answered f es i = .answered (.ok (f e s).1) := by
        rw [answered_of_some hi, if_pos hreach]
      let emptied : Network κ σ := { base with nodes := base.nodes.modify e.node fun n => { n with mailbox := [] } }
      have hemploy : employ h 127 n.host e.text
          (emptied.assembled es (blend i (net.settled es) (net.answered f es)) roused stamina) =
            (.response (f e base.services).1 none, ({ emptied with services := (f e base.services).2 } :
              Network κ σ).assembled es (blend i (net.settled es) (net.answered f es)) roused stamina) := by
        rw [employ, hserve]
        rfl
      obtain ⟨roused', hne, hone⟩ := attend_one base roused stamina { n with mailbox := [p] } hi hsent hs.held
        hs.resting hmail halive (hs.nodes e.node n hnode).2 rfl hemploy
      have hanswered : Function.update (blend i (net.settled es) (net.answered f es)) i
          (.answered (.ok (f e base.services).1)) = blend (i + 1) (net.settled es) (net.answered f es) := by
        rw [show (f e base.services).1 = (f e s).1 from rfl, ← hanswer, update_blend]
      rw [hnext, hanswered] at hone
      refine ⟨roused', 1, Nat.le_refl 1, fun _ _ _ _ => hne, fun k => ?_⟩
      rw [hinbound]
      exact (work_server rfl k).trans (congrArg (work h k) hone)

theorem work_serving (hs : net.Still) (hp : Prompt h f es net) (hn : (es.map (·.node)).Nodup) {k m : Nat}
    (hm : i + m = es.length) (hk : m ≤ k)
    (hr : Heard es (blend i (net.settled es) (net.answered f es)) roused) :
    ∃ roused', Heard es (net.answered f es) roused' ∧
      work h k ((net.serving (net.inbound (parcels (net.issued + i) (es.drop i)))
        (heed net.reaches f (es.take i) net.services).2).assembled es (blend i (net.settled es) (net.answered f es))
          roused stamina) =
        ({ net with services := (heed net.reaches f es net.services).2 } : Network κ σ).assembled es
          (net.answered f es) roused' stamina := by
  induction m generalizing roused i k with
  | zero =>
      obtain rfl : i = es.length := hm
      refine ⟨roused, fun j hj result hst => hr j hj result ?_, ?_⟩
      · simpa [blend, hj] using hst
      · rw [List.take_length, List.drop_length, assembled_length]
        have hsame : net.serving (net.inbound (parcels (net.issued + es.length) []))
            (heed net.reaches f es net.services).2 =
              { net with services := (heed net.reaches f es net.services).2 } := by
          simp only [serving, parcels, inbound, List.filter_nil, List.map_nil, sorted_nil hs, ← hs.awake]
        rw [hsame]
        exact work_of_all_asleep (by exact hs.awake) k
  | succ m ih =>
      have hi := List.getElem?_eq_getElem (show i < es.length by omega)
      obtain ⟨roused₁, turns, hturns, hheard, hstep⟩ := work_step stamina hs hp hn hi hr
      obtain ⟨k, rfl⟩ : ∃ k', k = k' + turns := ⟨k - turns, by omega⟩
      obtain ⟨roused', hheard', hrun⟩ := @ih roused₁ (i + 1) k (by omega) (by omega) hheard
      exact ⟨roused', hheard', (hstep k).trans hrun⟩

theorem refresh_of_none_resting (hr : net.resting = []) : net.refresh = net := by
  rw [refresh, hr, List.foldl_nil, ← hr]

theorem await_work {net' : Network κ σ} (hroused : net.crowd.roused = []) (hresults : net.crowd.results? = none)
    {k : Nat} (hwork : work h k net = net') (hrest : net'.resting = []) (hnew : net'.crowd.roused ≠ []) :
    await h (k + 1) net = await h k net' := by
  simp only [await, hroused, List.isEmpty_nil, if_true, hresults, Option.isSome_none, Bool.false_eq_true, if_false,
    hwork, refresh_of_none_resting hrest, List.isEmpty_eq_false_iff.2 hnew, Bool.and_false]

theorem await_gather {returns : Returns} (hroused : net.crowd.roused ≠ [])
    (hresults : (net.setStamina vigor).gather.crowd.results? = some returns) (k : Nat) :
    await h (k + 1) net = (net.setStamina vigor).gather := by
  simp only [await, List.isEmpty_eq_false_iff.2 hroused, Bool.false_eq_true, if_false, hresults, Option.isSome_some,
    if_true]

theorem work_carrier (hawake : net.awake = [.carrier]) (hline : net.line = .carrying) (k : Nat) :
    work h (k + 1) net = work h k (carry vigor { net with awake := [] }) := by
  rw [work, hawake]
  simp only [turn, hline, if_true]

theorem byTurns_of_work {done : Network κ σ} {returns : Returns} (hs : net.Still) (hne : es ≠ [])
    (hl : es.length ≤ intimate) (hplaces : es.length ≤ net.places) (hstamina : es.length < net.crowd.stamina)
    (ht : ∀ e ∈ es, 0 < e.timeout) (hlength : returns.length = es.length) (hrest : done.resting = [])
    (hwork : ∀ k, es.length < k → ∃ roused ≠ [],
      work h k (({ net with queue := parcels net.issued es, places := net.places - es.length, awake := [.carrier] } :
        Network κ σ).assembled es (fun _ => .sent) [] (net.crowd.stamina - es.length)) =
          done.assembled es (fun i => .answered (returns[i]?.getD (.error .networkDown))) roused
            (net.crowd.stamina - es.length)) :
    byTurns h es net = (returns, { done with
      issued := done.issued + es.length
      crowd := ⟨done.issued + es.length, [], [], vigor - es.length⟩ }) := by
  let posted : Network κ σ :=
    { net with queue := parcels net.issued es, places := net.places - es.length, awake := [.carrier] }
  let left := net.crowd.stamina - es.length
  let result (i : Nat) := returns[i]?.getD (.error .networkDown)
  have hgather : (net.convene es).gather = posted.assembled es (fun _ => .sent) [] left := by
    rw [convene_eq]
    exact gather_fresh hs hne hl hplaces hstamina ht
  obtain ⟨k, hk⟩ : ∃ k, (posted.assembled es (fun _ => .sent) [] left).ample = es.length + k + 2 := by
    refine ⟨(posted.assembled es (fun _ => .sent) [] left).ample - es.length - 2, ?_⟩
    have hcallers : (posted.assembled es (fun _ => .sent) [] left).crowd.callers.length = es.length := by
      simp [assembled]
    rw [ample, hcallers]
    omega
  obtain ⟨roused, hroused, hwork⟩ := hwork (es.length + k + 1) (by omega)
  have hreturned : ((done.assembled es (fun i => .answered (result i)) roused left).setStamina vigor).gather =
      done.assembled es (fun i => .returned (result i)) [] (vigor - es.length) :=
    gather_results done result hl (by unfold vigor; unfold intimate at hl; omega)
  have hresults : (done.assembled es (fun i => .returned (result i)) [] (vigor - es.length)).crowd.results? =
      some returns := results?_returned done hlength
  have hawait : await h (es.length + k + 2) (posted.assembled es (fun _ => .sent) [] left) =
      done.assembled es (fun i => .returned (result i)) [] (vigor - es.length) := by
    rw [await_work rfl (results?_sent posted hne) hwork hrest hroused, await_gather hroused (hreturned ▸ hresults),
      hreturned]
  simp only [byTurns, hgather, hk, hawait, hresults]
  rfl

theorem byTurns_of_ne_nil (hs : net.Still) (hp : Prompt h f es net) (hn : (es.map (·.node)).Nodup)
    (hl : es.length ≤ intimate) (hplaces : es.length ≤ net.places) (hstamina : es.length < net.crowd.stamina)
    (ht : ∀ e ∈ es, 0 < e.timeout) (hne : es ≠ []) :
    byTurns h es net = ((heed net.reaches f es net.services).1, { net with
      services := (heed net.reaches f es net.services).2
      issued := net.issued + es.length
      crowd := ⟨net.issued + es.length, [], [], leftover net.crowd.stamina es.length⟩ }) := by
  let posted : Network κ σ :=
    { net with queue := parcels net.issued es, places := net.places - es.length, awake := [.carrier] }
  let done : Network κ σ := { net with services := (heed net.reaches f es net.services).2 }
  let left := net.crowd.stamina - es.length
  have hwork (k : Nat) (hk : es.length < k) : ∃ roused ≠ [],
      work h k (posted.assembled es (fun _ => .sent) [] left) =
        done.assembled es (net.answered f es) roused left := by
    have halive : ∀ e ∈ es, ∀ n, net.route? e.node = some n → n.alive = true := fun e he n hr => (hp e he n hr).1
    have hunheard : Heard es (blend 0 (fun _ => .sent) (net.settled es)) [] :=
      fun i _ result hst => by simp [blend] at hst
    obtain ⟨roused₁, hheard₁, hcarry⟩ := @carry_halfway _ _ net es [] left 0 hs halive hl hplaces hn vigor es.length
      (by omega) (by unfold vigor; unfold intimate at hl; omega) hunheard
    obtain ⟨k, rfl⟩ := Nat.exists_eq_add_of_lt hk
    obtain ⟨roused, hheard, hserve⟩ := @work_serving _ _ h f net es roused₁ left 0 hs hp hn (es.length + k) es.length
      (by omega) (by omega) hheard₁
    have hstart : ({ posted with awake := [] } : Network κ σ) =
        net.halfway (parcels net.issued (es.take 0)) (parcels (net.issued + 0) (es.drop 0)) := by
      simp [posted, halfway, parcels, inbound, sorted_nil hs, length_parcels]
    have hmiddle : net.halfway (parcels net.issued es) [] =
        net.serving (net.inbound (parcels (net.issued + 0) (es.drop 0)))
          (heed net.reaches f (es.take 0) net.services).2 := by
      simp [halfway, serving, heed, hs.queue]
    have hcarried : carry vigor (({ posted with awake := [] } : Network κ σ).assembled es (fun _ => .sent) [] left) =
        (net.serving (net.inbound (parcels (net.issued + 0) (es.drop 0)))
          (heed net.reaches f (es.take 0) net.services).2).assembled es (net.settled es) roused₁ left := by
      rw [hstart, ← hmiddle]
      exact hcarry
    refine ⟨roused, hheard 0 (List.length_pos_iff.2 hne) _ rfl, .trans ?_ hserve⟩
    exact (@work_carrier _ _ h (posted.assembled es (fun _ => .sent) [] left) rfl hs.line _).trans
      (congrArg (work h (es.length + k)) hcarried)
  have hleft : leftover net.crowd.stamina es.length = vigor - es.length := by
    rw [leftover, if_neg (mt List.eq_nil_of_length_eq_zero hne), if_pos (Nat.le_of_lt hstamina)]
  have hlength : (heed net.reaches f es net.services).1.length = es.length := length_heed ..
  have hrest : done.resting = [] := hs.resting
  rw [hleft]
  exact byTurns_of_work hs hne hl hplaces hstamina ht hlength hrest hwork

theorem byTurns_nil (h : Hosting κ σ) (net : Network κ σ) :
    byTurns h [] net = ([], { net with crowd := ⟨net.issued, [], [], net.crowd.stamina⟩ }) := by
  have hawait (k : Nat) : await h (k + 1) (net.convene []).gather = (net.convene []).gather := by
    simp [await, convene, gather, Crowd.results?, Crowd.tickets]
  obtain ⟨k, hk⟩ : ∃ k, (net.convene []).gather.ample = k + 1 :=
    Nat.exists_eq_add_one.2 (by rw [ample]; omega)
  simp only [byTurns, hk, hawait]
  rfl

theorem byTurns_eq_heed (hs : net.Still) (hp : Prompt h f es net) (hn : (es.map (·.node)).Nodup)
    (hl : es.length ≤ intimate) (hplaces : es.length ≤ net.places) (hstamina : es.length < net.crowd.stamina)
    (ht : ∀ e ∈ es, 0 < e.timeout) :
    byTurns h es net = ((heed net.reaches f es net.services).1, { net with
      services := (heed net.reaches f es net.services).2
      issued := net.issued + es.length
      crowd := ⟨net.issued + es.length, [], [], leftover net.crowd.stamina es.length⟩ }) := by
  cases es with
  | nil => exact byTurns_nil h net
  | cons e es => exact byTurns_of_ne_nil hs hp hn hl hplaces hstamina ht (List.cons_ne_nil e es)

end SynodStore.Network

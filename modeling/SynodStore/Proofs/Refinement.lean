import SynodStore.Proofs.Hosted
import SynodStore.Proofs.Rounds
import SynodStore.Proofs.Wiring

namespace SynodStore

open Scenario (Fate Result)
open Surroundings (Agree)

deriving instance DecidableEq for Result

inductive Order where
  | propose (place : Nat) (action : Action)
  | round (place : Nat) (action : Action)

def Order.run {σ : Type} (e : Nat → Surroundings (StateM σ)) (cluster : σ → Cluster) : Order → StateM σ Result
  | propose place action, s =>
    let p := (cluster s).proposeIn (e place) place action s
    (.proposed p.1, p.2)
  | round place action, s =>
    let p := (cluster s).roundIn (e place) place action s
    (.decided p.1, p.2)

namespace Cluster

/-- Direct calls, of which those to such places fail without reaching the replica. -/
def cutOff (down : Nat → Bool) (place : Nat) : Surroundings (StateM Cluster) :=
  { surroundings place with broadcast := fun peers q => poll q (fun peer => if down peer then .fail else .pass) peers }

/-- Carries out orders one after another. Before each it is chosen which replicas cannot be reached. -/
def orders (steps : List ((Nat → Bool) × Order)) : StateM Cluster (List Result) :=
  steps.mapM fun s => s.2.run (cutOff s.1) id

variable {c : Cluster} {q : Request} {link : Link} {place : Nat} {action : Action} {peers : List Nat}
variable {fate fate' : Nat → Fate}

theorem cutOff_none (place : Nat) : cutOff (fun _ => false) place = surroundings place := by
  have hbroadcast : (cutOff (fun _ => false) place).broadcast = (surroundings place).broadcast :=
    funext fun peers => funext fun q => funext fun c => (broadcast_eq_poll place peers q).symm
  exact congrArg (fun b => { surroundings place with broadcast := b }) hbroadcast

theorem wireAll_wireAll (link' : Link) : (c.wireAll link).wireAll link' = c.wireAll link' := by
  simp [wireAll, places, Function.comp_def]

theorem call_wireAll : Cluster.call place q (c.wireAll link) =
    ((Cluster.call place q c).1, (Cluster.call place q c).2.wireAll link) := by
  cases hr : c.replicas[place]? with
  | none => rw [call_of_none hr, call_of_none (by exact hr)]
  | some r =>
      rw [call_of_some hr, call_of_some (by exact hr)]
      simp [wireAll, places]

theorem issue_wireAll : issue place (c.wireAll link) = ((issue place c).1, (issue place c).2.wireAll link) := by
  cases hp : c.proposers[place]? with
  | none => simp [issue, wireAll, hp]
  | some p => simp [issue, wireAll, hp, places, List.map_set]

theorem wireAll_issue (h : c.wireAll link = c) : (issue place c).2.wireAll link = (issue place c).2 := by
  have hissue := congrArg Prod.snd (@issue_wireAll c link place)
  rw [h] at hissue
  exact hissue.symm

theorem peers_wireAll (h : place < c.proposers.length) (link : Link) : (c.wireAll link).peers place = c.places := by
  simp [Cluster.peers, wireAll, h]

theorem link_wireAll (h : place < c.proposers.length) (link : Link) : (c.wireAll link).link place = link := by
  simp [Cluster.link, wireAll, h]

theorem length_proposers_issue (place : Nat) (c : Cluster) :
    (issue place c).2.proposers.length = c.proposers.length := by
  cases hp : c.proposers[place]? <;> simp [issue, hp]

theorem meet_wireAll (f : Fate) : meet q place f (c.wireAll link) =
    ((meet q place f c).1, (meet q place f c).2.wireAll link) := by
  rw [meet, meet, call_wireAll]
  split <;> rfl

theorem poll_wireAll : (c.wireAll link).poll q fate peers =
    ((c.poll q fate peers).1, (c.poll q fate peers).2.wireAll link) := by
  induction peers generalizing c with
  | nil => rfl
  | cons peer peers ih =>
      simp only [poll, List.map_cons, calls, meet_wireAll]
      exact congrArg (fun p : List Answer × Cluster => (_ :: p.1, p.2)) ih

theorem wireAll_poll (h : c.wireAll link = c) :
    (c.poll q fate peers).2.wireAll link = (c.poll q fate peers).2 := by
  have hpoll := congrArg Prod.snd (@poll_wireAll c q link peers fate)
  rw [h] at hpoll
  exact hpoll.symm

theorem proposeIn_wireAll {m : Type → Type} [Monad m] (e : Surroundings m) :
    (c.wireAll link).proposeIn e place action = c.proposeIn e place action := by
  cases hp : c.proposers[place]? <;> simp [proposeIn, wireAll, hp]

theorem roundIn_wireAll {m : Type → Type} [Monad m] (e : Surroundings m) :
    (c.wireAll link).roundIn e place action = c.roundIn e place action := by
  cases hp : c.proposers[place]? <;> simp [roundIn, wireAll, hp]

theorem poll_congr (h : ∀ peer ∈ peers, fate peer = fate' peer) : c.poll q fate peers = c.poll q fate' peers := by
  rw [poll, poll, List.map_congr_left fun peer hp => by rw [h peer hp]]

theorem orders_cons (s : (Nat → Bool) × Order) (steps : List ((Nat → Bool) × Order)) (c : Cluster) :
    orders (s :: steps) c =
      let p := s.2.run (cutOff s.1) id c
      (p.1 :: (orders steps p.2).1, (orders steps p.2).2) := by
  rw [orders, List.mapM_cons]
  rfl

end Cluster

namespace Remote

def callByTurns : Nat → List Nat → Request → StateM Remote (List Answer) :=
  callBy (Network.byTurns rolesHosting)

def surroundingsBy (call : List Nat → Request → StateM Remote (List Answer)) (timeout place : Nat) :
    Surroundings (StateM Remote) :=
  { surroundings timeout place with broadcast := call }

def orders (e : Nat → Surroundings (StateM Remote)) (steps : List ((Nat → Bool) × Order)) :
    StateM Remote (List Result) :=
  steps.mapM fun s net => s.2.run e (·.services) (net.sever s.1)

/-- The network serves the replicas of the cluster, whose proposers are wired to each other directly. -/
structure Serves (n : Nat) (c : Cluster) (net : Remote) : Prop where
  ready : net.Ready
  services : net.services = c.wireAll .network
  direct : c.wireAll .direct = c
  size : c.replicas.length = n

structure Cut (n : Nat) (down : Nat → Bool) (place : Nat) (c : Cluster) (net : Remote) : Prop
    extends Serves n c net where
  up : ∀ peer < n, net.reaches (Host.roles peer).name = !down peer
  proposer : place < c.proposers.length

variable {n place timeout : Nat} {down : Nat → Bool} {c : Cluster} {net : Remote}
variable {call : List Nat → Request → StateM Remote (List Answer)} {e : Surroundings (StateM Remote)}

structure Calling (call : List Nat → Request → StateM Remote (List Answer)) (timeout place : Nat)
    (e : Surroundings (StateM Remote)) : Prop where
  peers : e.peers = (surroundings timeout place).peers
  issue : e.issue = (surroundings timeout place).issue
  broadcast : ∀ peers q (net : Remote), net.services.link place = .network →
    e.broadcast peers q net = call peers q net

theorem calling_surroundings (timeout place : Nat) :
    Calling (callRoles timeout) timeout place (surroundings timeout place) where
  peers := rfl
  issue := rfl
  broadcast peers q net hl := by
    show callOver (net.services.link place) timeout peers q net = _
    rw [hl]
    rfl

theorem calling_surroundingsBy (call : List Nat → Request → StateM Remote (List Answer)) (timeout place : Nat) :
    Calling call timeout place (surroundingsBy call timeout place) where
  peers := rfl
  issue := rfl
  broadcast _ _ _ _ := rfl

theorem Cut.next {c' : Cluster} {issued : Nat} {crowd : Crowd} (h : Cut n down place c net)
    (hd : c'.wireAll .direct = c') (hr : c'.replicas.length = c.replicas.length)
    (hp : c'.proposers.length = c.proposers.length) (hs : maxReplicas < crowd.stamina) :
    Cut n down place c' { net with services := c'.wireAll .network, issued := issued, crowd := crowd } where
  ready := h.ready.after (by rw [h.services]; exact hr) issued hs
  services := rfl
  direct := hd
  size := hr.trans h.size
  up := h.up
  proposer := hp ▸ h.proposer

theorem Cut.mirrors (hcall : Polls call) (he : Calling call timeout place e) :
    (Cluster.cutOff down place).Mirrors e (fun peers => peers = List.range n) (Cut n down place) where
  peers c net h := by
    have hpeers : e.peers net = (net.services.peers place, net) := by
      rw [he.peers]
      rfl
    have hlocal : c.peers place = List.range n := by
      rw [← h.direct, Cluster.peers_wireAll h.proposer, Cluster.places, h.size]
    have hremote : net.services.peers place = List.range n := by
      rw [h.services, Cluster.peers_wireAll h.proposer, Cluster.places, h.size]
    rw [hpeers, hremote]
    exact ⟨⟨hlocal, h⟩, hlocal⟩
  issue c net h := by
    have hissue : e.issue net = ((Cluster.issue place net.services).1,
        { net with services := (Cluster.issue place net.services).2 }) := by
      rw [he.issue]
      rfl
    rw [hissue, h.services, Cluster.issue_wireAll]
    exact ⟨rfl, h.next (Cluster.wireAll_issue h.direct) (congrArg _ (Cluster.replicas_issue place c))
      (Cluster.length_proposers_issue place c) h.ready.stamina⟩
  broadcast peers q c net hp h := by
    subst hp
    have hplaces : List.range n = c.places := by rw [Cluster.places, h.size]
    have hlength : net.services.replicas.length = n := by
      rw [h.services]
      exact h.size
    have hlink : net.services.link place = .network := by
      rw [h.services, Cluster.link_wireAll h.proposer]
    have hfate : c.poll q net.fate (List.range n) =
        c.poll q (fun peer => if down peer then .fail else .pass) (List.range n) := by
      refine Cluster.poll_congr fun peer hpeer => ?_
      rw [fate, h.up peer (List.mem_range.1 hpeer)]
      cases down peer <;> rfl
    obtain ⟨issued, crowd, hcrowd, hcall⟩ := hcall net q (List.range n) h.ready List.nodup_range
      fun peer hpeer => hlength ▸ List.mem_range.1 hpeer
    rw [he.broadcast _ _ _ hlink, hcall, h.services, Cluster.poll_wireAll]
    refine ⟨?_, ?_⟩
    · rw [map_toOption_heard, hfate]
      rfl
    · rw [hfate]
      exact h.next (Cluster.wireAll_poll h.direct) (Cluster.length_poll ..)
        (congrArg List.length (Cluster.proposers_poll q _ (List.range n))) hcrowd

theorem Serves.sever (h : Serves n c net) (down : Nat → Bool) : Serves n c (net.sever down) where
  ready := h.ready.sever down
  services := (services_sever down net).trans h.services
  direct := h.direct
  size := h.size

theorem Serves.cut (h : Serves n c net) (hp : place < c.proposers.length) (down : Nat → Bool) :
    Cut n down place c (net.sever down) where
  toServes := h.sever down
  up peer hpeer := reaches_sever h.ready down (by rw [h.services]; exact Nat.lt_of_lt_of_eq hpeer h.size.symm)
  proposer := hp

section

variable {e : Nat → Surroundings (StateM Remote)}

theorem agree_propose (h : Serves n c net) (hcall : Polls call) (he : Calling call timeout place (e place))
    (down : Nat → Bool) (action : Action) :
    Agree (Serves n) (c.proposeIn (Cluster.cutOff down place) place action c)
      (c.proposeIn (e place) place action (net.sever down)) := by
  cases hp : c.proposers[place]? with
  | none =>
      simp only [Cluster.proposeIn, hp]
      exact ⟨rfl, h.sever down⟩
  | some p =>
      simp only [Cluster.proposeIn, hp]
      obtain ⟨hresult, hnext⟩ := (Cut.mirrors hcall he).attempts p.config p.id action p.config.maxRounds.toNat
        (h.cut (List.getElem?_eq_some_iff.1 hp).1 down)
      exact ⟨hresult, hnext.toServes⟩

theorem agree_round (h : Serves n c net) (hcall : Polls call) (he : Calling call timeout place (e place))
    (down : Nat → Bool) (action : Action) :
    Agree (Serves n) (c.roundIn (Cluster.cutOff down place) place action c)
      (c.roundIn (e place) place action (net.sever down)) := by
  cases hp : c.proposers[place]? with
  | none =>
      simp only [Cluster.roundIn, hp]
      exact ⟨rfl, h.sever down⟩
  | some p =>
      simp only [Cluster.roundIn, hp]
      obtain ⟨hresult, hnext⟩ := (Cut.mirrors hcall he).round p.config p.id action
        (h.cut (List.getElem?_eq_some_iff.1 hp).1 down)
      exact ⟨hresult, hnext.toServes⟩

theorem agree_run (h : Serves n c net) (hcall : Polls call) (he : ∀ place, Calling call timeout place (e place))
    (down : Nat → Bool) (order : Order) :
    Agree (Serves n) (order.run (Cluster.cutOff down) id c) (order.run e (·.services) (net.sever down)) := by
  have hservices := (h.sever down).services
  cases order with
  | propose place action =>
      obtain ⟨hresult, hnext⟩ := agree_propose h hcall (he place) down action
      rw [Order.run, Order.run, hservices, Cluster.proposeIn_wireAll]
      exact ⟨congrArg Result.proposed hresult, hnext⟩
  | round place action =>
      obtain ⟨hresult, hnext⟩ := agree_round h hcall (he place) down action
      rw [Order.run, Order.run, hservices, Cluster.roundIn_wireAll]
      exact ⟨congrArg Result.decided hresult, hnext⟩

theorem orders_cons (s : (Nat → Bool) × Order) (steps : List ((Nat → Bool) × Order)) (net : Remote) :
    orders e (s :: steps) net =
      let p := s.2.run e (·.services) (net.sever s.1)
      (p.1 :: (orders e steps p.2).1, (orders e steps p.2).2) := by
  rw [orders, List.mapM_cons]
  rfl

theorem agree_orders (h : Serves n c net) (hcall : Polls call) (he : ∀ place, Calling call timeout place (e place))
    (steps : List ((Nat → Bool) × Order)) :
    Agree (Serves n) (Cluster.orders steps c) (orders e steps net) := by
  induction steps generalizing c net with
  | nil => exact ⟨rfl, h⟩
  | cons s steps ih =>
      obtain ⟨hresult, hnext⟩ := agree_run h hcall he s.1 s.2
      obtain ⟨hresults, hend⟩ := ih hnext
      rw [Cluster.orders_cons, orders_cons]
      exact ⟨List.cons_eq_cons.2 ⟨hresult, hresults⟩, hend⟩

end

def later (e : Nat → Surroundings (StateM Remote)) (steps : List ((Nat → Bool) × Order)) (c : Cluster) : Remote :=
  (orders e steps (ofRoles (c.wireAll .network))).2

/-- Served over a network, where the roles are called in such a way and the proposers meet such surroundings, replicas
are as good as called directly. -/
structure Refines (c : Cluster) (call : List Nat → Request → StateM Remote (List Answer))
    (e : Nat → Surroundings (StateM Remote)) : Prop where
  results : ∀ steps, (orders e steps (ofRoles (c.wireAll .network))).1 = (Cluster.orders steps (c.wireAll .direct)).1
  states : ∀ steps, (later e steps c).services = (Cluster.orders steps (c.wireAll .direct)).2.wireAll .network
  answer : ∀ steps down q, ∀ place < c.replicas.length,
    (call [place] q ((later e steps c).sever down)).1 =
      [if down place then .error (.unreceived (Host.roles place).name)
        else .ok (Cluster.call place q (later e steps c).services).1]
  replicas : ∀ steps down q, ∀ place < c.replicas.length,
    (call [place] q ((later e steps c).sever down)).2.services =
      if down place then (later e steps c).services else (Cluster.call place q (later e steps c).services).2
  order : ∀ steps down q places, places.Nodup → (∀ place ∈ places, place < c.replicas.length) →
    ∀ places', places'.Perm places →
      (places'.zip (call places' q ((later e steps c).sever down)).1).Perm
          (places.zip (call places q ((later e steps c).sever down)).1) ∧
        (call places' q ((later e steps c).sever down)).2.services =
          (call places q ((later e steps c).sever down)).2.services

theorem refines_of_polls {e : Nat → Surroundings (StateM Remote)} (hc : c.replicas.length ≤ maxReplicas)
    (hcall : Polls call) (he : ∀ place, Calling call timeout place (e place)) : Refines c call e := by
  have hserves : Serves c.replicas.length (c.wireAll .direct) (ofRoles (c.wireAll .network)) := by
    refine ⟨ready_ofRoles hc, ?_, Cluster.wireAll_wireAll _, rfl⟩
    rw [services_ofRoles, Cluster.wireAll_wireAll]
  have hagree steps := agree_orders hserves hcall he steps
  have hlength steps : (later e steps c).services.replicas.length = c.replicas.length := by
    rw [later, (hagree steps).2.services]
    exact (hagree steps).2.size
  constructor
  case results => exact fun steps => (hagree steps).1.symm
  case states => exact fun steps => (hagree steps).2.services
  case answer =>
    intro steps down q place hp
    exact (hcall.sever (hagree steps).2.ready ((hlength steps).symm ▸ hp) down q).1
  case replicas =>
    intro steps down q place hp
    exact (hcall.sever (hagree steps).2.ready ((hlength steps).symm ▸ hp) down q).2
  case order =>
    intro steps down q places hn hp places' ho
    refine hcall.perm ((hagree steps).2.ready.sever down) (fun place hplace => ?_) hn ho q
    rw [services_sever]
    exact (hlength steps).symm ▸ hp place hplace

theorem polls_callRoles (ht : 0 < timeout) : Polls (callRoles timeout) := by
  have hcall : callRoles timeout = callBy (Network.burst rolesHosting) timeout :=
    funext fun places => funext fun q => callRoles_eq timeout places q
  exact hcall ▸ polls_callBy sends_burst ht

/-- Peers that are called over a network refine peers that are called directly, be it that calls follow one another
or that everybody acts by turns, and in whichever order the calls of each phase are made. -/
theorem refines_direct (c : Cluster) {timeout : Nat} (hc : c.replicas.length ≤ maxReplicas) (ht : 0 < timeout) :
    Refines c (callRoles timeout) (surroundings timeout) ∧
      Refines c (callByTurns timeout) (surroundingsBy (callByTurns timeout) timeout) ∧
      ∀ arrange : Request → Remote → List Nat → List Nat, (∀ q net places, (arrange q net places).Perm places) →
        Refines c (rearranged arrange (callByTurns timeout))
          (surroundingsBy (rearranged arrange (callByTurns timeout)) timeout) := by
  have hturns : Polls (callByTurns timeout) := polls_callBy sends_byTurns ht
  exact ⟨refines_of_polls hc (polls_callRoles ht) (calling_surroundings timeout),
    refines_of_polls hc hturns (calling_surroundingsBy _ timeout),
    fun arrange ha => refines_of_polls hc (hturns.rearranged ha) (calling_surroundingsBy _ timeout)⟩

/-- A put with one node cut off goes through, and where two are cut off a round fails, also if the last replicas are
called first. What is read back from the replicas is what the direct calls left there. -/
theorem refines_direct_three :
    let c := Cluster.plain 3 [⟨0, 0, by decide⟩, ⟨1, 0, by decide⟩]
    let steps : List ((Nat → Bool) × Order) :=
      [((· = 2), .propose 0 (.put "k" "v")), ((· ≠ 1), .round 1 (.put "k" "w"))]
    c.replicas.length ≤ maxReplicas ∧ 0 < 3000 ∧
      (orders (surroundings 3000) steps (ofRoles (c.wireAll .network))).1 =
        [.proposed (.ok (.pack 1 0)), .decided (.error (.quorumNotReached .prepare 1 2))] ∧
      (later (surroundings 3000) steps c).services.values "k" = [some "v", some "v", none] ∧
      (callByTurns 3000 [2] (.learn ⟨.pack 1 0, 0, .put "k" "v"⟩)
        ((later (surroundingsBy (callByTurns 3000) 3000) steps c).sever (· = 0))).2.services.values "k" =
          [some "v", some "v", some "v"] ∧
      (orders (surroundingsBy (rearranged (fun _ _ => List.reverse) (callByTurns 3000)) 3000) steps
        (ofRoles (c.wireAll .network))).1 =
          [.proposed (.ok (.pack 1 0)), .decided (.error (.quorumNotReached .prepare 1 2))] := by
  intro c steps
  have hc : c.replicas.length ≤ maxReplicas := by decide
  have ht : 0 < 3000 := by decide
  obtain ⟨h, hturns, hrearranged⟩ := refines_direct c hc ht
  have hreversed := hrearranged (fun _ _ => List.reverse) fun _ _ => List.reverse_perm
  have hdirect : (Cluster.orders steps (c.wireAll .direct)).1 =
      [.proposed (.ok (.pack 1 0)), .decided (.error (.quorumNotReached .prepare 1 2))] := by decide +kernel
  refine ⟨hc, ht, (h.results steps).trans hdirect, ?_, ?_, (hreversed.results steps).trans hdirect⟩
  · rw [h.states]
    decide +kernel
  · rw [hturns.replicas steps _ _ 2 (by decide), hturns.states]
    decide +kernel

end Remote

end SynodStore

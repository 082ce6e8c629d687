import SynodStore.Proofs.Dispatch
import SynodStore.Proofs.Polls
import SynodStore.Proofs.Turns

namespace SynodStore

open Scenario (Fate)
open Network (heed Prompt)

namespace Remote

/-- Nothing is under way, nothing is dropped by chance, and the roles of every replica are served under their name. -/
structure Ready (net : Remote) : Prop where
  still : net.Still
  kept : net.dropping = false
  hosts : ∀ place < net.services.replicas.length, ∃ n, net.nodes[(Host.roles place).name]? = some n ∧
    n.host = .roles place ∧ n.listed = true ∧ n.alive = true
  room : net.places = Network.capacity
  stamina : maxReplicas < net.crowd.stamina
  size : net.services.replicas.length ≤ maxReplicas

variable {net : Remote} {q : Request} {timeout place : Nat} {places : List Nat} {c : Cluster}

namespace Ready

theorem route?_eq (h : net.Ready) (hp : place < net.services.replicas.length) :
    net.route? (Host.roles place).name =
      if (Host.roles place).name ∈ net.unreachable then none else net.nodes[(Host.roles place).name]? := by
  obtain ⟨n, hn, -, hl, -⟩ := h.hosts place hp
  rw [Network.route?, h.kept, hn]
  simp [Option.filter_some, hl]

theorem reaches_iff (h : net.Ready) (hp : place < net.services.replicas.length) :
    net.reaches (Host.roles place).name ↔ (Host.roles place).name ∉ net.unreachable := by
  obtain ⟨n, hn, -⟩ := h.hosts place hp
  rw [Network.reaches, h.route?_eq hp, hn]
  split <;> simp [*]

theorem after (h : net.Ready) (hc : c.replicas.length = net.services.replicas.length) (issued : Nat) {crowd : Crowd}
    (hs : maxReplicas < crowd.stamina) : Ready { net with services := c, issued := issued, crowd := crowd } where
  still := h.still.after c issued crowd
  kept := h.kept
  hosts place hp := h.hosts place (Nat.lt_of_lt_of_eq hp hc)
  room := h.room
  stamina := hs
  size := Nat.le_trans (Nat.le_of_eq hc) h.size

end Ready

def respond (net : Remote) (q : Request) (e : Errand) : StateM Cluster String := fun c =>
  match net.nodes[e.node]?.map Node.host with
  | some (.roles place) =>
    (Service.responseText Request (.ok (Cluster.call place q c).1), (Cluster.call place q c).2)
  | _ => ("", c)

def errands (timeout : Nat) (q : Request) (places : List Nat) : List Errand :=
  places.map fun place => ⟨(Host.roles place).name, Wire.toText q, timeout⟩

def Houses (net : Remote) (place : Nat) : Prop :=
  ∀ n, net.route? (Host.roles place).name = some n → n.host = .roles place ∧ n.alive = true

theorem Ready.houses (h : net.Ready) (hp : place < net.services.replicas.length) : net.Houses place := by
  intro n hr
  obtain ⟨m, hm, hhost, -, halive⟩ := h.hosts place hp
  obtain rfl : m = n := Option.some.inj (hm.symm.trans (Network.getElem?_of_route? hr))
  exact ⟨hhost, halive⟩

theorem respond_roles (h : net.Houses place) (hr : net.reaches (Host.roles place).name) (timeout : Nat)
    (text : String) : net.respond q ⟨(Host.roles place).name, text, timeout⟩ c =
      (Service.responseText Request (.ok (Cluster.call place q c).1), (Cluster.call place q c).2) := by
  obtain ⟨n, hn⟩ := Option.isSome_iff_exists.1 hr
  simp only [respond, Network.getElem?_of_route? hn, Option.map_some, (h n hn).1]

theorem prompt_errands (h : ∀ place ∈ places, net.Houses place) :
    Prompt rolesHosting (net.respond q) (errands timeout q places) net := by
  intro e he n hr
  obtain ⟨place, hplace, rfl⟩ := List.mem_map.1 he
  obtain ⟨hhost, halive⟩ := h place hplace n hr
  refine ⟨halive, fun net' => ?_⟩
  rw [respond_roles (h place hplace) (Option.isSome_iff_exists.2 ⟨n, hr⟩)]
  simp only [rolesHosting, hhost]
  exact serveRoles_toText place q net'

theorem nodup_errands (hn : places.Nodup) : ((errands timeout q places).map (·.node)).Nodup := by
  rw [errands, List.map_map]
  exact hn.map fun _ _ h => Host.roles_inj h

def fate (net : Remote) (place : Nat) : Fate :=
  if net.reaches (Host.roles place).name then .pass else .fail

def heard (net : Remote) (places : List Nat) (answers : List Answer) : List Answer :=
  List.zipWith (fun place a =>
    if net.reaches (Host.roles place).name then a else .error (.unreceived (Host.roles place).name)) places answers

theorem heed_errands (h : ∀ place ∈ places, net.Houses place) (c : Cluster) :
    List.zipWith (fun (place : Nat) r => r.bind (Service.interpret (Host.roles place).name q)) places
      (heed net.reaches (net.respond q) (errands timeout q places) c).1 =
        net.heard places (c.poll q net.fate places).1 ∧
      (heed net.reaches (net.respond q) (errands timeout q places) c).2 = (c.poll q net.fate places).2 := by
  induction places generalizing c with
  | nil => exact ⟨rfl, rfl⟩
  | cons place places ih =>
      have hrest := ih fun place hplace => h place (List.mem_cons_of_mem _ hplace)
      cases hr : net.reaches (Host.roles place).name with
      | true =>
          obtain ⟨hanswers, hstate⟩ := hrest (Cluster.call place q c).2
          have hrespond := @respond_roles net q place c (h place List.mem_cons_self) hr timeout (Wire.toText q)
          have hreply := Request.interpret_reply (Host.roles place).name (q.asks_call place c)
          have hmeet : Cluster.meet q place (net.fate place) c =
              (.ok (Cluster.call place q c).1, (Cluster.call place q c).2) := by
            rw [Cluster.meet, fate, hr]
            rfl
          simp only [errands, List.map_cons, heed, hr, if_true, hrespond, Cluster.poll, Cluster.calls, hmeet, heard,
            List.zipWith_cons_cons, Except.bind, hreply]
          exact ⟨congrArg (List.cons _) hanswers, hstate⟩
      | false =>
          obtain ⟨hanswers, hstate⟩ := hrest c
          have hmeet : Cluster.meet q place (net.fate place) c = (.error .scripted, c) := by
            rw [Cluster.meet, fate, hr]
            rfl
          simp only [errands, List.map_cons, heed, hr, Bool.false_eq_true, if_false, Cluster.poll, Cluster.calls, hmeet,
            heard, List.zipWith_cons_cons, Except.bind]
          exact ⟨congrArg (List.cons _) hanswers, hstate⟩

theorem map_toOption_heard (places : List Nat) (c : Cluster) :
    (net.heard places (c.poll q net.fate places).1).map Except.toOption =
      (c.poll q net.fate places).1.map Except.toOption := by
  induction places generalizing c with
  | nil => rfl
  | cons place places ih =>
      have hrest := ih (Cluster.meet q place (net.fate place) c).2
      have hfirst : (if net.reaches (Host.roles place).name then (Cluster.meet q place (net.fate place) c).1
          else .error (.unreceived (Host.roles place).name)).toOption =
            (Cluster.meet q place (net.fate place) c).1.toOption := by
        rw [Cluster.meet, fate]
        cases net.reaches (Host.roles place).name <;> rfl
      simp only [heard, Cluster.poll, List.map_cons, Cluster.calls, List.zipWith_cons_cons, hfirst]
      exact congrArg (List.cons _) hrest

/-- A way of making calls at one time that comes to the same as making them one after another. -/
def Sends (send : List Errand → Remote → Returns × Remote) : Prop :=
  ∀ (net : Remote) (f : Errand → StateM Cluster String) (errands : List Errand), net.Ready →
    Prompt rolesHosting f errands net → (errands.map (·.node)).Nodup → errands.length ≤ maxReplicas →
      (∀ e ∈ errands, 0 < e.timeout) → ∃ issued crowd, maxReplicas < crowd.stamina ∧ send errands net =
        ((heed net.reaches f errands net.services).1, { net with
          services := (heed net.reaches f errands net.services).2
          issued := issued
          crowd := crowd })

theorem lt_leftover {stamina calls : Nat} (hs : maxReplicas < stamina) (hc : calls ≤ maxReplicas) :
    maxReplicas < Network.leftover stamina calls := by
  have hm : maxReplicas = 16 := rfl
  have hv : Network.vigor = 128 := rfl
  rw [Network.leftover]
  split
  · exact hs
  · split <;> omega

theorem sends_burst : Sends (Network.burst rolesHosting) := by
  intro net f errands h hp hn hl ht
  refine ⟨net.issued, { net.crowd with stamina := Network.leftover net.crowd.stamina errands.length },
    lt_leftover h.stamina hl, ?_⟩
  exact Network.burst_eq_heed h.still hp (Nat.le_trans hl (by decide)) ht

theorem sends_byTurns : Sends (Network.byTurns rolesHosting) := by
  intro net f errands h hp hn hl ht
  refine ⟨net.issued + errands.length, _, ?_, Network.byTurns_eq_heed h.still hp hn (Nat.le_trans hl (by decide))
    (by rw [h.room]; exact Nat.le_trans hl (by decide)) (Nat.lt_of_le_of_lt hl h.stamina) ht⟩
  exact lt_leftover h.stamina hl

def callBy (send : List Errand → Remote → Returns × Remote) (timeout : Nat) (places : List Nat) (q : Request) :
    StateM Remote (List Answer) := fun net =>
  let p := send (errands timeout q places) net
  (List.zipWith (fun (place : Nat) r => r.bind (Service.interpret (Host.roles place).name q)) places p.1, p.2)

theorem callRoles_eq (timeout : Nat) (places : List Nat) (q : Request) :
    callRoles timeout places q = callBy (Network.burst rolesHosting) timeout places q := by
  funext net
  have hnames : (places.map fun place => (Host.roles place).name).map (fun name => ⟨name, Wire.toText q, timeout⟩) =
      errands timeout q places := List.map_map ..
  have hcall : callRoles timeout places q net =
      (List.zipWith (fun name r => r.bind (Service.interpret name q)) (places.map fun place => (Host.roles place).name)
        (Network.burst rolesHosting (errands timeout q places) net).1,
        (Network.burst rolesHosting (errands timeout q places) net).2) := by
    rw [← hnames]
    rfl
  rw [hcall, List.zipWith_map_left]
  rfl

/-- Calling the roles of replicas in such a way comes to polling those that can be reached. -/
def Polls (call : List Nat → Request → StateM Remote (List Answer)) : Prop :=
  ∀ (net : Remote) (q : Request) (places : List Nat), net.Ready → places.Nodup →
    (∀ place ∈ places, place < net.services.replicas.length) →
    ∃ issued crowd, maxReplicas < crowd.stamina ∧ call places q net =
      (net.heard places (net.services.poll q net.fate places).1, { net with
        services := (net.services.poll q net.fate places).2
        issued := issued
        crowd := crowd })

theorem polls_callBy {send : List Errand → Remote → Returns × Remote} (hs : Sends send) (ht : 0 < timeout) :
    Polls (callBy send timeout) := by
  intro net q places h hn hp
  have hlength : (errands timeout q places).length ≤ maxReplicas := by
    have hrange : places ⊆ List.range net.services.replicas.length := fun place hplace =>
      List.mem_range.2 (hp place hplace)
    have hle := (hn.subperm hrange).length_le
    rw [List.length_range] at hle
    rw [errands, List.length_map]
    exact Nat.le_trans hle h.size
  have htimeout : ∀ e ∈ errands timeout q places, 0 < e.timeout := by
    intro e he
    obtain ⟨place, -, rfl⟩ := List.mem_map.1 he
    exact ht
  have hhouses : ∀ place ∈ places, net.Houses place := fun place hplace => h.houses (hp place hplace)
  obtain ⟨issued, crowd, hcrowd, hsend⟩ := hs net (net.respond q) (errands timeout q places) h
    (prompt_errands hhouses) (nodup_errands hn) hlength htimeout
  obtain ⟨hanswers, hstate⟩ := @heed_errands net q timeout places hhouses net.services
  refine ⟨issued, crowd, hcrowd, ?_⟩
  simp only [callBy, hsend, hanswers, hstate]

/-! Networks that serve the roles of all replicas. -/

theorem still_fresh (c : Cluster) : (Network.fresh c : Remote).Still where
  line := rfl
  queue := rfl
  waiting := rfl
  held := rfl
  awake := rfl
  resting := rfl
  nodes name n hn := by simp [Network.fresh] at hn

theorem still_register (h : net.Still) (name : String) (host : Host) : (net.register name host).Still :=
  h.insert name rfl rfl net.services

def host (place : Nat) : Node Host :=
  ⟨.roles place, true, true, 1, [], .listening⟩

theorem foldl_register (places : List Nat) (net : Remote) :
    ∃ nodes, places.foldl (fun net place => net.register (Host.roles place).name (.roles place)) net =
        { net with nodes := nodes } ∧
      ∀ place, nodes[(Host.roles place).name]? =
        if place ∈ places then some (host place) else net.nodes[(Host.roles place).name]? := by
  induction places generalizing net with
  | nil => exact ⟨net.nodes, rfl, fun place => rfl⟩
  | cons x places ih =>
      obtain ⟨nodes, hnet, hnodes⟩ := ih (net.register (Host.roles x).name (.roles x))
      refine ⟨nodes, hnet, fun place => ?_⟩
      rw [hnodes, Network.register, Std.ExtTreeMap.getElem?_insert]
      by_cases hx : x = place
      · subst hx
        simp [host]
      · have hname : (Host.roles x).name ≠ (Host.roles place).name := mt Host.roles_inj hx
        simp [hname, Ne.symm hx]

theorem foldl_setReachable (down : Nat → Bool) (places : List Nat) (net : Remote) :
    ∃ unreachable, places.foldl (fun net place => net.setReachable (Host.roles place).name (!down place)) net =
        { net with unreachable := unreachable } ∧
      ∀ place, (Host.roles place).name ∈ unreachable ↔
        if place ∈ places then down place else (Host.roles place).name ∈ net.unreachable := by
  induction places generalizing net with
  | nil => exact ⟨net.unreachable, rfl, fun place => by simp⟩
  | cons x places ih =>
      obtain ⟨unreachable, hnet, hmem⟩ := ih (net.setReachable (Host.roles x).name (!down x))
      refine ⟨unreachable, hnet, fun place => ?_⟩
      rw [hmem, Network.setReachable]
      by_cases hx : x = place
      · subst hx
        cases down x <;> simp
      · have hname : (Host.roles x).name ≠ (Host.roles place).name := mt Host.roles_inj hx
        cases down x <;> simp [hname, Ne.symm hx]

theorem still_foldl_register (h : net.Still) (places : List Nat) :
    Network.Still (places.foldl (fun net place => net.register (Host.roles place).name (.roles place)) net) := by
  induction places generalizing net with
  | nil => exact h
  | cons x places ih => exact ih (still_register h (Host.roles x).name (.roles x))

theorem ready_ofRoles (hc : c.replicas.length ≤ maxReplicas) : (ofRoles c).Ready := by
  have hstill := still_foldl_register (still_fresh c) c.places
  obtain ⟨nodes, hnet, hnodes⟩ := foldl_register c.places (.fresh c)
  rw [ofRoles, hnet]
  rw [hnet] at hstill
  refine ⟨hstill, rfl, fun place hp => ⟨host place, ?_, rfl, rfl, rfl⟩, rfl, ?_, hc⟩
  · have hplace : place ∈ c.places := List.mem_range.2 hp
    rw [hnodes, if_pos hplace]
  · exact (by decide : maxReplicas < Network.vigor)

theorem services_ofRoles (c : Cluster) : (ofRoles c).services = c := by
  obtain ⟨nodes, hnet, -⟩ := foldl_register c.places (.fresh c)
  rw [ofRoles, hnet]
  rfl

def sever (down : Nat → Bool) (net : Remote) : Remote :=
  net.services.places.foldl (fun net place => net.setReachable (Host.roles place).name (!down place)) net

theorem services_sever (down : Nat → Bool) (net : Remote) : (net.sever down).services = net.services := by
  obtain ⟨unreachable, hnet, -⟩ := foldl_setReachable down net.services.places net
  rw [sever, hnet]

theorem Ready.sever (h : net.Ready) (down : Nat → Bool) : (net.sever down).Ready := by
  obtain ⟨unreachable, hnet, -⟩ := foldl_setReachable down net.services.places net
  rw [Remote.sever, hnet]
  exact ⟨⟨h.still.line, h.still.queue, h.still.waiting, h.still.held, h.still.awake, h.still.resting, h.still.nodes⟩,
    h.kept, h.hosts, h.room, h.stamina, h.size⟩

theorem reaches_sever (h : net.Ready) (down : Nat → Bool) (hp : place < net.services.replicas.length) :
    (net.sever down).reaches (Host.roles place).name = !down place := by
  have hreaches := (h.sever down).reaches_iff (services_sever down net ▸ hp)
  obtain ⟨unreachable, hnet, hmem⟩ := foldl_setReachable down net.services.places net
  have hu : (net.sever down).unreachable = unreachable := congrArg Network.unreachable hnet
  have hplace : place ∈ net.services.places := List.mem_range.2 hp
  rw [hu, hmem, if_pos hplace] at hreaches
  cases hd : down place <;> simpa [hd] using hreaches

def answer (net : Remote) (q : Request) (c : Cluster) (place : Nat) : Answer :=
  if net.reaches (Host.roles place).name then
    c.replicas[place]?.elim ((net.fate place).answer q q.refusal) fun r => (r.meet q (net.fate place)).1
  else .error (.unreceived (Host.roles place).name)

theorem heard_poll (hn : places.Nodup) :
    net.heard places (c.poll q net.fate places).1 = places.map (net.answer q c) := by
  rw [Cluster.answers_poll hn, heard]
  exact List.ext_getElem (by simp) fun i hi hi' => by simp [answer]

/-- The calls are made in another order, and their answers are sorted again. -/
def rearranged (arrange : Request → Remote → List Nat → List Nat)
    (call : List Nat → Request → StateM Remote (List Answer)) (places : List Nat) (q : Request) :
    StateM Remote (List Answer) := fun net =>
  let order := arrange q net places
  let p := call order q net
  (places.filterMap fun place => (order.zip p.1).lookup place, p.2)

theorem lookup_zip_map {β : Type} (f : Nat → β) (h : place ∈ places) :
    (places.zip (places.map f)).lookup place = some (f place) := by
  induction places with
  | nil => cases h
  | cons x places ih =>
      rw [List.map_cons, List.zip_cons_cons, List.lookup_cons]
      by_cases hx : place = x
      · simp [hx]
      · rw [beq_false_of_ne hx]
        exact ih ((List.mem_cons.1 h).resolve_left hx)

namespace Polls

variable {call : List Nat → Request → StateM Remote (List Answer)}

theorem sever (hcall : Polls call) (h : net.Ready) (hp : place < net.services.replicas.length) (down : Nat → Bool)
    (q : Request) :
    (call [place] q (net.sever down)).1 =
        [if down place then .error (.unreceived (Host.roles place).name)
          else .ok (Cluster.call place q net.services).1] ∧
      (call [place] q (net.sever down)).2.services =
        if down place then net.services else (Cluster.call place q net.services).2 := by
  have hservices := services_sever down net
  have hreaches := reaches_sever h down hp
  obtain ⟨issued, crowd, -, hcall⟩ := hcall (net.sever down) q [place] (h.sever down) (List.nodup_singleton place)
    (by simpa [hservices] using hp)
  rw [hcall, hservices]
  simp only [Cluster.poll, List.map_cons, List.map_nil, Cluster.calls, heard, List.zipWith_cons_cons,
    List.zipWith_nil_left, hreaches, Cluster.meet, fate]
  cases down place <;> exact ⟨rfl, rfl⟩

theorem perm (hcall : Polls call) (h : net.Ready) (hp : ∀ place ∈ places, place < net.services.replicas.length)
    (hn : places.Nodup) {order : List Nat} (ho : order.Perm places) (q : Request) :
    (order.zip (call order q net).1).Perm (places.zip (call places q net).1) ∧
      (call order q net).2.services = (call places q net).2.services := by
  have hn' : order.Nodup := ho.nodup_iff.2 hn
  obtain ⟨issued, crowd, -, hplaces⟩ := hcall net q places h hn hp
  obtain ⟨issued', crowd', -, horder⟩ := hcall net q order h hn' fun place hplace => hp place (ho.mem_iff.1 hplace)
  rw [hplaces, horder]
  dsimp only
  refine ⟨?_, Cluster.poll_perm hn ho⟩
  rw [heard_poll hn', heard_poll hn, ← List.map_prod_left_eq_zip, ← List.map_prod_left_eq_zip]
  exact ho.map _

theorem rearranged {arrange : Request → Remote → List Nat → List Nat} (hcall : Polls call)
    (ha : ∀ q net places, (arrange q net places).Perm places) : Polls (Remote.rearranged arrange call) := by
  intro net q places h hn hp
  have ho := ha q net places
  have hn' : (arrange q net places).Nodup := ho.nodup_iff.2 hn
  obtain ⟨issued, crowd, hcrowd, horder⟩ := hcall net q (arrange q net places) h hn'
    fun place hplace => hp place (ho.mem_iff.1 hplace)
  refine ⟨issued, crowd, hcrowd, ?_⟩
  have hanswers : places.filterMap (fun place => ((arrange q net places).zip (net.heard (arrange q net places)
      (net.services.poll q net.fate (arrange q net places)).1)).lookup place) =
        net.heard places (net.services.poll q net.fate places).1 := by
    rw [heard_poll hn', heard_poll hn]
    exact (List.filterMap_congr fun place hplace => lookup_zip_map _ (ho.mem_iff.2 hplace)).trans
      (congrFun List.filterMap_eq_map places)
  simp only [Remote.rearranged, horder, hanswers, Cluster.poll_perm hn ho]

end Polls

end Remote

end SynodStore

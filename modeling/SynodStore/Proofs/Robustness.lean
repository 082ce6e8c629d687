import SynodStore.Proofs.Refinement
import SynodStore.Proofs.Replacement

namespace SynodStore

open Scenario (Fate)
open Surroundings (Agree)

def Link.cuts (reach : Nat → Bool) (link : Link) (peer : Nat) : Bool :=
  link = .network && !reach peer

def Host.reads : Host → String → Bool
  | roles _, text => (Wire.ofText? text : Option Request).isSome
  | front _, text => (Wire.ofText? text : Option Access).isSome

structure Inquiry where
  text : String
  result : Except CallError String
  before : Cluster
  after : Cluster

def Served.returned (name : String) : Served → Except CallError String
  | .response text _ => .ok text
  | .unreadable | .collapse => .error (.unreceived name)

namespace Cluster

def wiring (c : Cluster) : List (List Nat × Link) :=
  c.proposers.map fun p => (p.peers, p.link)

def accessOver (reach : Nat → Bool) (place : Nat) (a : Access) : StateM Cluster AccessReply :=
  a.serve (fun key => return (← get).read place key) fun action => do
    let c ← get
    c.proposeIn (cutOff ((c.link place).cuts reach) place) place action

/-- What a node makes of a text where such replicas are reached over the network. -/
def tell (reach : Nat → Bool) : Host → String → StateM Cluster Served
  | .roles place, text =>
    match (Wire.ofText? text : Option Request) with
    | none => return .unreadable
    | some q => return .response (Service.responseText Request (.ok (← call place q))) none
  | .front place, text =>
    match (Wire.ofText? text : Option Access) with
    | none => return .unreadable
    | some a => return .response (Service.responseText Access (.ok (← accessOver reach place a))) none

def converse (reach : Nat → Bool) (host : Host) (name text : String) : StateM Cluster Inquiry := fun c =>
  let p := tell reach host text c
  (⟨text, p.1.returned name, c, p.2⟩, p.2)

variable {c c' : Cluster} {place : Nat} {q : Request} {fate : Nat → Fate} {peers : List Nat} {reach : Nat → Bool}
variable {host : Host} {text : String} {p : Proposer}

theorem getElem?_wiring (hp : c.proposers[place]? = some p) : c.wiring[place]? = some (p.peers, p.link) := by
  rw [wiring, List.getElem?_map, hp, Option.map_some]

theorem link_eq (c : Cluster) (place : Nat) : c.link place = c.wiring[place]?.elim .direct (·.2) := by
  cases hp : c.proposers[place]? <;> simp [link, wiring, hp]

theorem peers_eq (c : Cluster) (place : Nat) : c.peers place = c.wiring[place]?.elim [] (·.1) := by
  cases hp : c.proposers[place]? <;> simp [peers, wiring, hp]

theorem link_congr (h : c.wiring = c'.wiring) (place : Nat) : c.link place = c'.link place := by
  rw [link_eq, h, ← link_eq]

theorem peers_congr (h : c.wiring = c'.wiring) (place : Nat) : c.peers place = c'.peers place := by
  rw [peers_eq, h, ← peers_eq]

theorem length_peers_wireAll (c : Cluster) (link : Link) (place : Nat) :
    ((c.wireAll link).peers place).length ≤ c.replicas.length := by
  cases hp : c.proposers[place]? <;> simp [peers, wireAll, places, hp]

theorem wiring_issue (place : Nat) (c : Cluster) : (issue place c).2.wiring = c.wiring := by
  cases hp : c.proposers[place]? with
  | none => simp [issue, hp]
  | some p =>
      obtain ⟨hlt, hw⟩ := List.getElem?_eq_some_iff.1 (getElem?_wiring hp)
      have hset : (issue place c).2.wiring = c.wiring.set place (p.peers, p.link) := by
        simp [issue, wiring, hp, List.map_set]
      rw [hset, ← hw, List.set_getElem_self]

theorem wiring_call (place : Nat) (q : Request) (c : Cluster) : (call place q c).2.wiring = c.wiring := by
  rw [wiring, proposers_call, wiring]

theorem wiring_poll (c : Cluster) : (c.poll q fate peers).2.wiring = c.wiring := by
  rw [wiring, proposers_poll, wiring]

theorem tell_of_unreadable (h : ¬ host.reads text) (c : Cluster) : tell reach host text c = (.unreadable, c) := by
  cases host with
  | roles place =>
      have hq : (Wire.ofText? text : Option Request) = none := by simpa [Host.reads] using h
      simp only [tell, hq]
      rfl
  | front place =>
      have ha : (Wire.ofText? text : Option Access) = none := by simpa [Host.reads] using h
      simp only [tell, ha]
      rfl

theorem tell_of_readable (h : host.reads text) (c : Cluster) :
    ∃ response, (tell reach host text c).1 = .response response none := by
  cases host with
  | roles place =>
      obtain ⟨q, hq⟩ := Option.isSome_iff_exists.1 h
      simp only [tell, hq]
      exact ⟨_, rfl⟩
  | front place =>
      obtain ⟨a, ha⟩ := Option.isSome_iff_exists.1 h
      simp only [tell, ha]
      exact ⟨_, rfl⟩

variable {name : String} {texts : List String} {x : Inquiry}

theorem mapM_converse_cons (text : String) (texts : List String) (c : Cluster) :
    (text :: texts).mapM (converse reach host name) c =
      let p := converse reach host name text c
      let rest := texts.mapM (converse reach host name) p.2
      (p.1 :: rest.1, rest.2) := by
  rw [List.mapM_cons]
  rfl

theorem eq_converse_of_mem (hx : x ∈ (texts.mapM (converse reach host name) c).1) :
    x = (converse reach host name x.text x.before).1 := by
  induction texts generalizing c with
  | nil => cases hx
  | cons text texts ih =>
      rw [mapM_converse_cons] at hx
      obtain rfl | hrest := List.mem_cons.1 hx
      · rfl
      · exact ih hrest

theorem mapM_converse_filter (texts : List String) (c : Cluster) :
    (texts.filter host.reads).mapM (converse reach host name) c =
      ((texts.mapM (converse reach host name) c).1.filter (host.reads ·.text),
        (texts.mapM (converse reach host name) c).2) := by
  induction texts generalizing c with
  | nil => rfl
  | cons text texts ih =>
      have htext : (converse reach host name text c).1.text = text := rfl
      by_cases hr : host.reads text
      · rw [List.filter_cons_of_pos hr, mapM_converse_cons, mapM_converse_cons]
        dsimp only
        rw [ih, List.filter_cons, htext, if_pos hr]
      · have hstate : (converse reach host name text c).2 = c := congrArg Prod.snd (tell_of_unreadable hr c)
        rw [List.filter_cons_of_neg hr, mapM_converse_cons]
        dsimp only
        rw [ih, List.filter_cons, htext, if_neg hr, hstate]

end Cluster

namespace Remote

def inquire (call : Errand → Remote → Except CallError String × Remote) (name : String) (wait : Nat) (text : String) :
    StateM Remote Inquiry := fun net =>
  let p := call ⟨name, text, wait⟩ net
  (⟨text, p.1, net.services, p.2.services⟩, p.2)

def inquiries (call : Errand → Remote → Except CallError String × Remote) (name : String) (wait : Nat)
    (texts : List String) : StateM Remote (List Inquiry) :=
  texts.mapM (inquire call name wait)

def reach (net : Remote) (peer : Nat) : Bool :=
  net.reaches (Host.roles peer).name

def Carries (timeout : Nat) (net : Remote) (link : Link) (peers : List Nat) : Prop :=
  link = .network → 0 < timeout ∧ peers.length ≤ maxReplicas ∧ ∀ peer ∈ peers, net.Houses peer

structure Settled (timeout : Nat) (host : Host) (net : Remote) : Prop where
  still : net.Still
  wired : ∀ place, host = .front place → net.Carries timeout (net.services.link place) (net.services.peers place)

structure Serving (net : Remote) (c : Cluster) (net' : Remote) : Prop where
  same : ∃ crowd, net' = { net with services := c, crowd := crowd }
  wiring : c.wiring = net.services.wiring

variable {net : Remote} {c : Cluster} {q : Request} {timeout place : Nat} {places : List Nat}
variable {host : Host} {text : String}

theorem Settled.of_wiring (h : net.Settled timeout host) (hw : c.wiring = net.services.wiring) (issued : Nat)
    (crowd : Crowd) : Settled timeout host { net with services := c, issued := issued, crowd := crowd } where
  still := h.still.after c issued crowd
  wired place hhost := by
    rw [Cluster.link_congr hw, Cluster.peers_congr hw]
    exact h.wired place hhost

theorem callRoles_eq_poll (hs : net.Still) (hl : places.length ≤ maxReplicas)
    (hhouses : ∀ place ∈ places, net.Houses place) (ht : 0 < timeout) :
    ∃ crowd, callRoles timeout places q net = (net.heard places (net.services.poll q net.fate places).1,
      { net with services := (net.services.poll q net.fate places).2, crowd := crowd }) := by
  have hlength : (errands timeout q places).length ≤ Network.intimate := by
    rw [errands, List.length_map]
    exact Nat.le_trans hl (by decide)
  have htimeout : ∀ e ∈ errands timeout q places, 0 < e.timeout := by
    intro e he
    obtain ⟨place, -, rfl⟩ := List.mem_map.1 he
    exact ht
  obtain ⟨hanswers, hstate⟩ := @heed_errands net q timeout places hhouses net.services
  refine ⟨{ net.crowd with stamina := Network.leftover net.crowd.stamina (errands timeout q places).length }, ?_⟩
  rw [callRoles_eq, callBy, Network.burst_eq_heed hs (prompt_errands hhouses) hlength htimeout, hanswers, hstate]
  rfl

theorem mapM_inside {α : Type} (f : Nat → StateM Cluster α) (places : List Nat) (net : Remote) :
    places.mapM (fun place => inside (f place)) net =
      ((places.mapM f net.services).1, { net with services := (places.mapM f net.services).2 }) := by
  induction places generalizing net with
  | nil => rfl
  | cons place places ih =>
      have hrest := ih { net with services := (f place net.services).2 }
      rw [List.mapM_cons, List.mapM_cons]
      simp only [bind, StateT.bind, inside, focus] at hrest ⊢
      rw [hrest]
      rfl

theorem callOver_eq_poll (hs : net.Still) {link : Link} (hc : net.Carries timeout link places) :
    ∃ crowd, let p := net.services.poll q (fun peer => if link.cuts net.reach peer then .fail else .pass) places
      (callOver link timeout places q net).1.map Except.toOption = p.1.map Except.toOption ∧
        (callOver link timeout places q net).2 = { net with services := p.2, crowd := crowd } := by
  cases link with
  | direct =>
      let ask (peer : Nat) : StateM Cluster Answer := return .ok (← Cluster.call peer q)
      have hpoll : net.services.poll q (fun peer => if Link.direct.cuts net.reach peer then .fail else .pass) places =
          places.mapM ask net.services := (Cluster.broadcast_eq_poll 0 places q).symm
      have hcall : callOver .direct timeout places q net =
          ((places.mapM ask net.services).1, { net with services := (places.mapM ask net.services).2 }) :=
        mapM_inside ask places net
      rw [hpoll, hcall]
      exact ⟨net.crowd, rfl, rfl⟩
  | network =>
      have hpoll : net.services.poll q (fun peer => if Link.network.cuts net.reach peer then .fail else .pass) places =
          net.services.poll q net.fate places := by
        refine Cluster.poll_congr fun peer _ => ?_
        rw [Link.cuts, fate, reach]
        cases net.reaches (Host.roles peer).name <;> rfl
      obtain ⟨ht, hlength, hhouses⟩ := hc rfl
      obtain ⟨crowd, hcall⟩ := callRoles_eq_poll hs hlength hhouses ht
      rw [hpoll, callOver, hcall]
      exact ⟨crowd, map_toOption_heard places net.services, rfl⟩

theorem mirrors_surroundings (h : net.Settled timeout (.front place)) :
    (Cluster.cutOff ((net.services.link place).cuts net.reach) place).Mirrors (surroundings timeout place)
      (net.Carries timeout (net.services.link place)) (Serving net) where
  peers c net' hs := by
    obtain ⟨⟨crowd, rfl⟩, hw⟩ := hs
    refine ⟨⟨rfl, ⟨crowd, rfl⟩, hw⟩, ?_⟩
    show net.Carries timeout (net.services.link place) (c.peers place)
    rw [Cluster.peers_congr hw]
    exact h.wired place rfl
  issue c net' hs := by
    obtain ⟨⟨crowd, rfl⟩, hw⟩ := hs
    exact ⟨rfl, ⟨crowd, rfl⟩, (Cluster.wiring_issue place c).trans hw⟩
  broadcast peers q c net' hc hs := by
    obtain ⟨⟨crowd, rfl⟩, hw⟩ := hs
    let during : Remote := { net with services := c, crowd := crowd }
    have hcall : (surroundings timeout place).broadcast peers q during =
        callOver (net.services.link place) timeout peers q during := by
      rw [← Cluster.link_congr hw]
      rfl
    have hstill : during.Still := h.still.after c net.issued crowd
    obtain ⟨crowd', hanswers, hstate⟩ := @callOver_eq_poll during q timeout peers hstill _ hc
    rw [hcall]
    exact ⟨hanswers.symm, ⟨crowd', hstate⟩, (Cluster.wiring_poll c).trans hw⟩

theorem propose_serving (h : net.Settled timeout (.front place)) (action : Action) :
    let e := Cluster.cutOff ((net.services.link place).cuts net.reach) place
    Agree (Serving net) (net.services.proposeIn e place action net.services) (propose timeout place action net) := by
  intro e
  have hserving : Serving net net.services net := ⟨⟨net.crowd, rfl⟩, rfl⟩
  show Agree _ _ (net.services.proposeIn (surroundings timeout place) place action net)
  cases hp : net.services.proposers[place]? with
  | none =>
      simp only [Cluster.proposeIn, hp]
      exact ⟨rfl, hserving⟩
  | some p =>
      simp only [Cluster.proposeIn, hp]
      exact (mirrors_surroundings h).attempts p.config p.id action p.config.maxRounds.toNat hserving

theorem access_serving (h : net.Settled timeout (.front place)) (a : Access) :
    Agree (Serving net) (Cluster.accessOver net.reach place a net.services) (access timeout place a net) := by
  have hwrite (action : Action) : Agree (Serving net)
      ((do
        let c ← get
        return .committed (← c.proposeIn (Cluster.cutOff ((c.link place).cuts net.reach) place) place action).isOk :
          StateM Cluster AccessReply) net.services)
      ((do return .committed (← propose timeout place action).isOk : StateM Remote AccessReply) net) := by
    obtain ⟨houtcome, hstate⟩ := propose_serving h action
    exact ⟨congrArg (fun outcome => AccessReply.committed (Except.isOk outcome)) houtcome, hstate⟩
  cases a with
  | get key => exact ⟨rfl, ⟨net.crowd, rfl⟩, rfl⟩
  | put key value => exact hwrite (.put key value)
  | delete key => exact hwrite (.delete key)

theorem serve_serving (h : net.Settled timeout host) (text : String) :
    Agree (Serving net) (Cluster.tell net.reach host text net.services) ((hosting timeout).serve host text net) := by
  cases host with
  | roles place =>
      cases hq : (Wire.ofText? text : Option Request) with
      | none =>
          simp only [Cluster.tell, hosting, serveRoles, hq]
          exact ⟨rfl, ⟨net.crowd, rfl⟩, rfl⟩
      | some q =>
          simp only [Cluster.tell, hosting, serveRoles, hq]
          exact ⟨rfl, ⟨net.crowd, rfl⟩, Cluster.wiring_call place q net.services⟩
  | front place =>
      cases ha : (Wire.ofText? text : Option Access) with
      | none =>
          simp only [Cluster.tell, hosting, serveFront, ha]
          exact ⟨rfl, ⟨net.crowd, rfl⟩, rfl⟩
      | some a =>
          obtain ⟨hreply, hstate⟩ := access_serving h a
          simp only [Cluster.tell, hosting, serveFront, ha]
          exact ⟨congrArg (fun reply => Served.response (Service.responseText Access (.ok reply)) none) hreply, hstate⟩

theorem meets_tell (h : net.Settled timeout host) (text : String) :
    Network.Meets (hosting timeout) net host text (Cluster.tell net.reach host text net.services).1
      (Cluster.tell net.reach host text net.services).2 := by
  intro issued crowd
  let inner : Remote := { net with issued := issued, crowd := ⟨issued, [], [], Network.vigor - 1⟩ }
  have hinner : inner.Settled timeout host := h.of_wiring rfl issued _
  obtain ⟨hserved, ⟨crowd', hstate⟩, -⟩ := serve_serving hinner text
  have hserve : (hosting timeout).serve host text inner = ((Cluster.tell net.reach host text net.services).1,
      { inner with services := (Cluster.tell net.reach host text net.services).2, crowd := crowd' }) :=
    Prod.ext hserved.symm hstate
  exact congrArg (fun p : Served × Remote => (p.1, { p.2 with crowd := crowd })) hserve

theorem wiring_tell (h : net.Settled timeout host) (text : String) :
    (Cluster.tell net.reach host text net.services).2.wiring = net.services.wiring :=
  (serve_serving h text).2.wiring

theorem Houses.insert (h : net.Houses place) {name : String} {m : Node Host}
    (hm : name = (Host.roles place).name → m.host = .roles place ∧ m.alive = true) (c : Cluster) :
    Houses { net with nodes := net.nodes.insert name m, services := c } place := by
  intro m' hm'
  by_cases hname : (Host.roles place).name = name
  · have hnode := Network.getElem?_of_route? hm'
    rw [hname, Std.ExtTreeMap.getElem?_insert_self] at hnode
    exact Option.some.inj hnode ▸ hm hname.symm
  · rw [Network.route?_insert_of_ne hname] at hm'
    exact h m' hm'

theorem Settled.insert (h : net.Settled timeout host) {name : String} {m : Node Host} (hmailbox : m.mailbox = [])
    (hwork : m.work = .listening)
    (hm : ∀ place, net.Houses place → name = (Host.roles place).name → m.host = .roles place ∧ m.alive = true) :
    Settled timeout host { net with nodes := net.nodes.insert name m } where
  still := h.still.insert name hmailbox hwork net.services
  wired place hhost hlink := by
    obtain ⟨ht, hlength, hhouses⟩ := h.wired place hhost hlink
    exact ⟨ht, hlength, fun peer hpeer => (hhouses peer hpeer).insert (hm peer (hhouses peer hpeer)) net.services⟩

theorem Settled.renew (h : net.Settled timeout host) {n : Node Host} {name : String} (hr : net.route? name = some n) :
    Settled timeout host (net.renew (hosting timeout) name n) :=
  h.insert rfl rfl fun _ hhouses hname => ⟨(hhouses n (hname ▸ hr)).1, rfl⟩

theorem Settled.register (h : net.Settled timeout host) {name : String} {host' : Host}
    (hn : ∀ place, name = (Host.roles place).name → host' = .roles place) :
    Settled timeout host (net.register name host') :=
  h.insert rfl rfl fun place _ hname => ⟨hn place hname, rfl⟩

theorem reach_renew (h : net.Still) {n : Node Host} {name : String} (hr : net.route? name = some n)
    (ha : n.alive = true) (timeout : Nat) : reach (net.renew (hosting timeout) name n) = net.reach := by
  funext peer
  rw [reach, reach, Network.reaches, Network.reaches]
  by_cases hname : (Host.roles peer).name = name
  · rw [hname, hr, Network.route?_renew_self h hr ha]
    rfl
  · rw [Network.renew, Network.route?_insert_of_ne hname]

/-- A network that is fit for a client's calls: the node is listed under the name, and was built anew some more
times. -/
structure Open (timeout : Nat) (fit : Remote → Prop) (reach : Nat → Bool) (name : String) (n : Node Host) (more : Nat)
    (c : Cluster) (net : Remote) : Prop where
  settled : net.Settled timeout n.host
  fit : fit net
  route : net.route? name = some { n with built := n.built + more }
  reach : net.reach = reach
  services : net.services = c

section

variable {fit : Remote → Prop} {call : Errand → Remote → Except CallError String × Remote} {reach : Nat → Bool}
variable {name : String} {n : Node Host} {more wait : Nat}

theorem Open.inquire (h : Open timeout fit reach name n more c net) (hd : Network.Delivers (hosting timeout) fit call)
    (ha : n.alive = true) (hw : 0 < wait) (text : String) :
    Agree (Open timeout fit reach name n (more + if n.host.reads text then 0 else 1))
      (Cluster.converse reach n.host name text c) (inquire call name wait text net) := by
  obtain ⟨hsettled, hfit, hroute, rfl, rfl⟩ := h
  have hmeets := meets_tell hsettled text
  have hwiring := wiring_tell hsettled text
  by_cases hr : n.host.reads text
  · obtain ⟨response, hserved⟩ := @Cluster.tell_of_readable net.reach n.host text hr net.services
    rw [hserved] at hmeets
    obtain ⟨issued, crowd, hcall, hnext⟩ := hd.answer net ⟨name, text, wait⟩ _ response _ hfit hsettled.still hroute ha
      hw hmeets
    rw [if_pos hr, Remote.inquire, Cluster.converse, hcall, hserved]
    exact ⟨rfl, hsettled.of_wiring hwiring issued crowd, hnext, hroute, rfl, rfl⟩
  · have hserved := @Cluster.tell_of_unreadable net.reach n.host text hr net.services
    rw [hserved] at hmeets
    obtain ⟨issued, crowd, hcall, hnext⟩ := hd.failure net ⟨name, text, wait⟩ _ _ hfit hsettled.still hroute ha hw
      hmeets
    have hrenewed := (hsettled.renew hroute).of_wiring rfl issued crowd
    have hlisted := Network.route?_renew_self (h := hosting timeout) hsettled.still hroute ha
    rw [if_neg hr, Remote.inquire, Cluster.converse, hcall, hserved]
    exact ⟨rfl, hrenewed, hnext, hlisted, reach_renew hsettled.still hroute ha timeout, rfl⟩

theorem inquiries_cons (text : String) (texts : List String) (net : Remote) :
    inquiries call name wait (text :: texts) net =
      let p := inquire call name wait text net
      let rest := inquiries call name wait texts p.2
      (p.1 :: rest.1, rest.2) := by
  rw [inquiries, List.mapM_cons]
  rfl

/-- A client hears over the network what it would hear from a node to which it speaks directly. -/
theorem Open.inquiries (h : Open timeout fit reach name n more c net) (hd : Network.Delivers (hosting timeout) fit call)
    (ha : n.alive = true) (hw : 0 < wait) (texts : List String) :
    Agree (Open timeout fit reach name n (more + texts.countP (!n.host.reads ·)))
      (texts.mapM (Cluster.converse reach n.host name) c) (inquiries call name wait texts net) := by
  induction texts generalizing more c net with
  | nil => exact ⟨rfl, h⟩
  | cons text texts ih =>
      obtain ⟨hfirst, hnext⟩ := h.inquire hd ha hw text
      obtain ⟨hrest, hend⟩ := ih hnext
      have hcount : more + (if n.host.reads text then 0 else 1) + texts.countP (!n.host.reads ·) =
          more + (text :: texts).countP (!n.host.reads ·) := by
        rw [List.countP_cons, Nat.add_assoc, Nat.add_comm (ite ..)]
        cases n.host.reads text <;> rfl
      rw [Cluster.mapM_converse_cons, inquiries_cons]
      exact ⟨List.cons_eq_cons.2 ⟨hfirst, hrest⟩, hcount ▸ hend⟩

/-- Texts that a node cannot read do no harm, in whatever order they come between others. Their own calls fail and
leave the services alone, all other calls are answered and come to what they come to without them, and for each of
them the node is built anew once and listed again. Altogether a client hears what it would hear directly. -/
structure Harmless (call : Errand → Remote → Except CallError String × Remote) (name : String) (wait : Nat)
    (n : Node Host) (net : Remote) : Prop where
  failed : ∀ texts, ∀ x ∈ (inquiries call name wait texts net).1, ¬ n.host.reads x.text →
    x.result = .error (.unreceived name) ∧ x.after = x.before
  answered : ∀ texts, ∀ x ∈ (inquiries call name wait texts net).1, n.host.reads x.text → ∃ response,
    x.result = .ok response
  same : ∀ texts, (inquiries call name wait (texts.filter n.host.reads) net).1 =
    (inquiries call name wait texts net).1.filter (n.host.reads ·.text)
  relisted : ∀ texts, (inquiries call name wait texts net).2.route? name =
    some { n with built := n.built + texts.countP (!n.host.reads ·) }
  direct : ∀ texts, (inquiries call name wait texts net).1 =
    (texts.mapM (Cluster.converse net.reach n.host name) net.services).1

theorem harmless_of_delivers (h : net.Settled timeout n.host) (hfit : fit net)
    (hd : Network.Delivers (hosting timeout) fit call) (hr : net.route? name = some n) (ha : n.alive = true)
    (hw : 0 < wait) : Harmless call name wait n net := by
  have hopen : Open timeout fit net.reach name n 0 net.services net := ⟨h, hfit, hr, rfl, rfl⟩
  have hagree texts := hopen.inquiries hd ha hw texts
  have hmem {texts : List String} {x : Inquiry} (hx : x ∈ (inquiries call name wait texts net).1) :
      x = (Cluster.converse net.reach n.host name x.text x.before).1 := by
    rw [← (hagree texts).1] at hx
    exact Cluster.eq_converse_of_mem hx
  constructor
  case failed =>
    intro texts x hx hreads
    have htell := @Cluster.tell_of_unreadable net.reach n.host x.text hreads x.before
    rw [hmem hx]
    exact ⟨congrArg (fun p => p.1.returned name) htell, congrArg Prod.snd htell⟩
  case answered =>
    intro texts x hx hreads
    obtain ⟨response, htell⟩ := @Cluster.tell_of_readable net.reach n.host x.text hreads x.before
    rw [hmem hx]
    exact ⟨response, congrArg (Served.returned name) htell⟩
  case same =>
    intro texts
    rw [← (hagree texts).1, ← (hagree _).1, Cluster.mapM_converse_filter]
  case relisted =>
    intro texts
    rw [(hagree texts).2.route, Nat.zero_add]
  case direct => exact fun texts => (hagree texts).1.symm

end

/-! Networks that are settled. -/

theorem settled_fresh (ht : 0 < timeout) (hc : ∀ place, (c.peers place).length ≤ maxReplicas) (host : Host) :
    Settled timeout host (Network.fresh c) where
  still := still_fresh c
  wired place _ _ := ⟨ht, hc place, fun peer _ n hn => by
    simpa [Network.fresh] using Network.getElem?_of_route? hn⟩

theorem Settled.foldl_register (h : net.Settled timeout host) (f : Nat → Host) (places : List Nat) :
    Settled timeout host (places.foldl (fun net place => net.register (f place).name (f place)) net) := by
  induction places generalizing net with
  | nil => exact h
  | cons place places ih => exact ih (h.register fun _ => Host.eq_roles_of_name)

theorem settled_ofFronts (ht : 0 < timeout) (hc : ∀ place, (c.peers place).length ≤ maxReplicas) (host : Host) :
    (ofFronts c).Settled timeout host :=
  ((settled_fresh ht hc host).foldl_register Host.roles c.places).foldl_register Host.front c.places

/-- Malformed requests are harmless to replicas and fronts, be it that calls are answered at once or that everybody acts
by turns. -/
theorem malformed_harmless {name : String} {n : Node Host} {wait : Nat} (h : net.Settled timeout n.host)
    (hr : net.route? name = some n) (ha : n.alive = true) (hw : 0 < wait) :
    Harmless (Network.call (hosting timeout)) name wait n net ∧
      (0 < net.places → 1 < net.crowd.stamina →
        Harmless (Network.callByTurns (hosting timeout)) name wait n net) :=
  ⟨harmless_of_delivers h trivial (Network.delivers_call _) hr ha hw, fun hplaces hstamina =>
    harmless_of_delivers h ⟨hplaces, hstamina⟩ (Network.delivers_byTurns _) hr ha hw⟩

/-- A put comes between two texts that cannot be read. -/
theorem malformed_harmless_three :
    let c := Cluster.plain 3 [⟨0, 0, by decide⟩]
    let net := ofFronts (c.wireAll .network)
    let n : Node Host := ⟨.front 0, true, true, 1, [], .listening⟩
    net.Settled 3000 n.host ∧ net.route? "kv-0" = some n ∧ n.alive = true ∧ 0 < 3000 ∧
      0 < net.places ∧ 1 < net.crowd.stamina ∧
      Harmless (Network.call (hosting 3000)) "kv-0" 3000 n net ∧
      Harmless (Network.callByTurns (hosting 3000)) "kv-0" 3000 n net ∧
      (inquiries (Network.call (hosting 3000)) "kv-0" 3000 ["\x7b", Wire.toText (Access.put "k" "v"), "[]"] net).1.map
          (fun x => (x.result, x.after.values "k")) =
        [(.error (.unreceived "kv-0"), [none, none, none]),
          (.ok "\x7b\"data\":\x7b\"Ok\":true\x7d\x7d", [some "v", some "v", some "v"]),
          (.error (.unreceived "kv-0"), [some "v", some "v", some "v"])] := by
  intro c net n
  have hpeers (place : Nat) : ((c.wireAll .network).peers place).length ≤ maxReplicas :=
    Nat.le_trans (c.length_peers_wireAll .network place) (by decide)
  have hsettled : net.Settled 3000 n.host := settled_ofFronts (by decide) hpeers n.host
  have hroute : net.route? "kv-0" = some n := rfl
  have halive : n.alive = true := rfl
  have hw : 0 < 3000 := by decide
  have hplaces : 0 < net.places := by decide +kernel
  have hstamina : 1 < net.crowd.stamina := by decide +kernel
  obtain ⟨hcall, hturns⟩ := @malformed_harmless net 3000 "kv-0" n 3000 hsettled hroute halive hw
  refine ⟨hsettled, hroute, halive, hw, hplaces, hstamina, hcall, hturns hplaces hstamina, ?_⟩
  rw [hcall.direct]
  decide +kernel

end Remote

end SynodStore

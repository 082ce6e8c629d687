import SynodStore.Network.Clock

namespace SynodStore

structure Errand where
  node : String
  text : String
  timeout : Nat

abbrev Returns := List (Except CallError String)

namespace Network

variable {κ σ : Type}

def convene (net : Network κ σ) (errands : List Errand) : Network κ σ :=
  { net with
    issued := net.issued + errands.length
    crowd := ⟨net.issued, errands.map fun e => ⟨e.node, e.text, e.timeout, net.now + clockSpan e.timeout, .fresh⟩,
      List.range' net.issued errands.length, net.crowd.stamina⟩ }

def disband (net : Network κ σ) : Network κ σ :=
  { net with crowd := ⟨net.issued, [], [], net.crowd.stamina⟩ }

def byTurns (h : Hosting κ σ) (errands : List Errand) (net : Network κ σ) : Returns × Network κ σ :=
  let net := (net.convene errands).gather
  let net := await h net.ample net
  (net.crowd.results?.getD [], net.disband)

def quiet (net : Network κ σ) : Bool :=
  net.line = .carrying && net.queue.isEmpty && net.waiting.isEmpty && net.held.isNone && net.awake.isEmpty &&
    net.resting.isEmpty && net.nodes.toList.all fun (_, n) => n.mailbox.isEmpty && n.work = .listening

/-- Makes calls one after another, if none of them makes its caller wait or takes a later one along. -/
def oneByOne? (h : Hosting κ σ) : List Errand → Network κ σ → Option (Returns × Network κ σ)
  | [], net => some ([], net)
  | e :: es, net =>
    match (net.route? e.node).filter (·.alive) with
    | none => (oneByOne? h es net).map fun p => (.error (.unreceived e.node) :: p.1, p.2)
    | some n =>
      match employ h (vigor - 1) n.host e.text net with
      | (.response text none, net) => (oneByOne? h es net).map fun p => (.ok text :: p.1, p.2)
      | (.unreadable, net) => if es.isEmpty then some ([.error (.unreceived e.node)], net.renew h e.node n) else none
      | _ => none

def leftover (stamina calls : Nat) : Nat :=
  if calls = 0 then stamina else if calls ≤ stamina then vigor - calls else vigor - (calls - stamina)

/-- Makes calls one after another where it comes to the same: nothing is under way, and the callers are few and
all answered at once. -/
def swiftly? (h : Hosting κ σ) (errands : List Errand) (net : Network κ σ) : Option (Returns × Network κ σ) :=
  if net.quiet && errands.length ≤ intimate && errands.all (0 < ·.timeout) then
    (oneByOne? h errands net).map fun p => (p.1, p.2.setStamina (leftover net.crowd.stamina errands.length))
  else none

/-- Makes calls at one time, in order, and waits until the last returns. -/
def burst (h : Hosting κ σ) (errands : List Errand) (net : Network κ σ) : Returns × Network κ σ :=
  match swiftly? h errands net with
  | some p => p
  | none => byTurns h errands net

def call (h : Hosting κ σ) (e : Errand) (net : Network κ σ) : Except CallError String × Network κ σ :=
  let p := burst h [e] net
  (p.1.headD (.error (.unreceived e.node)), p.2)

end Network

end SynodStore

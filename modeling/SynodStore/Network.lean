import Std.Data.ExtTreeMap
import Std.Data.ExtTreeSet
import SynodStore.CallError

namespace SynodStore

structure Package where
  ticket : Nat
  node : String
  text : String

inductive Work where
  | listening
  | pausing (ticket : Nat) (response : String) (due : Nat)
  | replying (ticket : Nat) (response : String)
deriving DecidableEq

/-- A named server, which takes the requests from its mailbox one at a time. Where it fails, what is in the
mailbox is lost, and a new instance takes its place if the failure is not for good. -/
structure Node (κ : Type) where
  host : κ
  listed : Bool
  alive : Bool
  built : Nat
  mailbox : List Package
  work : Work

inductive Line where
  | carrying
  | idle
  | down
deriving DecidableEq

/-- How far a caller is. One that is `admitted` has a place on the line for its package, and one that is
`answered` has yet to notice. -/
inductive Standing where
  | fresh
  | waiting
  | admitted
  | sent
  | answered (result : Except CallError String)
  | returned (result : Except CallError String)

structure Caller where
  node : String
  text : String
  timeout : Nat
  deadline : Nat
  standing : Standing

/-- Callers that wait together, with tickets from `first` on. They take turns of their own when some are
`roused`, and `stamina` is what their present turn has left. -/
structure Crowd where
  first : Nat
  callers : List Caller
  roused : List Nat
  stamina : Nat

inductive Party where
  | carrier
  | server (name : String)
  | caller (ticket : Nat)
deriving DecidableEq

/-- What is under way: the packages on the line and the places left there, the callers that wait for a place in
their order, the package in the carrier's hands with the instance that it is for, and the parties that are about
to act or rest from it, who went to rest last first. -/
structure Traffic where
  queue : List Package
  places : Nat
  waiting : List Nat
  held : Option (Package × Nat)
  awake : List Party
  resting : List Party
  crowd : Crowd
  issued : Nat

/-- Servers that can be called by name, on a clock in milliseconds that moves only while a caller waits. The
services behind them share the state `services`. -/
structure Network (κ σ : Type) extends Traffic where
  now : Nat
  line : Line
  nodes : Std.ExtTreeMap String (Node κ)
  unreachable : Std.ExtTreeSet String
  dropping : Bool
  services : σ

inductive Served where
  | response (text : String) (pause : Option Nat)
  | unreadable
  | collapse

structure Hosting (κ σ : Type) where
  serve : κ → String → StateM (Network κ σ) Served
  restart : κ → σ → σ

namespace Network

variable {κ σ : Type}

def capacity : Nat := 100

def vigor : Nat := 128

def noTraffic : Traffic :=
  ⟨[], capacity, [], none, [], [], ⟨0, [], [], vigor⟩, 0⟩

def fresh (services : σ) : Network κ σ :=
  ⟨noTraffic, 0, .carrying, ∅, ∅, false, services⟩

/-- A name belongs to the server registered last under it. -/
def register (net : Network κ σ) (name : String) (host : κ) : Network κ σ :=
  { net with nodes := net.nodes.insert name ⟨host, true, true, 1, [], .listening⟩ }

def names (net : Network κ σ) : List String :=
  (net.nodes.filter fun _ n => n.listed).keys

def unregister (net : Network κ σ) (name : String) : Bool × Network κ σ :=
  (net.nodes[name]?.any (·.listed), { net with nodes := net.nodes.modify name fun n => { n with listed := false } })

def setReachable (net : Network κ σ) (name : String) (up : Bool) : Network κ σ :=
  { net with unreachable := if up then net.unreachable.erase name else net.unreachable.insert name }

def setDropping (net : Network κ σ) (dropping : Bool) : Network κ σ :=
  { net with dropping }

def stop (net : Network κ σ) : Network κ σ :=
  { net with line := .down, queue := [], held := none }

def route? (net : Network κ σ) (name : String) : Option (Node κ) :=
  if net.dropping ∨ name ∈ net.unreachable then none else net.nodes[name]?.filter (·.listed)

def renew (h : Hosting κ σ) (net : Network κ σ) (name : String) (n : Node κ) : Network κ σ :=
  { net with
    nodes := net.nodes.insert name ⟨n.host, true, true, n.built + 1, [], .listening⟩
    services := h.restart n.host net.services }

def bury (net : Network κ σ) (name : String) : Network κ σ :=
  { net with nodes := net.nodes.modify name fun n => { n with alive := false, mailbox := [], work := .listening } }

end Network

end SynodStore

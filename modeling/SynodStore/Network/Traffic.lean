import SynodStore.Network

namespace SynodStore

namespace Crowd

def caller? (c : Crowd) (ticket : Nat) : Option Caller :=
  if ticket < c.first then none else c.callers[ticket - c.first]?

def standing? (c : Crowd) (ticket : Nat) : Option Standing :=
  (c.caller? ticket).map (·.standing)

def tickets (c : Crowd) : List Nat :=
  List.range' c.first c.callers.length

def move (c : Crowd) (ticket : Nat) (standing : Standing) : Crowd :=
  { c with callers := c.callers.modify (ticket - c.first) fun caller => { caller with standing } }

def rouse (c : Crowd) (ticket : Nat) : Crowd :=
  if ticket ∈ c.roused then c else { c with roused := c.roused ++ [ticket] }

def results? (c : Crowd) : Option (List (Except CallError String)) :=
  c.callers.mapM fun caller =>
    match caller.standing with
    | .returned result => some result
    | _ => none

end Crowd

namespace Network

variable {κ σ : Type}

def move (net : Network κ σ) (ticket : Nat) (standing : Standing) : Network κ σ :=
  { net with crowd := net.crowd.move ticket standing }

def rouse (net : Network κ σ) : Party → Network κ σ
  | .caller ticket => { net with crowd := net.crowd.rouse ticket }
  | p => if p ∈ net.awake then net else { net with awake := net.awake ++ [p] }

def alert (net : Network κ σ) (p : Party) : Network κ σ :=
  if p ∈ net.resting then net else net.rouse p

def rest (net : Network κ σ) (p : Party) : Network κ σ :=
  { net with resting := p :: net.resting }

def refresh (net : Network κ σ) : Network κ σ :=
  net.resting.foldl rouse { net with resting := [] }

def awaited (net : Network κ σ) (ticket : Nat) : Bool :=
  (net.crowd.standing? ticket).any (· matches .sent)

def report (net : Network κ σ) (ticket : Nat) (result : Except CallError String) : Network κ σ :=
  if net.awaited ticket then (net.move ticket (.answered result)).alert (.caller ticket) else net

def lose (net : Network κ σ) (p : Package) : Network κ σ :=
  net.report p.ticket (.error (.unreceived p.node))

end Network

end SynodStore

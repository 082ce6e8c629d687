import SynodStore.Network.Traffic

namespace SynodStore.Network

variable {κ σ : Type}

def setStamina (net : Network κ σ) (stamina : Nat) : Network κ σ :=
  { net with crowd := { net.crowd with stamina } }

def spend (net : Network κ σ) : Network κ σ :=
  net.setStamina (net.crowd.stamina - 1)

def enter (net : Network κ σ) (ticket : Nat) : Network κ σ :=
  if net.line = .down then net.move ticket (.returned (.error .networkDown))
  else if net.places = 0 then ({ net with waiting := net.waiting ++ [ticket] }).move ticket .waiting
  else ({ net with places := net.places - 1 }).move ticket .admitted

def send (net : Network κ σ) (ticket : Nat) (c : Caller) : Network κ σ :=
  let p : Package := ⟨ticket, c.node, c.text⟩
  let net := (({ net with queue := net.queue ++ [p] }).move ticket .sent).spend
  if net.held.isNone then net.alert .carrier else net

def proceed (net : Network κ σ) (ticket : Nat) (c : Caller) : Network κ σ :=
  let net := if c.standing matches .fresh then net.enter ticket else net
  if net.crowd.stamina = 0 then net
  else
    match net.crowd.standing? ticket with
    | some .admitted => net.send ticket c
    | some (.answered result) => (net.move ticket (.returned result)).spend
    | _ => net

def abandon (net : Network κ σ) (ticket : Nat) (c : Caller) : Network κ σ :=
  (({ net with waiting := net.waiting.erase ticket }).move ticket
    (.returned (.error (.timedOut c.node c.timeout)))).spend

/-- A caller's part in a turn. Where no operation is left it can neither get on nor look at the clock. -/
def act (net : Network κ σ) (ticket : Nat) : Network κ σ :=
  match net.crowd.caller? ticket with
  | none => net
  | some c =>
    let tired := net.crowd.stamina = 0
    let net := net.proceed ticket c
    match net.crowd.standing? ticket with
    | none | some (.returned _) => net
    | some _ =>
      if tired then net.rest (.caller ticket)
      else if c.deadline ≤ net.now then net.abandon ticket c
      else if net.crowd.stamina = 0 then net.rest (.caller ticket)
      else net

/-- In a turn of so many callers all act in order. Of more only those act that have been roused, in that order. -/
def intimate : Nat := 30

def gather (net : Network κ σ) : Network κ σ :=
  let tickets := if net.crowd.callers.length ≤ intimate then net.crowd.tickets else net.crowd.roused
  tickets.foldl act { net with crowd := { net.crowd with roused := [] } }

end SynodStore.Network

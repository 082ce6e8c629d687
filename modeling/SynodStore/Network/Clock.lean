import SynodStore.Network.Carrier
import SynodStore.Network.Crowd
import SynodStore.Network.Server

namespace SynodStore

/-- A time span as the clock has it. Where the nanoseconds would need more than 64 bits it is thirty years. -/
def clockSpan (milliseconds : Nat) : Nat :=
  if milliseconds * 1000000 < UInt64.size then milliseconds else 30 * 365 * 86400000

def Work.due? : Work → Option Nat
  | pausing _ _ due => some due
  | _ => none

def Caller.deadline? (c : Caller) : Option Nat :=
  if c.standing matches .returned _ then none else some c.deadline

namespace Network

variable {κ σ : Type}

def turn (h : Hosting κ σ) (net : Network κ σ) : Party → Network κ σ
  | .carrier => if net.line = .carrying then carry vigor net else net
  | .server name => attend h name vigor net
  | .caller _ => net

def work (h : Hosting κ σ) : Nat → Network κ σ → Network κ σ
  | 0, net => net
  | n + 1, net =>
    match net.awake with
    | [] => net
    | p :: awake => work h n (turn h { net with awake } p)

def nextEvent? (net : Network κ σ) : Option Nat :=
  (net.nodes.values.filterMap (·.work.due?) ++ net.crowd.callers.filterMap (·.deadline?)).min?

def advance (net : Network κ σ) (time : Nat) : Network κ σ :=
  let due := net.nodes.filter fun _ n => n.work.due?.any (· ≤ time)
  let late := net.crowd.tickets.filter fun t => ((net.crowd.caller? t).bind (·.deadline?)).any (· ≤ time)
  (due.keys.map Party.server ++ late.map Party.caller).foldl rouse { net with now := max net.now time }

/-- Turns that suffice for whatever is under way: no package takes part in more than a few, and no server has
more to itself. -/
def ample (net : Network κ σ) : Nat :=
  64 * (4 + net.crowd.callers.length + net.queue.length + net.nodes.size +
    net.nodes.values.foldl (fun n node => n + node.mailbox.length) 0)

/-- Lets everybody act until all callers have returned. When nobody has anything to do the clock moves on. -/
def await (h : Hosting κ σ) : Nat → Network κ σ → Network κ σ
  | 0, net => net
  | n + 1, net =>
    let net := if net.crowd.roused.isEmpty then net else (net.setStamina vigor).gather
    if net.crowd.results?.isSome then net
    else
      let net := (work h n net).refresh
      if net.awake.isEmpty && net.crowd.roused.isEmpty then
        match net.nextEvent? with
        | none => net
        | some time => await h n (net.advance time)
      else await h n net

def drift (h : Hosting κ σ) (time : Nat) : Nat → Network κ σ → Network κ σ
  | 0, net => net
  | n + 1, net =>
    let net := (work h n net).refresh
    if net.awake.isEmpty then
      match net.nextEvent?.filter (· < time) with
      | none => net.advance time
      | some t => drift h time n (net.advance t)
    else drift h time n net

def sleep (h : Hosting κ σ) (milliseconds : Nat) (net : Network κ σ) : Network κ σ :=
  if milliseconds = 0 ∧ net.crowd.stamina ≠ 0 then net.spend
  else (drift h (net.now + clockSpan milliseconds) net.ample net).setStamina (vigor - 1)

end Network

end SynodStore

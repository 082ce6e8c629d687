import SynodStore.Network.Traffic

namespace SynodStore.Network

variable {κ σ : Type}

def setWork (net : Network κ σ) (name : String) (work : Work) : Network κ σ :=
  { net with nodes := net.nodes.modify name fun n => { n with work } }

def setMailbox (net : Network κ σ) (name : String) (mailbox : List Package) : Network κ σ :=
  let net := { net with nodes := net.nodes.modify name fun n => { n with mailbox } }
  if net.held.any (·.1.node = name) then net.alert .carrier else net

/-- Puts a service to work. Callers of its own, whose first turn is that of the server, do not meet those
outside. -/
def employ (h : Hosting κ σ) (stamina : Nat) (host : κ) (text : String) (net : Network κ σ) :
    Served × Network κ σ :=
  let (served, inner) := h.serve host text { net with crowd := ⟨net.issued, [], [], stamina⟩ }
  (served, { inner with crowd := net.crowd })

def reply (net : Network κ σ) (name : String) (ticket : Nat) (response : String) : Network κ σ :=
  net.setWork name (if net.awaited ticket then .replying ticket response else .listening)

/-- What follows when a service has worked on a request. A failure takes along what is in the mailbox. -/
def conclude (h : Hosting κ σ) (net : Network κ σ) (p : Package) (n : Node κ) : Served → Network κ σ
  | .response text none => net.reply p.node p.ticket text
  | .response text (some pause) => net.setWork p.node (.pausing p.ticket text (net.now + pause))
  | .unreadable => (p :: n.mailbox).foldl lose ((net.setMailbox p.node []).renew h p.node n)
  | .collapse => (p :: n.mailbox).foldl lose ((net.setMailbox p.node []).bury p.node)

def attend (h : Hosting κ σ) (name : String) : Nat → Network κ σ → Network κ σ
  | stamina, net =>
    match net.nodes[name]?.filter (·.alive) with
    | none => net
    | some n =>
      match stamina, n.work, n.mailbox with
      | 0, .pausing _ _ due, _ => if net.now < due then net else net.rest (.server name)
      | stamina + 1, .pausing ticket response due, _ =>
        if net.now < due then net else attend h name stamina (net.reply name ticket response)
      | 0, .replying .., _ | 0, .listening, _ => net.rest (.server name)
      | stamina + 1, .replying ticket response, _ =>
        attend h name stamina ((net.setWork name .listening).report ticket (.ok response))
      | _ + 1, .listening, [] => net
      | stamina + 1, .listening, p :: mailbox =>
        let (served, net) := employ h stamina n.host p.text (net.setMailbox name mailbox)
        attend h name stamina (conclude h net p { n with mailbox } served)

end SynodStore.Network

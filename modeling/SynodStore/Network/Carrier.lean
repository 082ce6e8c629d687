import SynodStore.Network.Traffic

namespace SynodStore.Network

variable {κ σ : Type}

def vacate (net : Network κ σ) : Network κ σ :=
  match net.waiting with
  | [] => { net with places := net.places + 1 }
  | ticket :: waiting => (({ net with waiting }).move ticket .admitted).rouse (.caller ticket)

def collect (net : Network κ σ) (p : Package) (queue : List Package) : Network κ σ :=
  let net := ({ net with queue }).vacate
  match net.route? p.node with
  | none => net.lose p
  | some n => { net with held := some (p, n.built) }

def shed (net : Network κ σ) : Network κ σ :=
  match net.held with
  | none => net
  | some (p, built) =>
    if net.nodes[p.node]?.any fun n => n.alive && n.built = built then net
    else ({ net with held := none }).lose p

def full (net : Network κ σ) (name : String) : Bool :=
  net.nodes[name]?.any (capacity ≤ ·.mailbox.length)

def deposit (net : Network κ σ) (p : Package) : Network κ σ :=
  let net := { net with
    held := none
    nodes := net.nodes.modify p.node fun n => { n with mailbox := n.mailbox ++ [p] } }
  if net.nodes[p.node]?.any (·.work = .listening) then net.alert (.server p.node) else net

def carry : Nat → Network κ σ → Network κ σ
  | stamina, net =>
    let net := net.shed
    match stamina, net.held, net.queue with
    | 0, some (p, _), _ => if net.full p.node then net else net.rest .carrier
    | stamina + 1, some (p, _), _ => if net.full p.node then net else carry stamina (net.deposit p)
    | 0, none, _ => net.rest .carrier
    | stamina + 1, none, p :: queue => carry stamina (net.collect p queue)
    | _ + 1, none, [] => net

end SynodStore.Network

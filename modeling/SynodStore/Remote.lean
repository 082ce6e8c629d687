import SynodStore.Cluster
import SynodStore.Focus
import SynodStore.Network.Burst

namespace SynodStore

/-- What a node of a networked cluster serves: the roles of the replica at a place, or its clients. -/
inductive Host where
  | roles (place : Nat)
  | front (place : Nat)
deriving DecidableEq

def Host.name : Host → String
  | roles place => "role-" ++ toString place
  | front place => "kv-" ++ toString place

abbrev Remote := Network Host Cluster

namespace Remote

def patience : Nat := 3000

def inside {α : Type} (f : StateM Cluster α) : StateM Remote α :=
  focus (·.services) (fun services net => { net with services }) f

def serveRoles (place : Nat) (text : String) : StateM Remote Served :=
  match (Wire.ofText? text : Option Request) with
  | none => return .unreadable
  | some q => do
    let reply ← inside (Cluster.call place q)
    return .response (Service.responseText Request (.ok reply)) none

def rolesHosting : Hosting Host Cluster where
  serve
    | .roles place => serveRoles place
    | .front _ => fun _ => return .unreadable
  restart _ c := c

def callRoles (timeout : Nat) (places : List Nat) (q : Request) : StateM Remote (List Answer) := do
  let names := places.map fun place => (Host.roles place).name
  let text := Wire.toText q
  let results ← modifyGet (Network.burst rolesHosting (names.map fun name => ⟨name, text, timeout⟩))
  return List.zipWith (fun name r => r.bind (Service.interpret name q)) names results

def callOver (link : Link) (timeout : Nat) (places : List Nat) (q : Request) : StateM Remote (List Answer) :=
  match link with
  | .direct => places.mapM fun place => return .ok (← inside (Cluster.call place q))
  | .network => callRoles timeout places q

def surroundings (timeout place : Nat) : Surroundings (StateM Remote) where
  peers := return (← get).services.peers place
  issue := inside (Cluster.issue place)
  broadcast peers q := do
    callOver ((← get).services.link place) timeout peers q

def propose (timeout place : Nat) (action : Action) : StateM Remote (Except Failure Ballot) := do
  (← get).services.proposeIn (surroundings timeout place) place action

def access (timeout place : Nat) (a : Access) : StateM Remote AccessReply :=
  a.serve (fun key => return (← get).services.read place key) (propose timeout place)

def serveFront (timeout place : Nat) (text : String) : StateM Remote Served :=
  match (Wire.ofText? text : Option Access) with
  | none => return .unreadable
  | some a => do
    let reply ← access timeout place a
    return .response (Service.responseText Access (.ok reply)) none

def hosting (timeout : Nat) : Hosting Host Cluster where
  serve
    | .roles place => serveRoles place
    | .front place => serveFront timeout place
  restart _ c := c

def ofRoles (c : Cluster) : Remote :=
  c.places.foldl (fun net place => net.register (Host.roles place).name (.roles place)) (.fresh c)

def ofFronts (c : Cluster) : Remote :=
  c.places.foldl (fun net place => net.register (Host.front place).name (.front place)) (ofRoles c)

end Remote

end SynodStore

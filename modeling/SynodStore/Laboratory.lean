import SynodStore.Remote
import SynodStore.Service.Trial
import SynodStore.Snapshot

namespace SynodStore

namespace Laboratory

inductive Bench where
  | roles (cluster : Cluster)
  | front (cluster : Cluster)
  | trial (total : UInt64)

abbrev Lab := Network Nat (List Bench)

def serveTrial (total : UInt64) (text : String) : Served × UInt64 :=
  match (Wire.ofText? text : Option Trial) with
  | none => (.unreadable, total)
  | some t =>
    match t.serve? total with
    | none => (.collapse, total)
    | some (answer, pause, total) => (.response (Service.responseText Trial answer) (pause.map clockSpan), total)

def secluded (f : StateM Remote Served) (c : Cluster) : Served × Cluster :=
  let p := f (.fresh c)
  (p.1, p.2.services)

def Bench.serve (text : String) : Bench → Served × Bench
  | .roles c =>
    let p := secluded (Remote.serveRoles 0 text) c
    (p.1, .roles p.2)
  | .front c =>
    let p := secluded (Remote.serveFront 0 0 text) c
    (p.1, .front p.2)
  | .trial total =>
    let p := serveTrial total text
    (p.1, .trial p.2)

/-- A new instance of the trial service counts from zero; the others serve the replica that is there. -/
def Bench.restart : Bench → Bench
  | .trial _ => .trial 0
  | b => b

def hosting : Hosting Nat (List Bench) where
  serve place text := fun net =>
    match net.services[place]? with
    | none => (.unreadable, net)
    | some b =>
      let p := b.serve text
      (p.1, { net with services := net.services.set place p.2 })
  restart place benches := benches.modify place Bench.restart

inductive Kind where
  | roles
  | front
  | trial

def lone (clock : Int) : Cluster :=
  ⟨[.start 0 none (.ofSeed 0)],
    [⟨0, { Config.standard with clusterSize := 1, crash := none }, ⟨0, UInt64.ofNat clock.toNat, by decide⟩, [0],
      .direct⟩]⟩

def Kind.bench (clock : Int) : Kind → Bench
  | roles => .roles (lone clock)
  | front => .front (lone clock)
  | trial => .trial 0

def patience : Nat := 3000

inductive Call where
  | trial (node : String) (timeout : Nat) (request : Trial)
  | raw (node : String) (timeout : Nat) (text : String)

inductive Step where
  | call (call : Call)
  | burst (calls : List Call)
  | built (node : String)
  | nodes
  | unregister (node : String)
  | snap (node : String)
  | reachable (node : String) (up : Bool)
  | dropping (all : Bool)
  | sleep (milliseconds : Nat)
  | stop

inductive Reply where
  | trial (reply : TrialReply)
  | text (response : String)

inductive Result where
  | done
  | answered (answer : Except CallError Reply)
  | answers (answers : List (Except CallError Reply))
  | count (n : Nat)
  | names (names : List String)
  | flag (b : Bool)
  | snapshot (snapshot : Option Snapshot)

namespace Call

def errand : Call → Errand
  | trial node timeout t => ⟨node, Wire.toText t, timeout⟩
  | raw node timeout text => ⟨node, text, timeout⟩

def interpret : Call → Except CallError String → Except CallError Reply
  | trial node _ t, r => (r.bind (Service.interpret node t)).map .trial
  | raw _ _ _, r => r.map .text

end Call

def Bench.snapshot? (keys : List String) : Bench → Option Snapshot
  | .roles c | .front c => c.replicas.head?.map (·.snapshot keys)
  | .trial _ => none

def snapshot? (keys : List String) (net : Lab) (node : String) : Option Snapshot := do
  (← net.services[(← net.nodes[node]?).host]?).snapshot? keys

def burst (calls : List Call) (net : Lab) : List (Except CallError Reply) × Lab :=
  let (answers, net) := net.burst hosting (calls.map Call.errand)
  (List.zipWith Call.interpret calls answers, net)

def perform (keys : List String) : Step → StateM Lab Result
  | .call c => return .answered (c.interpret (← modifyGet (Network.call hosting c.errand)))
  | .burst calls => return .answers (← modifyGet (burst calls))
  | .built node => return .count ((← get).nodes[node]?.elim 0 (·.built))
  | .nodes => return .names (← get).names
  | .unregister node => return .flag (← modifyGet (·.unregister node))
  | .snap node => return .snapshot (snapshot? keys (← get) node)
  | .reachable node up => do
    modify (·.setReachable node up)
    return .done
  | .dropping all => do
    modify (·.setDropping all)
    return .done
  | .sleep ms => do
    modify (Network.sleep hosting ms)
    return .done
  | .stop => do
    modify (·.stop)
    return .done

def benches (clock : Nat → Int) : Nat → List Kind → List Bench
  | _, [] => []
  | n, .front :: kinds => Kind.front.bench (clock n) :: benches clock (n + 1) kinds
  | n, kind :: kinds => kind.bench 0 :: benches clock n kinds

def start (running : Bool) (clock : Nat → Int) (nodes : List (String × Kind)) : Lab :=
  let net : Lab := .fresh (benches clock 0 (nodes.map (·.2)))
  nodes.zipIdx.foldl (fun net (n, place) => net.register n.1 place)
    { net with line := if running then .carrying else .idle }

def run (keys : List String) (net : Lab) (steps : List Step) : List Result :=
  ((steps.mapM (perform keys)).run net).1

end Laboratory

end SynodStore

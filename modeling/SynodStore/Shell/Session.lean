import SynodStore.Client
import SynodStore.Shell.Command
import SynodStore.Text.Utf8

namespace SynodStore.Shell

structure Session where
  cluster : Cluster
  client : Client

inductive Response where
  | silence
  | line (text : String)
  | farewell
deriving DecidableEq

namespace Session

def pick : StateM Session Nat := do
  focus (·.client) (fun client s => { s with client }) (Client.pick (← get).cluster.replicas.length)

def inside {α : Type} (f : StateM Cluster α) : StateM Session α :=
  focus (·.cluster) (fun cluster s => { s with cluster }) f

def access (a : Access) : StateM Session AccessReply := do
  let place ← pick
  inside (Cluster.access place a)

def replyText : AccessReply → String
  | .value v => v.getD "(not found)"
  | .committed true => "OK"
  | .committed false => "FAILED"

def replicaLine (r : Replica) : String :=
  "replica " ++ toString r.id.toNat ++ ":" ++ String.join (r.dump.map fun (k, v) => " " ++ k ++ "=" ++ v)

def dumpText (c : Cluster) : String :=
  String.ofList (Text.trimEnd (String.join (c.replicas.map fun r => replicaLine r ++ "\n")).toList)

def execute : Command → StateM Session Response
  | .get k => return .line (replyText (← access (.get k)))
  | .put k v => return .line (replyText (← access (.put k v)))
  | .delete k => return .line (replyText (← access (.delete k)))
  | .dump => return .line (dumpText (← MonadState.get).cluster)
  | .quit => return .farewell

def respond (line : String) : StateM Session Response :=
  match Command.parse line with
  | .ok none => return .silence
  | .ok (some c) => execute c
  | .error text => return .line ("error: cannot parse '" ++ text ++ "'")

def sample : List (String × String) :=
  [("name", "paxoskv"), ("city", "Boston"), ("course", "distributed-systems"), ("language", "Rust"), ("editor", "vim")]

def workload : List Command :=
  sample.map (fun (k, v) => .put v k) ++ sample.map (fun (k, v) => .put k v) ++
    sample.map (fun (k, _) => .get k) ++ sample.map (fun (k, _) => .delete k)

def rehearse : List Command → StateM Session (List String)
  | [] => return []
  | c :: cs => do
    match ← execute c with
    | .line text => return (c.describe ++ ": " ++ text) :: (← rehearse cs)
    | _ => rehearse cs

def hear (bytes : List UInt8) : StateM Session (Except Text.Utf8.Fault Response) :=
  match Text.Utf8.decode (Text.Utf8.chomp bytes) with
  | .error fault => return .error fault
  | .ok line => return .ok (← respond (String.ofList line))

/-- Answers lines until one asks to quit or is not text. -/
def converse : List (List UInt8) → StateM Session (List String × Option Text.Utf8.Fault)
  | [] => return ([], none)
  | line :: rest => do
    match ← hear line with
    | .error fault => return ([], some fault)
    | .ok .silence => converse rest
    | .ok .farewell => return ([], none)
    | .ok (.line text) =>
      let (texts, fault) ← converse rest
      return (text :: texts, fault)

end Session

end SynodStore.Shell

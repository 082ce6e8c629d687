import SynodStore.Shell.Arguments
import SynodStore.Shell.Session

namespace SynodStore.Shell

inductive Abort where
  | refused (cause : Arguments.Refusal)
  | unreadable (fault : Text.Utf8.Fault)

def Abort.message : Abort → String
  | refused cause => cause.message
  | unreadable fault => fault.message

def start (a : Arguments) (content : String → Option String) (entropy : UInt64) (clock : Nat → Int) :
    Except Abort (List String × Session) := do
  let c ← (a.configuration content).mapError .refused
  let cluster ← (Cluster.startDirect c entropy clock).mapError fun cause => .refused (.invalid cause)
  let session : Session := ⟨cluster, .fresh⟩
  return if a.prepopulate then (Session.rehearse Session.workload).run session else ([], session)

def run (a : Arguments) (content : String → Option String) (entropy : UInt64) (clock : Nat → Int)
    (input : List UInt8) : List String × Option Abort :=
  match start a content entropy clock with
  | .error e => ([], some e)
  | .ok (first, session) =>
    let ((texts, fault), _) := (Session.converse (Text.Utf8.lines input)).run session
    (first ++ texts, fault.map .unreadable)

end SynodStore.Shell

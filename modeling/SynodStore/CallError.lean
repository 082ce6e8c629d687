namespace SynodStore

inductive CallError where
  | unreceived (node : String)
  | timedOut (node : String) (milliseconds : Nat)
  | networkDown
  | service (method node text : String)
  | unreadable
  | noReplica
  | scripted
deriving DecidableEq

namespace CallError

def thousandths (n : Nat) : String :=
  if n = 0 then ""
  else if n % 100 = 0 then "." ++ toString (n / 100)
  else if n % 10 = 0 then "." ++ toString (n / 100) ++ toString (n / 10 % 10)
  else "." ++ toString (n / 100) ++ toString (n / 10 % 10) ++ toString (n % 10)

def durationText (milliseconds : Nat) : String :=
  if milliseconds = 0 then "0ns"
  else if milliseconds < 1000 then toString milliseconds ++ "ms"
  else toString (milliseconds / 1000) ++ thousandths (milliseconds % 1000) ++ "s"

def message : CallError → String
  | unreceived node => "unable to receive from server " ++ node
  | timedOut node ms => "call to " ++ node ++ " timed out after " ++ durationText ms
  | networkDown => "network is down"
  | service method node text => method ++ " failed on " ++ node ++ ": " ++ text
  | unreadable => "unreadable reply"
  | noReplica => "client needs at least one replica"
  | scripted => "scripted"

end CallError

end SynodStore

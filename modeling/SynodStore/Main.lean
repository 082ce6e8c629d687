import Std.Time.DateTime.Timestamp
import SynodStore.Shell.Program

namespace SynodStore.Shell

def contentOf (file : String) : IO (Option String) := do
  try
    return String.fromUTF8? (← IO.FS.readBinFile file)
  catch _ => return none

def draw64 : IO UInt64 := do
  return (← IO.getRandomBytes 8).toList.foldl (fun n b => n * 256 + b.toUInt64) 0

/-- The bytes up to the next newline and with it, none at the end of the input. -/
partial def nextLine (input : IO.FS.Stream) (bytes : List UInt8) : IO (List UInt8) := do
  match (← input.read 1).toList with
  | [] => return bytes.reverse
  | b :: _ => if b = 10 then return (b :: bytes).reverse else nextLine input (b :: bytes)

partial def converseWith (input output : IO.FS.Stream) (session : Session) : IO (Option Abort) := do
  let line ← nextLine input []
  if line.isEmpty then return none
  let (answer, session) := (Session.hear line).run session
  match answer with
  | .error fault => return some (.unreadable fault)
  | .ok .silence => converseWith input output session
  | .ok .farewell => return none
  | .ok (.line text) =>
    output.putStr (text ++ "\n")
    output.flush
    converseWith input output session

def perform (a : Arguments) (input output : IO.FS.Stream) : IO (Option Abort) := do
  let content ← a.config.mapM contentOf
  let now := (← Std.Time.Timestamp.now).toMillisecondsSinceUnixEpoch.val
  match start a (fun _ => content.join) (← draw64) (fun _ => now) with
  | .error e => return some e
  | .ok (first, session) =>
    for text in first do
      output.putStr (text ++ "\n")
    output.flush
    converseWith input output session

end SynodStore.Shell

open SynodStore.Shell in
def main (words : List String) : IO UInt32 := do
  match Arguments.parse words with
  | none =>
    IO.eprintln "error: the arguments make no sense"
    return 1
  | some a =>
    match ← perform a (← IO.getStdin) (← IO.getStdout) with
    | none => return 0
    | some e =>
      IO.eprintln ("Error: " ++ e.message)
      return 1

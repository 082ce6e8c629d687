import SynodStore.Text.Words

namespace SynodStore.Shell

inductive Command where
  | get (key : String)
  | put (key value : String)
  | delete (key : String)
  | dump
  | quit
deriving DecidableEq

namespace Command

def ofWords? : List (List Char) → Option Command
  | [] => none
  | name :: arguments =>
    match String.ofList (name.map Char.toUpper), arguments.map String.ofList with
    | "GET", [k] => some (.get k)
    | "PUT", [k, v] => some (.put k v)
    | "DELETE", [k] => some (.delete k)
    | "DUMP", [] => some .dump
    | "QUIT", [] => some .quit
    | "EXIT", [] => some .quit
    | _, _ => none

/-- No command if there are no words, and an error with the line's text if the words spell none. -/
def parse (line : String) : Except String (Option Command) :=
  match Text.words line.toList with
  | [] => .ok none
  | ws =>
    match ofWords? ws with
    | some c => .ok (some c)
    | none => .error (String.ofList (Text.trim line.toList))

def describe : Command → String
  | get k => "GET " ++ k
  | put k v => "PUT " ++ k ++ " " ++ v
  | delete k => "DELETE " ++ k
  | dump => "DUMP"
  | quit => "QUIT"

end Command

end SynodStore.Shell

import SynodStore.Wire

namespace SynodStore.Shell

structure Arguments where
  config : Option String
  clusterSize : Option UInt64
  seed : Option UInt64
  degraded : Bool
  noCrash : Bool
  prepopulate : Bool

namespace Arguments

def blank : Arguments := ⟨none, none, none, false, false, false⟩

inductive Setting where
  | config
  | clusterSize
  | seed

inductive Switch where
  | degraded
  | noCrash
  | prepopulate

def settingOfName? : List Char → Option Setting
  | name =>
    match String.ofList name with
    | "config" => some .config
    | "cluster-size" => some .clusterSize
    | "seed" => some .seed
    | _ => none

def settingOfLetter? : Char → Option Setting
  | 'c' => some .config
  | 'n' => some .clusterSize
  | _ => none

def switchOfName? : List Char → Option Switch
  | name =>
    match String.ofList name with
    | "degraded" => some .degraded
    | "no-crash" => some .noCrash
    | "prepopulate" => some .prepopulate
    | _ => none

def word? (s : List Char) : Option UInt64 := do
  let digits := match s with
    | '+' :: r => r
    | r => r
  let n ← Json.Literal.natural? digits
  if n < UInt64.size then some (UInt64.ofNat n) else none

def set (a : Arguments) (value : List Char) : Setting → Option Arguments
  | .config => if a.config.isSome then none else some { a with config := some (String.ofList value) }
  | .clusterSize => if a.clusterSize.isSome then none else do return { a with clusterSize := some (← word? value) }
  | .seed => if a.seed.isSome then none else do return { a with seed := some (← word? value) }

def switch (a : Arguments) : Switch → Option Arguments
  | .degraded => if a.degraded then none else some { a with degraded := true }
  | .noCrash => if a.noCrash then none else some { a with noCrash := true }
  | .prepopulate => if a.prepopulate then none else some { a with prepopulate := true }

/-- A lone dash is a value like any other; what else starts with a dash is an option. -/
def isOption : List Char → Bool
  | '-' :: _ :: _ => true
  | _ => false

/-- What one word of the command line asks for: a switch, a setting with its value, or a setting whose value is
the next word. -/
inductive Item where
  | switch (s : Switch)
  | setting (s : Setting) (value : List Char)
  | following (s : Setting)
  | rest

def dropEquals (s : List Char) : List Char :=
  s.dropWhile (· = '=')

def long? (s : List Char) : Option Item :=
  let name := s.takeWhile (· ≠ '=')
  match s.dropWhile (· ≠ '='), settingOfName? name, switchOfName? name with
  | '=' :: value, some setting, _ => some (.setting setting (dropEquals value))
  | _, some setting, _ => some (.following setting)
  | [], none, some s => some (.switch s)
  | _, _, _ => none

def short? : List Char → Option Item
  | [c] => (settingOfLetter? c).map .following
  | c :: value => (settingOfLetter? c).map (.setting · (dropEquals value))
  | [] => none

def item? : List Char → Option Item
  | ['-', '-'] => some .rest
  | '-' :: '-' :: s => long? (s.dropWhile (· = '-'))
  | '-' :: s => short? s
  | _ => none

def parseFrom : Arguments → Option Setting → List (List Char) → Option Arguments
  | a, none, [] => some a
  | _, some _, [] => none
  | a, some s, w :: ws => if isOption w then none else do parseFrom (← a.set w s) none ws
  | a, none, w :: ws => do
    match ← item? w with
    | .switch s => parseFrom (← a.switch s) none ws
    | .setting s value => parseFrom (← a.set value s) none ws
    | .following s => parseFrom a (some s) ws
    | .rest => if ws.isEmpty then some a else none

def parse (words : List String) : Option Arguments :=
  parseFrom blank none (words.map String.toList)

inductive Refusal where
  | reading (file : String)
  | parsing (file : String)
  | invalid (cause : Misconfiguration)

def Refusal.message : Refusal → String
  | reading file => "reading " ++ file
  | parsing file => "parsing " ++ file
  | invalid cause => (Failure.invalidConfig cause).message

def base (a : Arguments) (content : String → Option String) : Except Refusal Config :=
  match a.config with
  | none => .ok .standard
  | some file =>
    match content file with
    | none => .error (.reading file)
    | some text =>
      match Wire.ofText? text with
      | none => .error (.parsing file)
      | some c => .ok c

def override (a : Arguments) (c : Config) : Config :=
  { c with
    clusterSize := a.clusterSize.getD c.clusterSize
    shortfall := if a.degraded then .degraded else c.shortfall
    seed := a.seed.or c.seed
    crash := if a.noCrash then none else c.crash }

def configuration (a : Arguments) (content : String → Option String) : Except Refusal Config := do
  let c := a.override (← a.base content)
  match c.validate with
  | .ok _ => return c
  | .error cause => throw (.invalid cause)

end Arguments

end SynodStore.Shell

import DataSpec.Text.Segments

/-!
# Arguments

`Arguments.parse` reads the arguments of the program : an action with its options, and
before or after the action the file with settings. An option has a long name after two
hyphens, and some have a letter after one hyphen. Its value is the next argument, or
follows in the same one. Nothing else may be given, and no option twice.
-/

set_option autoImplicit false

namespace DataSpec.Arguments

/-! ## What can be asked for -/

/-- What documents to generate, and how. -/
structure GenerateOptions where
  /-- The directory with the stores. -/
  stores : String
  /-- The file with the specifications. -/
  specifications : String
  /-- Where documents go, if not where the settings say. -/
  output : Option String
  /-- The only specification to generate. -/
  only : Option String
  /-- Where the usual artefacts are published. -/
  baseUrl : String
  /-- Whether JSON documents are on one line. -/
  compact : Bool
deriving DecidableEq

/-- What to do. -/
inductive Action where
  | generate (o : GenerateOptions)
  /-- Print the settings. -/
  | config
deriving DecidableEq

/-- What a list of arguments asks for. -/
structure Invocation where
  /-- The file with settings. -/
  settings : Option String
  action : Action
deriving DecidableEq

/-- Why nothing is done. -/
inductive Refusal where
  /-- Help was asked for. -/
  | help
  /-- The arguments have no meaning. -/
  | usage
deriving DecidableEq

/-! ## Options -/

/-- What the value of an option may be. -/
inductive Operand where
  /-- There is none. -/
  | none
  | text
  /-- A text that is not empty. -/
  | path
deriving DecidableEq

/-- An option. -/
structure Switch where
  name : String
  letter : Option Char
  operand : Operand
deriving DecidableEq

/-- The file with settings. -/
def settingsSwitch : Switch := ⟨"config", some 'c', .text⟩

/-- The options of generation. -/
def generateSwitches : List Switch :=
  [settingsSwitch, ⟨"stores", some 's', .path⟩, ⟨"specifications", some 'S', .path⟩,
    ⟨"output", some 'o', .path⟩, ⟨"only", none, .text⟩, ⟨"base-url", none, .text⟩,
    ⟨"compact", none, .none⟩]

/-- The options that were given, with their values. -/
abbrev Given := List (String × String)

/-- The value of an option. -/
def Given.value? (g : Given) (name : String) : Option String :=
  (g.find? fun e => e.1 = name).map Prod.snd

/-- Note an option, which must not be given twice, and its value. -/
def give (g : Given) (s : Switch) (value : String) : Except Refusal Given :=
  if (g.value? s.name).isSome || (s.operand = .path && value.isEmpty) then .error .usage
  else .ok ((s.name, value) :: g)

/-- Whether an argument is an option and not a value. -/
def isOption (arg : String) : Bool := Text.startsWith arg "-" && arg ≠ "-"

/-- What an argument that is an option says : help, or an option with a value in the same
argument, if there is one. -/
inductive Said where
  | help
  | switch (s : Switch) (value : Option String)

/-- What follows two hyphens : a name, with a value after an equals sign. -/
def saidLong (switches : List Switch) (cs : List Char) : Except Refusal Said :=
  let name := String.ofList (cs.takeWhile (· ≠ '='))
  let value :=
    match cs.dropWhile (· ≠ '=') with
    | _ :: value => some (String.ofList value)
    | [] => none
  match switches.find? fun s => s.name = name with
  | some s => .ok (.switch s value)
  | none => if name = "help" && value.isNone then .ok .help else .error .usage

/-- What follows one hyphen : a letter, with a value after it. -/
def saidShort (switches : List Switch) : List Char → Except Refusal Said
  | [] => .error .usage
  | c :: cs =>
    let value :=
      match cs with
      | [] => none
      | '=' :: value => some (String.ofList value)
      | value => some (String.ofList value)
    match switches.find? fun s => s.letter = some c with
    | some s => .ok (.switch s value)
    | none => if c = 'h' then .ok .help else .error .usage

/-- What an option says. -/
def said (switches : List Switch) (arg : String) : Except Refusal Said :=
  match arg.toList with
  | '-' :: '-' :: cs => saidLong switches cs
  | _ :: cs => saidShort switches cs
  | [] => .error .usage

/-- The options that a list of arguments begins with, and the arguments from the first one
that is not an option. -/
def options (switches : List Switch) (g : Given) :
    List String → Except Refusal (Given × List String)
  | [] => .ok (g, [])
  | arg :: rest =>
    if !isOption arg then .ok (g, arg :: rest)
    else if arg = "--" then if rest.isEmpty then .ok (g, []) else .error .usage
    else
      match said switches arg with
      | .error r => .error r
      | .ok .help => .error .help
      | .ok (.switch s value) =>
        match s.operand, value, rest with
        | .none, none, rest =>
          match give g s "" with
          | .error r => .error r
          | .ok g => options switches g rest
        | .none, some _, _ => .error .usage
        | _, some value, rest =>
          match give g s value with
          | .error r => .error r
          | .ok g => options switches g rest
        | _, none, [] => .error .usage
        | _, none, value :: rest =>
          if isOption value then .error .usage
          else
            match give g s value with
            | .error r => .error r
            | .ok g => options switches g rest
termination_by args => args.length

/-! ## Actions -/

/-- Options after which nothing follows. -/
def optionsOnly (switches : List Switch) (args : List String) : Except Refusal Given := do
  match ← options switches [] args with
  | (g, []) => return g
  | _ => throw .usage

/-- What generation is asked for with. -/
def generateOptions (g : Given) : Except Refusal GenerateOptions :=
  match g.value? "stores", g.value? "specifications" with
  | some stores, some specifications => .ok {
      stores, specifications
      output := g.value? "output"
      only := g.value? "only"
      baseUrl := (g.value? "base-url").getD ""
      compact := (g.value? "compact").isSome }
  | _, _ => .error .usage

/-- The actions that help can be asked about. -/
def topics : List (List String) := [[], ["generate"], ["config"], ["help"]]

/-- What a list of arguments asks for. -/
def parse (args : List String) : Except Refusal Invocation := do
  let (before, rest) ← options [settingsSwitch] [] args
  match rest with
  | "generate" :: rest => do
    let g ← optionsOnly generateSwitches rest
    let o ← generateOptions g
    return ⟨(g.value? "config").or (before.value? "config"), .generate o⟩
  | "config" :: rest => do
    let g ← optionsOnly [settingsSwitch] rest
    return ⟨(g.value? "config").or (before.value? "config"), .config⟩
  | "help" :: rest => throw (if topics.contains rest then .help else .usage)
  | _ => throw .usage

end DataSpec.Arguments

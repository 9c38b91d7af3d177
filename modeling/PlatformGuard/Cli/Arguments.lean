/-!
# Arguments of the command line

There are two commands, one that signs a manifest and one that shows one.  Both read from a file or
from standard input, and write to a file or to standard output.

An option is written with two or more hyphens and its long name, or with one hyphen and its letter.
Its value is the next argument, or stands behind it after any number of equals signs.  Two hyphens alone
end the options; as there are no other arguments, nothing may follow them.
-/

namespace PlatformGuard.Cli

/-- What to do. -/
inductive Action where
  /-- Encode and sign a draft. -/
  | sign (key : String) (appendKey : Bool)
  /-- Decode a manifest and check its signature. -/
  | present (key : Option String) (pretty : Bool)
  deriving DecidableEq, Repr

/-- A whole command line. -/
structure Command where
  action : Action
  /-- Standard input and standard output, where no file is named. -/
  input : Option String
  output : Option String
  deriving DecidableEq, Repr

/-- Why a command line is refused. -/
inductive UsageError where
  | noCommand
  | unknownCommand (name : String)
  | unexpected (argument : String)
  | missingValue (option : String)
  | repeated (option : String)
  | noKey
  deriving DecidableEq, Repr

def UsageError.message : UsageError → String
  | noCommand => "a command is required"
  | unknownCommand s => "unknown command " ++ s
  | unexpected s => "unexpected argument " ++ s
  | missingValue s => "the option --" ++ s ++ " requires a value"
  | repeated s => "the option --" ++ s ++ " was given more than once"
  | noKey => "the option --key is required"

/-! ### Options -/

/-- The options that were found; a flag has no value. -/
abbrev Found := List (String × Option String)

/-- The options of a command. -/
structure Grammar where
  valued : List String
  flags : List String

/-- The options of the command that signs. -/
def signGrammar : Grammar := ⟨["key", "input", "output"], ["append-key"]⟩

/-- The options of the command that shows. -/
def presentGrammar : Grammar := ⟨["key", "input", "output"], ["pretty"]⟩

/-- The long name of an option of one letter. -/
def longName? : Char → Option String
  | 'i' => some "input"
  | 'o' => some "output"
  | _ => none

/-- A value without the equals signs in front of it. -/
def valueOf (cs : List Char) : String := String.ofList (cs.dropWhile (· == '='))

/-- A name, and the value behind the first equals sign. -/
def splitValue (cs : List Char) : String × Option String :=
  match cs.span (· != '=') with
  | (name, []) => (String.ofList name, none)
  | (name, value) => (String.ofList name, some (valueOf value))

/-- The option that an argument names, and the value that it brings. -/
def optionOf? (argument : String) : Option (String × Option String) :=
  match argument.toList with
  | '-' :: '-' :: cs => some (splitValue (cs.dropWhile (· == '-')))
  | ['-', c] => (longName? c).map fun name => (name, none)
  | '-' :: c :: value => (longName? c).map fun name => (name, some (valueOf value))
  | _ => none

/-- Whether an argument can be a value; one that begins with a hyphen is an option. -/
def isValue (argument : String) : Bool := argument.toList.head? != some '-' || argument == "-"

/-- Takes in an option, which can be given once. -/
def add (found : Found) (name : String) (value : Option String) : Except UsageError Found :=
  if (found.lookup name).isSome then .error (.repeated name) else .ok (found ++ [(name, value)])

/-- An option as it was read, and whether its value is the next argument. -/
structure Reading where
  name : String
  value : Option String
  usesNext : Bool

/-- Reads an option, with the argument that follows it.  What stands behind a flag is ignored. -/
def Grammar.read (g : Grammar) (argument : String) (next : Option String) :
    Except UsageError Reading :=
  match optionOf? argument with
  | none => .error (.unexpected argument)
  | some (name, value) =>
    if g.flags.contains name then .ok ⟨name, none, false⟩
    else if !g.valued.contains name then .error (.unexpected argument)
    else
      match value, next.filter isValue with
      | some v, _ => .ok ⟨name, some v, false⟩
      | none, some v => .ok ⟨name, some v, true⟩
      | none, none => .error (.missingValue name)

/-- Reads the options of a command. -/
def options (g : Grammar) (found : Found) : List String → Except UsageError Found
  | [] | ["--"] => .ok found
  | "--" :: argument :: _ => .error (.unexpected argument)
  | argument :: rest => do
    let r ← g.read argument rest.head?
    let found ← add found r.name r.value
    options g found (if r.usesNext then rest.tail else rest)
termination_by arguments => arguments.length
decreasing_by
  simp only [List.length_cons]
  split
  · rw [List.length_tail]
    omega
  · omega

/-- The value of an option. -/
def Found.value? (found : Found) (name : String) : Option String := (found.lookup name).join

def Found.hasFlag (found : Found) (name : String) : Bool := (found.lookup name).isSome

/-! ### Commands -/

/-- Reads a command line. -/
def Command.parse : List String → Except UsageError Command
  | [] => .error .noCommand
  | "sign-manifest" :: arguments => do
    let found ← options signGrammar [] arguments
    let some key := Found.value? found "key" | throw .noKey
    return { action := .sign key (Found.hasFlag found "append-key")
             input := Found.value? found "input"
             output := Found.value? found "output" }
  | "show-manifest" :: arguments => do
    let found ← options presentGrammar [] arguments
    return { action := .present (Found.value? found "key") (Found.hasFlag found "pretty")
             input := Found.value? found "input"
             output := Found.value? found "output" }
  | name :: _ => .error (.unknownCommand name)

end PlatformGuard.Cli

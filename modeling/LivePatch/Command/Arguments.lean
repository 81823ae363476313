/-!
# Command lines

What a user can ask for on the command line.  `Arguments.sort?` tells options from operands by
their form alone; `Command.ofArguments?` then checks that each is known and given once.
-/

namespace LivePatch

/-- What to do with a file that is to be patched. -/
structure PatchRequest where
  file : String
  /-- The settings file, where it is not the one next to the file. -/
  settings : Option String
  annotate : Bool
  castReturns : Bool
  implicitPrivate : Bool
  json : Bool
deriving DecidableEq, Repr

/-- What to do. -/
inductive Command where
  /-- Say which program this is. -/
  | version
  /-- Patch a file and print the result. -/
  | patch (request : PatchRequest)
  /-- Print the tree of a file and its problems. -/
  | parse (file : String) (json : Bool)
deriving DecidableEq, Repr

/-- Arguments by their form, each kind in the order given. -/
structure Arguments where
  /-- Options without a value. -/
  flags : List String := []
  /-- Options with their values. -/
  settings : List (String × String) := []
  /-- Everything else. -/
  operands : List String := []
deriving DecidableEq, Repr

namespace Arguments

/-- Does an argument look like an option?  A single hyphen does not. -/
def isOption (arg : String) : Bool := arg.startsWith "-" && arg != "-"

/-- The two sides of the first equals sign of an option. -/
def splitValue (arg : String) : String × Option String :=
  match arg.toList.dropWhile (· != '=') with
  | [] => (arg, none)
  | _ :: value =>
    (String.ofList (arg.toList.takeWhile (· != '=')), some (String.ofList value))

/-- Sort arguments.  An option in `valued` takes what follows its equals sign or else the next
argument, which must not look like an option; one in `flags` takes nothing; there are no others.
Behind a double hyphen every argument is an operand. -/
def sort? (flags valued : List String) : List String → Option Arguments
  | [] => some {}
  | arg :: rest =>
    if arg == "--" then some { operands := rest }
    else if isOption arg then
      match splitValue arg with
      | (name, some value) => do
        guard (valued.contains name)
        let sorted ← sort? flags valued rest
        return { sorted with settings := (name, value) :: sorted.settings }
      | (name, none) =>
        if flags.contains name then do
          let sorted ← sort? flags valued rest
          return { sorted with flags := name :: sorted.flags }
        else
          match rest with
          | value :: rest => do
            guard (valued.contains name && !isOption value)
            let sorted ← sort? flags valued rest
            return { sorted with settings := (name, value) :: sorted.settings }
          | [] => none
    else do
      let sorted ← sort? flags valued rest
      return { sorted with operands := arg :: sorted.operands }

/-- No option is given twice, and no text is empty. -/
def isProper (args : Arguments) : Bool :=
  args.flags.Nodup && (args.settings.map (·.1)).Nodup &&
    (args.settings.map (·.2) ++ args.operands).all (!·.isEmpty)

/-- Sort the arguments behind the name of a command that takes one file. -/
def ofList? (flags valued args : List String) : Option (Arguments × String) := do
  let sorted ← sort? flags valued args
  guard sorted.isProper
  match sorted.operands with
  | [file] => return (sorted, file)
  | _ => none

end Arguments

namespace Command

/-- The command that the arguments ask for, or nothing when they are not understood. -/
def ofArguments? : List String → Option Command
  | [] => none
  | "rewrite" :: args => do
    let flags := ["--annotate", "--cast-returns", "--implicit-private", "--json"]
    let (sorted, file) ← Arguments.ofList? flags ["--config"] args
    return .patch {
      file
      settings := sorted.settings.lookup "--config"
      annotate := sorted.flags.contains "--annotate"
      castReturns := sorted.flags.contains "--cast-returns"
      implicitPrivate := sorted.flags.contains "--implicit-private"
      json := sorted.flags.contains "--json" }
  | "parse" :: args => do
    let (sorted, file) ← Arguments.ofList? ["--json"] [] args
    return .parse file (sorted.flags.contains "--json")
  | arg :: _ => if arg == "--version" || arg.startsWith "-V" then some .version else none

end Command

end LivePatch

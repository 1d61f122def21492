namespace PlainJs

inductive Command
  /-- Lowers a file; the result goes to `output`, or is shown if there is none. -/
  | desugar (input : String) (output config : Option String) (sourceMap json : Bool)
  /-- Reads a file and shows its syntax errors. -/
  | check (input : String)
  /-- Reads a file and shows its tree. -/
  | parse (input : String) (ast : Bool)
deriving DecidableEq, Repr

namespace Command

/-- The options of a command: flags, and those that take a value, each with the short letter that
stands for it. -/
structure Options where
  flags : List String
  valued : List (String × Option Char)

/-- The arguments of a command, taken apart. -/
structure Arguments where
  positional : List String
  flags : List String
  values : List (String × String)

namespace Arguments

def empty : Arguments := ⟨[], [], []⟩

/-- Adds an argument that is no option; it is not empty. -/
def addPositional? (a : Arguments) (s : String) : Option Arguments :=
  if s.isEmpty then none else some { a with positional := a.positional ++ [s] }

/-- Adds a flag, which is given once. -/
def addFlag? (a : Arguments) (flag : String) : Option Arguments :=
  if a.flags.contains flag then none else some { a with flags := flag :: a.flags }

/-- Adds the value of an option, which is given once and is not empty. -/
def addValue? (a : Arguments) (option value : String) : Option Arguments :=
  if value.isEmpty || a.values.any (·.1 == option) then none
  else some { a with values := (option, value) :: a.values }

def value? (a : Arguments) (option : String) : Option String := a.values.lookup option

end Arguments

/-- An argument as it is written. -/
inductive Written
  | plain (s : String)
  /-- Nothing behind it is an option. -/
  | separator
  | long (name : String) (value : Option String)
  | short (letter : Char) (value : Option String)

/-- The text behind a short option, without a leading `=`. -/
def shortValue? : List Char → Option String
  | [] => none
  | '=' :: cs => some (String.ofList cs)
  | cs => some (String.ofList cs)

def Written.ofString (s : String) : Written :=
  match s.toList with
  | ['-', '-'] => .separator
  | '-' :: '-' :: cs =>
    let name := cs.takeWhile (· != '=')
    let value :=
      match cs.drop name.length with
      | [] => none
      | _ :: v => some (String.ofList v)
    .long (String.ofList name) value
  | '-' :: c :: cs => .short c (shortValue? cs)
  | _ => .plain s

/-- Whether an argument can be the value of the option before it. -/
def isValue (s : String) : Bool := s == "-" || s.toList.head? != some '-'

/-- Takes arguments apart; `none` if they do not fit the options. -/
def readArguments? (options : Options) : List String → Arguments → Option Arguments
  | [], a => some a
  | s :: rest, a =>
    let valued (name : String) (value : Option String) : Option Arguments :=
      match value, rest with
      | some v, rest => do readArguments? options rest (← a.addValue? name v)
      | none, v :: rest => do
        if isValue v then readArguments? options rest (← a.addValue? name v) else none
      | none, [] => none
    match Written.ofString s with
    | .plain s => do readArguments? options rest (← a.addPositional? s)
    | .separator => rest.foldlM Arguments.addPositional? a
    | .long name value =>
      if options.flags.contains name then do
        if value.isSome then none else readArguments? options rest (← a.addFlag? name)
      else if options.valued.any (·.1 == name) then valued name value
      else none
    | .short letter value =>
      match options.valued.find? (·.2 == some letter) with
      | some (name, _) => valued name value
      | none => none

/-- The command that the arguments stand for; `none` if they stand for none. -/
def ofArgs? : List String → Option Command
  | "desugar" :: args => do
    let a ← readArguments?
      ⟨["source-map", "json"], [("output", some 'o'), ("config", none)]⟩ args .empty
    match a.positional with
    | [input] =>
      return .desugar input (a.value? "output") (a.value? "config")
        (a.flags.contains "source-map") (a.flags.contains "json")
    | _ => none
  | "check" :: args => do
    match (← readArguments? ⟨[], []⟩ args .empty).positional with
    | [input] => return .check input
    | _ => none
  | "parse" :: args => do
    let a ← readArguments? ⟨["ast"], []⟩ args .empty
    match a.positional with
    | [input] => return .parse input (a.flags.contains "ast")
    | _ => none
  | _ => none

/-- The files that a command reads. -/
def files : Command → List String
  | .desugar input _ config _ _ => input :: config.toList
  | .check input => [input]
  | .parse input _ => [input]

/-- The file of the source map that belongs to a result. -/
def mapPath (input : String) (output : Option String) : String := output.getD input ++ ".map"

/-- The directory in a path, with the slash at its end; empty for a plain name. -/
def directoryOf (path : String) : String :=
  String.ofList (path.toList.reverse.dropWhile (· != '/')).reverse

/-- The files that a command may write. -/
def outputs : Command → List String
  | .desugar input output _ sourceMap json =>
    output.toList ++ if sourceMap && !json then [mapPath input output] else []
  | _ => []

def usage : String :=
  "usage: desugar INPUT [-o OUTPUT] [--config FILE] [--source-map] [--json]\n" ++
    "       check INPUT\n" ++
    "       parse INPUT [--ast]\n"

end Command

end PlainJs

import PlainJs.Command.Basic
import PlainJs.Command.Files
import PlainJs.Command.Outline
import PlainJs.Config.Reader
import PlainJs.Json.Printer
import PlainJs.Node.Dump
import PlainJs.Transform

namespace PlainJs

/-- What a command has shown and written so far; later files come first. -/
structure Console where
  out : String
  err : String
  written : List (String × String)

/-- Why a command fails, with what lies behind it. -/
structure Failure where
  message : String
  causes : List String

/-- How a command ends. -/
structure Outcome where
  status : Nat
  out : String
  err : String
  written : List (String × String)
deriving DecidableEq, Repr

namespace Failure

/-- A text whose lines behind the first one are indented. -/
def indented (margin : Nat) (s : String) : String :=
  ("\n" ++ String.ofList (List.replicate margin ' ')).intercalate (s.splitOn "\n")

def causeLines : (index : Nat) → List String → String
  | _, [] => ""
  | index, cause :: causes =>
    "    " ++ toString index ++ ": " ++ indented 7 cause ++ "\n" ++ causeLines (index + 1) causes

/-- A single cause stands alone; several are numbered. -/
def text (f : Failure) : String :=
  "Error: " ++ f.message ++ "\n" ++
    match f.causes with
    | [] => ""
    | [cause] => "\nCaused by:\n    " ++ indented 4 cause ++ "\n"
    | causes => "\nCaused by:\n" ++ causeLines 0 causes

end Failure

abbrev Session := ReaderT Files (ExceptT Failure (StateM Console))

namespace Session

variable {α : Type}

def fail (message : String) (causes : List String) : Session α := throw ⟨message, causes⟩

/-- Shows a part of the result. -/
def display (s : String) : Session Unit := modify fun c => { c with out := c.out ++ s }

/-- Shows a line beside the result. -/
def note (s : String) : Session Unit := modify fun c => { c with err := c.err ++ s ++ "\n" }

def readFile (what path : String) : Session String := do
  match (← read).text path with
  | .ok text => return text
  | .error f => fail ("failed to read " ++ what ++ path) [f.message]

def writeFile (path text : String) : Session Unit := do
  match (← read).place path with
  | .ok place => modify fun c => { c with written := (place, text) :: c.written }
  | .error f => fail ("failed to write " ++ path) [f.message]

/-- Writes a result to its file, or shows it if there is none. -/
def deliver (output : Option String) (text : String) : Session Unit :=
  match output with
  | some path => writeFile path text
  | none => display text

def loadConfig : Option String → Session Config
  | none => return .default
  | some path => do
    match Config.ofJson (← readFile "config " path) with
    | .ok config => return config
    | .error f => fail ("invalid config " ++ path) f.causes

def readProgram (source filename : String) : Session Program :=
  match parseSource source filename with
  | .ok p => return p
  | .error r => fail r.message []

/-- Shows diagnostics with the places that they point at. -/
def noteDiagnostics (source filename : String) (ds : List Diagnostic) : Session Unit :=
  ds.forM fun d =>
    let place :=
      if d.isSynthetic then filename else (Location.ofPosition source d.span.lo).text filename
    note (place ++ ": " ++ d.display)

end Session

namespace Transformed

/-- The result as JSON; the tree is a text of its own in it. -/
def toJson (t : Transformed) : Json :=
  .obj [("transformed_code", .str t.code), ("had_error", .bool t.hadError),
    ("error_message", Json.orNull .str t.message),
    ("transformed_ast", Json.orNull (fun p => .str (p.toJson.pretty 0)) t.program)]

end Transformed

def Node.isEmptyProgram : Program → Bool
  | .moduleProgram _ _ items => items.isNil
  | .scriptProgram _ _ stmts => stmts.isNil

/-- The source map of a program that was read from one file. -/
def sourceMap (filename : String) (p : Program) : String :=
  let sources := if p.isEmptyProgram then [] else [Json.str filename]
  (Json.obj [("version", .ofNat 3), ("sources", .arr sources), ("names", .arr []),
    ("mappings", .str "")]).compact

namespace Command

open Session

def runJson (source filename : String) (output : Option String) (config : Config) :
    Session Unit := do
  match transformSource source filename config with
  | .error f => fail f.message []
  | .ok t =>
    deliver output (t.toJson.pretty 0)
    if t.hadError then fail ("desugaring " ++ filename ++ " failed") []

def runDesugar (source filename : String) (output : Option String) (config : Config)
    (withMap : Bool) : Session Unit := do
  let p ← readProgram source filename
  let r := lowerWith config p
  noteDiagnostics source filename r.diagnostics
  deliver output (r.code config)
  if withMap then
    let path := mapPath filename output
    writeFile path (sourceMap filename r.program)
    note ("Source map written to " ++ path)
  if r.hadError then
    let count := (r.diagnostics.filter Diagnostic.isError).length
    fail (toString count ++ " error(s) while desugaring " ++ filename) []

def session : Command → Session Unit
  | .desugar input output config withMap json => do
    let source ← readFile "" input
    let config ← loadConfig config
    if json then runJson source input output config
    else runDesugar source input output config withMap
  | .check input => do
    let source ← readFile "" input
    let _ ← readProgram source input
    note ("OK: " ++ input)
  | .parse input ast => do
    let source ← readFile "" input
    let p ← readProgram source input
    display ((if ast then p.toJson.pretty 0 else (Outline.ofProgram p).text 0) ++ "\n")

/-- Runs a command. -/
def run (c : Command) (files : Files) : Outcome :=
  match (c.session.run files).run ⟨"", "", []⟩ with
  | (.ok (), s) => ⟨0, s.out, s.err, s.written.reverse⟩
  | (.error f, s) => ⟨1, s.out, s.err ++ f.text, s.written.reverse⟩

end Command

end PlainJs

import PlainJs.Label
import PlainJs.Lowering.Continues
import PlainJs.Lowering.Finallys
import PlainJs.Lowering.Loops
import PlainJs.Lowering.Switches

namespace PlainJs

inductive Stage
  | declarations | continues | loops | switches | finallys
deriving DecidableEq, Repr

namespace Stage

/-- The stages in the order in which they run. -/
def all : List Stage := [declarations, continues, loops, switches, finallys]

def name : Stage → String
  | declarations => "declarations"
  | continues => "continues"
  | loops => "loops"
  | switches => "switches"
  | finallys => "finally"

def ofName? (s : String) : Option Stage := all.find? (·.name == s)

def pass : Stage → Program → Lower Program
  | declarations => fun p => splitDeclarations p
  | continues => replaceContinues
  | loops => lowerLoops
  | switches => lowerSwitches
  | finallys => lowerFinallys

def isEnabled (config : Config) : Stage → Bool
  | declarations => config.declarations
  | continues => config.continues
  | loops => config.loops
  | switches => config.switches
  | finallys => config.finallys

/-- Runs a stage unless it is disabled or something fatal has been recorded. -/
def run (s : Stage) (p : Program) : Lower Program := do
  let cx ← get
  if s.isEnabled cx.config && !cx.hasFatal then s.pass p else return p

end Stage

/-- A program in its lowered form. -/
structure Lowered where
  program : Program
  diagnostics : List Diagnostic

def Lowered.hadError (r : Lowered) : Bool := r.diagnostics.any Diagnostic.isError

namespace Lowering

/-- Runs all stages. -/
def stages (p : Program) : Lower Program := Stage.all.foldlM (fun p s => s.run p) p

/-- Records the first fault of the labels, unless something fatal has been recorded before. -/
def finish (p : Program) : Lower Unit :=
  modify fun cx =>
    if cx.hasFatal then cx
    else
      match validateLabels p with
      | [] => cx
      | d :: _ => cx.record d

def run (p : Program) : Lower Program := do
  let p ← stages p
  finish p
  return p

end Lowering

/-- Lowers a program under a configuration that is known to be valid. -/
def lowerWith (config : Config) (p : Program) : Lowered :=
  let (p, cx) := (Lowering.run p).run (.start config p)
  ⟨p, cx.diagnostics⟩

/-- Lowers a program. -/
def lowerProgram (config : Config) (p : Program) : Except ConfigFault Lowered := do
  config.validate
  return lowerWith config p

/-- A program as a module; the statements of a script become its items. -/
def Node.asModule : Program → Program
  | .moduleProgram span interpreter items => .moduleProgram span interpreter items
  | .scriptProgram span interpreter stmts =>
    .moduleProgram span interpreter (.ofList (stmts.toList.map .stmtItem))

/-- Lowers a module with every stage and leaves out the diagnostics. -/
def lowerModule (p : Program) : Program := (lowerWith .default p).program.asModule

end PlainJs

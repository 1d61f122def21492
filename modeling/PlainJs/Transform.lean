import PlainJs.Grammar.Module
import PlainJs.Lowering.Helper
import PlainJs.Lowering.Pipeline
import PlainJs.Node.Printer

namespace PlainJs

/-- What comes of a source text. The code is present whenever the text could be read, also if a
construct could not be lowered. -/
structure Transformed where
  code : String
  hadError : Bool
  message : Option String
  program : Option Program
  diagnostics : List Diagnostic

/-- The text of a lowered program with the key helper behind it, where that is asked for. -/
def Lowered.code (r : Lowered) (config : Config) : String :=
  r.program.print ++ (helperEpilogue r.program config).elim "" (· ++ "\n")

namespace Transformed

/-- The source text is no program. -/
def rejected (r : Rejection) : Transformed := ⟨"", true, some r.message, none, r.diagnostics⟩

def ofLowered (config : Config) (r : Lowered) : Transformed :=
  let errors := r.diagnostics.filter Diagnostic.isError
  let message := "\n".intercalate (errors.map Diagnostic.display)
  ⟨r.code config, r.hadError, if r.hadError then some message else none, some r.program,
    r.diagnostics⟩

end Transformed

/-- Lowers the text of a file. -/
def transformSource (source filename : String) (config : Config) :
    Except ConfigFault Transformed := do
  config.validate
  match parseSource source filename with
  | .error r => return .rejected r
  | .ok p => return .ofLowered config (lowerWith config p)

end PlainJs

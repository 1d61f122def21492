import PlainJs.Span

namespace PlainJs

inductive Severity
  | error | warning
deriving DecidableEq, Repr

namespace Severity

def text : Severity → String
  | error => "error"
  | warning => "warning"

end Severity

/-- What a diagnostic is about. -/
inductive Concern
  /-- The construct is known but cannot be lowered; it is left as it is. -/
  | unsupported
  /-- The source text is not a program. -/
  | parseFailure
  /-- The lowered program would not be valid; nothing runs after it. -/
  | violation
  /-- The lowered program is valid but does not keep every behaviour. -/
  | limitation
deriving DecidableEq, Repr

namespace Concern

def text : Concern → String
  | unsupported => "unsupported-syntax"
  | parseFailure => "parse-failure"
  | violation => "invariant-violation"
  | limitation => "known-limitation"

def severity : Concern → Severity
  | limitation => .warning
  | _ => .error

end Concern

structure Diagnostic where
  concern : Concern
  span : Span
  message : String
deriving DecidableEq, Repr

namespace Diagnostic

def severity (d : Diagnostic) : Severity := d.concern.severity

def isError (d : Diagnostic) : Bool := d.severity == .error

/-- A fatal diagnostic ends the lowering of the program. -/
def isFatal (d : Diagnostic) : Bool := d.concern == .violation

/-- Whether it points at generated code. -/
def isSynthetic (d : Diagnostic) : Bool := d.span.isDummy

def display (d : Diagnostic) : String :=
  d.severity.text ++ "[" ++ d.concern.text ++ "]: " ++ d.message ++
    if d.isSynthetic then " (in generated code)" else ""

theorem isError_of_isFatal {d : Diagnostic} (h : d.isFatal = true) : d.isError = true := by
  simp only [isFatal, beq_iff_eq] at h
  simp [isError, severity, h, Concern.severity]

end Diagnostic

/-- The jumps that can name a label. -/
inductive Jump
  | break | continue
deriving DecidableEq, Repr

def Jump.text : Jump → String
  | .break => "break"
  | .continue => "continue"

/-- Why a program's jumps and labels do not fit together. -/
inductive LabelFault
  | duplicate (label : String)
  | unresolved (jump : Jump) (label : String)
  | orphanContinue
deriving DecidableEq, Repr

namespace LabelFault

def message : LabelFault → String
  | duplicate label =>
    "label `" ++ label ++ "` is declared inside a statement that already carries it"
  | unresolved jump label =>
    "`" ++ jump.text ++ " " ++ label ++ "` has no enclosing statement labeled `" ++ label ++ "`"
  | orphanContinue => "`continue` outside of any loop"

def diagnostic (span : Span) (fault : LabelFault) : Diagnostic :=
  ⟨.violation, span, fault.message⟩

end LabelFault

end PlainJs

import PlainJs.Diagnostic
import PlainJs.Node.Children
import PlainJs.Node.Parts

namespace PlainJs

/-- The faults of a tree in visiting order; `labels` are those of the statements around it. -/
def labelFaults (labels : List String) {c : Cat} (n : Node c) : List (LabelFault × Span) :=
  match c, n with
  | _, .labeledStmt span label body =>
    (if label.name ∈ labels then [(.duplicate label.name, span)] else []) ++
      labelFaults (label.name :: labels) body
  | _, .breakStmt span label => unresolved span .break label
  | _, .continueStmt span label => unresolved span .continue label
  | _, n =>
    let inner := if n.isFunctionLike then [] else labels
    n.children.attach.flatMap fun ⟨⟨_, k⟩, _⟩ => labelFaults inner k
termination_by sizeOf n
decreasing_by
  · simp only [Node.labeledStmt.sizeOf_spec]; omega
  · exact Node.sizeOf_lt_of_mem_children ‹_›
where
  unresolved (span : Span) (jump : Jump) : Option Ident → List (LabelFault × Span)
    | some label =>
      if label.name ∈ labels then [] else [(.unresolved jump label.name, span)]
    | none => []

/-- Everything that breaks the rules for labels in a program. -/
def validateLabels (p : Program) : List Diagnostic :=
  (labelFaults [] p).map fun (fault, span) => fault.diagnostic span

end PlainJs

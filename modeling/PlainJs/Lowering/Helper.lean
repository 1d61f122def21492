import PlainJs.Config.Basic
import PlainJs.Node.Children

namespace PlainJs

namespace Node

def isRefTo (name : String) : Node .callee → Bool
  | .exprCallee (.ref id) => id.name == name
  | _ => false

/-- Whether a tree calls the function of that name. -/
def calls (name : String) {c : Cat} (n : Node c) : Bool :=
  let inParts := n.children.attach.any fun ⟨⟨_, k⟩, _⟩ => calls name k
  match c, n with
  | _, .call _ _ callee _ => isRefTo name callee || inParts
  | _, _ => inParts
termination_by sizeOf n
decreasing_by exact Node.sizeOf_lt_of_mem_children ‹_›

end Node

/-- The definition of the key helper, if it is asked for and the program calls it. -/
def helperEpilogue (p : Program) (config : Config) : Option String :=
  if config.emitKeyHelper && p.calls config.keyHelper then some config.helperSource else none

end PlainJs

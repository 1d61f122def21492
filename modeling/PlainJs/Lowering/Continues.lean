import PlainJs.Lowering.Context
import PlainJs.Node.Build

namespace PlainJs

/-- A statement around a `continue` through which it may find its loop. -/
inductive JumpTarget
  | labeled (label : String)
  /-- A loop, with the label of its body once a `continue` has needed one. -/
  | loop (bodyLabel : Option Ident)
deriving DecidableEq, Repr

namespace JumpTarget

def isLoop : JumpTarget → Bool
  | loop _ => true
  | labeled _ => false

def hasLabel (label : String) : JumpTarget → Bool
  | labeled l => l == label
  | loop _ => false

def bodyLabel : JumpTarget → Option Ident
  | loop l => l
  | labeled _ => none

/-- Where in `targets`, innermost first, the loop stands that a `continue` aims at: the innermost
loop, or the outermost loop inside the statement with the given label. -/
def resolve (targets : List JumpTarget) : Option Ident → Except LabelFault Nat
  | none =>
    match targets.findIdx? isLoop with
    | some i => .ok i
    | none => .error .orphanContinue
  | some label =>
    match targets.findIdx? (hasLabel label.name) with
    | none => .error (.unresolved .continue label.name)
    | some i =>
      match (targets.take i).zipIdx.reverse.find? (·.1.isLoop) with
      | some (_, j) => .ok j
      | none => .error (.unresolved .continue label.name)

end JumpTarget

/-- Lowering that knows the statements around, innermost first. -/
abbrev LowerIn := StateT (List JumpTarget) Lower

namespace Continues

/-- The label for the body of the loop at `i`, made on first use. -/
def bodyLabelAt (i : Nat) : LowerIn Ident := do
  let targets ← get
  match targets[i]?.bind JumpTarget.bodyLabel with
  | some label => return label
  | none =>
    let label ← (Lower.freshLabel "L" : Lower Ident)
    set (targets.set i (.loop (some label)))
    return label

/-- What a `continue` becomes; one without a loop is reported and stays. -/
def replace (span : Span) (label : Option Ident) : LowerIn Stmt := do
  match JumpTarget.resolve (← get) label with
  | .ok i => return Node.Build.breakTo (some (← bodyLabelAt i))
  | .error fault =>
    (Lower.violation fault span : Lower Unit)
    return .continueStmt span label

/-- Runs `m` with one more statement around, and gives that statement as `m` leaves it. -/
def inside {α : Type} (target : JumpTarget) (m : LowerIn α) : LowerIn (α × JumpTarget) := do
  modify (target :: ·)
  let a ← m
  let targets ← get
  set targets.tail
  return (a, targets.headD target)

/-- Runs `m` as a function body, which no jump leaves. -/
def isolated {α : Type} (m : LowerIn α) : LowerIn α := do
  let targets ← get
  set ([] : List JumpTarget)
  let a ← m
  set targets
  return a

/-- Labels the body of a loop. -/
def labelBody (label : Ident) (body : Stmt) : Stmt :=
  Node.Build.labeled label (.blockStmt (Node.Build.intoBlock body))

end Continues

open Continues in
/-- Replaces every `continue` of a tree. -/
def replaceContinuesIn {c : Cat} (n : Node c) : LowerIn (Node c) :=
  match c, n with
  | _, .labeledStmt span label body => do
    let (body, _) ← inside (.labeled label.name) (replaceContinuesIn body)
    return .labeledStmt span label body
  | _, .continueStmt span label => replace span label
  | _, n =>
    let parts := n.traverse fun k _ => replaceContinuesIn k
    if n.isLoop then do
      let (n, target) ← inside (.loop none) parts
      match target.bodyLabel with
      | some label => return n.mapLoopBody (labelBody label)
      | none => return n
    else if n.isFunctionLike then isolated parts
    else parts
termination_by sizeOf n
decreasing_by
  · simp only [Node.labeledStmt.sizeOf_spec]; omega
  · exact Node.sizeOf_lt_of_mem_children ‹_›

/-- Replaces every `continue` of a program by a `break` out of a labelled body: the loop
`while (x) { if (y) continue; f(); }` becomes `while (x) L: { if (y) break L; f(); }`. -/
def replaceContinues (p : Program) : Lower Program := do
  let (p, _) ← (replaceContinuesIn p).run []
  return p

end PlainJs

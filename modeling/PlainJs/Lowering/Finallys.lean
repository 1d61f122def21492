import PlainJs.Lowering.Context
import PlainJs.Node.Build

namespace PlainJs

/-- The jumps that can leave a `try`. -/
inductive Exit
  | return | break | continue
deriving DecidableEq, Repr

def Exit.text : Exit → String
  | .return => "return"
  | .break => "break"
  | .continue => "continue"

namespace Finallys

open Node Build

/-- What surrounds a statement inside a `try`: the labels, and whether there is a loop or anything
that an unlabelled `break` leaves. -/
structure Within where
  labels : List String
  inLoop : Bool
  inBreakable : Bool
deriving DecidableEq, Repr

namespace Within

def top : Within := ⟨[], false, false⟩

/-- Whether a jump with this label, or none where `caught` says that one stays inside, leaves. -/
def escapes (w : Within) (caught : Bool) : Option Ident → Bool
  | .none => !caught
  | .some label => !w.labels.contains label.name

/-- What surrounds the parts of a node. -/
def enter (w : Within) {c : Cat} (n : Node c) : Within :=
  if n.isLoop then { w with inLoop := true, inBreakable := true }
  else
    match c, n with
    | _, .switchStmt .. => { w with inBreakable := true }
    | _, _ => w

end Within

/-- The jumps of a tree that leave what surrounds it, in visiting order. -/
def exits (w : Within) {c : Cat} (n : Node c) : List (Span × Exit) :=
  match c, n with
  | _, .returnStmt span _ => [(span, .return)]
  | _, .breakStmt span label =>
    if w.escapes w.inBreakable label then [(span, .break)] else []
  | _, .continueStmt span label =>
    if w.escapes w.inLoop label then [(span, .continue)] else []
  | _, .labeledStmt _ label body => exits { w with labels := label.name :: w.labels } body
  | _, .func .. | _, .arrow .. | _, .cls .. => []
  | _, n => n.children.attach.flatMap fun ⟨⟨_, k⟩, _⟩ => exits (w.enter n) k
termination_by sizeOf n
decreasing_by
  · simp only [Node.labeledStmt.sizeOf_spec]; omega
  · exact Node.sizeOf_lt_of_mem_children ‹_›

def handlerBody : Node .handler → Block
  | .handler _ _ body => body

/-- The jumps that leave the body or the handler of a `try`. -/
def earlyExits (body : Block) (handler : Node (.opt .handler)) : List (Span × Exit) :=
  exits .top body ++ (handler.toOption.map fun h => exits .top (handlerBody h)).getD []

/-- The clause that records what was thrown. -/
def recordClause (threw err caught : Ident) : Node .handler :=
  .handler .none (.some (.binder caught))
    (block [Build.exprStmt (assignTo threw (Build.bool true)),
      Build.exprStmt (assignTo err (.ref caught))])

/-- The `try` whose uncaught exceptions are recorded. -/
def guarded (body : Block) (recording : Node .handler) : Node (.opt .handler) → Stmt
  | .none => .tryStmt .none body (.some recording) .none
  | .some (.handler span p b) =>
    let inner : Stmt := .tryStmt .none b (.some recording) .none
    .tryStmt .none body (.some (.handler span p (block [inner]))) .none

/-- Lowers a `try` with a finalizer. -/
def lower (span : Span) (body : Block) (handler : Node (.opt .handler)) (finalizer : Block) :
    Lower Stmt := do
  let threw ← Lower.fresh "threw"
  let err ← Lower.fresh "err"
  let caught ← Lower.fresh "e"
  return Build.blockStmt span
    [declare .let threw (.some (Build.bool false)), declare .let err .none,
      guarded body (recordClause threw err caught) handler, .blockStmt finalizer,
      ifElse (.ref threw) (Build.throwStmt (.ref err)) .none]

def exitMessage (e : Exit) : String :=
  "`" ++ e.text ++ "` leaves the `try` without running its `finally` block"

/-- Lowers a `try` whose parts are lowered already. -/
def lowerTry : Stmt → Lower Stmt
  | .tryStmt span b h (.some f) => do
    (earlyExits b h).forM fun (site, e) => Lower.limitation site (exitMessage e)
    lower span b h f
  | s => return s

end Finallys

/-- Removes every `finally` of a program. The block runs behind its `try`, which records what was
thrown:

    {
        let threw = false;
        let err;
        try { body } catch (p) { try { handler } catch (e) { threw = true; err = e; } }
        { finalizer }
        if (threw) throw err;
    }
-/
def lowerFinallys (p : Program) : Lower Program := Lower.bottomUp Finallys.lowerTry p

end PlainJs

import PlainJs.Node.Basic

namespace PlainJs

namespace Node

def blockStmts : Block → Node (.list .stmt)
  | .block _ _ stmts => stmts

/-- The statements of a function body; an absent body has none. -/
def bodyStmts : Node (.opt .block) → Node (.list .stmt)
  | .none => .nil
  | .some b => b.blockStmts

theorem sizeOf_blockStmts_lt (b : Block) : sizeOf b.blockStmts < sizeOf b := by
  cases b
  simp only [blockStmts, block.sizeOf_spec]
  omega

theorem sizeOf_bodyStmts_le (b : Node (.opt .block)) : sizeOf b.bodyStmts ≤ sizeOf b := by
  cases b with
  | none => simp [bodyStmts]
  | some b =>
    have h := sizeOf_blockStmts_lt b
    simp only [bodyStmts, some.sizeOf_spec]
    omega

/-- Whether a node opens a body that jumps do not leave and labels do not reach into. -/
def isFunctionLike : {c : Cat} → Node c → Bool
  | _, .func .. | _, .arrow .. | _, .ctorMember .. | _, .getterProp .. | _, .setterProp ..
  | _, .staticBlock .. => true
  | _, _ => false

/-- Whether a node is a loop statement. -/
def isLoop : {c : Cat} → Node c → Bool
  | _, .whileStmt .. | _, .doWhileStmt .. | _, .forStmt .. | _, .forInStmt ..
  | _, .forOfStmt .. => true
  | _, _ => false

/-- A loop with a changed body; other nodes stay as they are. -/
def mapLoopBody (f : Stmt → Stmt) : {c : Cat} → Node c → Node c
  | _, .whileStmt span t b => .whileStmt span t (f b)
  | _, .doWhileStmt span t b => .doWhileStmt span t (f b)
  | _, .forStmt span i t u b => .forStmt span i t u (f b)
  | _, .forInStmt span h e b => .forInStmt span h e (f b)
  | _, .forOfStmt span isAwait h e b => .forOfStmt span isAwait h e (f b)
  | _, n => n

/-- The identifier that a pattern is, if it is no more than that. -/
def binder? : Pat → Option Ident
  | .binder id => .some id
  | _ => .none

def isBinder (p : Pat) : Bool := p.binder?.isSome

/-- The identifiers that a pattern binds, in source order; those inside its expressions are not
among them. -/
def boundIdents : {c : Cat} → Node c → List Ident
  | _, .nil => []
  | _, .cons a l => a.boundIdents ++ l.boundIdents
  | _, .none => []
  | _, .some a => a.boundIdents
  | _, .binder id => [id]
  | _, .arrayPat _ _ elems => elems.boundIdents
  | _, .objectPat _ _ props => props.boundIdents
  | _, .restPat _ _ p => p.boundIdents
  | _, .defaultPat _ p _ => p.boundIdents
  | _, .keyedPat _ p => p.boundIdents
  | _, .shortPat _ id _ => [id]
  | _, .restProp _ _ p => p.boundIdents
  | _, .param _ _ p => p.boundIdents
  | _, .declarator _ _ p _ => p.boundIdents
  | _, _ => []

end Node

end PlainJs

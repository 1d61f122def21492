import PlainJs.Proofs.Rules.Operands

namespace PlainJs

open Node Build

/-- From an expression to the part that it begins with. -/
inductive LeftStep
  | sequence | target | test | operand | update | object | callee | tag | chain
deriving DecidableEq, Repr

/-- Steps to the operand of `++` or `--`, to an assigned property, to the tag of a template and to
the base of an optional chain. -/
def LeftStep.isOverlooked : LeftStep → Bool
  | target | update | tag | chain => true
  | sequence | test | operand | object | callee => false

/-- The part that an expression begins with and the way to it. -/
structure Beginning where
  steps : List LeftStep
  {cat : Cat}
  first : Node cat

namespace Beginning

def behind (s : LeftStep) (b : Beginning) : Beginning := { b with steps := s :: b.steps }

def isOverlooked (b : Beginning) : Bool := b.steps.any LeftStep.isOverlooked

end Beginning

namespace Node

/-- Whether a statement cannot begin with a part. -/
def isOpening : {c : Cat} → Node c → Bool
  | _, .object .. | _, .objectPat .. | _, .function .. | _, .classExpr .. => true
  | _, _ => false

def beginning : {c : Cat} → Node c → Beginning
  | _, .seq _ (.cons e _) => e.beginning.behind .sequence
  | _, .assign _ _ (.exprPat e) _ => e.beginning.behind .target
  | _, .assign _ _ p _ => ⟨[], p⟩
  | _, .cond _ t _ _ => t.beginning.behind .test
  | _, .binary _ _ l _ => l.beginning.behind .operand
  | _, .update _ _ false e => e.beginning.behind .update
  | _, .member _ o _ => o.beginning.behind .object
  | _, .call _ _ (.exprCallee f) _ => f.beginning.behind .callee
  | _, .tagged _ _ f _ _ _ => f.beginning.behind .tag
  | _, .optMember _ _ _ o _ => o.beginning.behind .chain
  | _, .optCall _ _ _ _ f _ => f.beginning.behind .chain
  | _, n => ⟨[], n⟩

/-- Parentheses are added where an expression begins with what no statement may begin with, if no
step to it is overlooked. -/
theorem startsAmbiguously_eq (e : Expr) :
    e.startsAmbiguously = (e.beginning.first.isOpening && !e.beginning.isOverlooked) := by
  cases e with
  | seq span es =>
    cases es with
    | nil => rfl
    | cons e es => exact e.startsAmbiguously_eq
  | cond span t a b => exact t.startsAmbiguously_eq
  | binary span op l r => exact l.startsAmbiguously_eq
  | member span o k => exact o.startsAmbiguously_eq
  | call span ctxt f args =>
    cases f with
    | exprCallee f => exact f.startsAmbiguously_eq
    | _ => rfl
  | assign span op p e =>
    cases p with
    | exprPat e => exact (Bool.and_false _).symm
    | _ => rfl
  | update span op isPrefix e =>
    cases isPrefix with
    | true => rfl
    | false => exact (Bool.and_false _).symm
  | tagged | optMember | optCall => exact (Bool.and_false _).symm
  | _ => rfl

end Node

/-- An expression statement holds its expression, with parentheses around it only if it begins with
what no statement may begin with. They are missing exactly where that part is reached by a step that
is overlooked. -/
theorem exprStmt_opening_iff (e : Expr) :
    ∃ e', Build.exprStmt e = .exprStmt .none e' ∧
      (e' = e ∨ e' = .paren .none e ∧ e.beginning.first.isOpening = true) ∧
      (e'.beginning.first.isOpening = true ↔
        e.beginning.first.isOpening = true ∧ e.beginning.isOverlooked = true) := by
  have heq := e.startsAmbiguously_eq
  cases hstarts : e.startsAmbiguously with
  | false =>
    rw [hstarts, eq_comm, Bool.and_eq_false_imp] at heq
    refine ⟨e, by rw [Build.exprStmt, hstarts]; rfl, .inl rfl, ?_⟩
    constructor
    · intro hopening
      exact ⟨hopening, by simpa using heq hopening⟩
    · exact And.left
  | true =>
    rw [hstarts, eq_comm, Bool.and_eq_true, Bool.not_eq_true'] at heq
    obtain ⟨hopening, hfollowed⟩ := heq
    refine ⟨.paren .none e, by rw [Build.exprStmt, hstarts]; rfl, .inr ⟨rfl, hopening⟩, ?_⟩
    constructor
    · intro hparen
      exact (Bool.false_ne_true hparen).elim
    · rintro ⟨-, hoverlooked⟩
      exact (Bool.eq_false_iff.mp hfollowed hoverlooked).elim

/-- `{}.x++`, `{}.x = 1`, an empty template with the tag `{}.x`, and `{}?.x`. -/
def overlookedOpenings : List Expr :=
  let key : Key := .fixedKey .none (.name "x")
  let x : Expr := Build.member emptyObject "x"
  [.update .none .increment false x, Build.assign (.exprPat x) (Build.num 1),
    .tagged .none 0 x .none .nil [⟨.none, true, some "", ""⟩],
    .optMember .none true .none emptyObject key]

theorem exprStmt_overlooks_openings :
    overlookedOpenings.Forall fun e => e.all hasFittingOperands = true ∧
      Build.exprStmt e = .exprStmt .none e ∧ e.beginning.first.isOpening = true := by
  have hfits : ∀ e ∈ overlookedOpenings, e.all hasFittingOperands = true := by decide +kernel
  have hbare : ∀ e ∈ overlookedOpenings,
      Build.exprStmt e = .exprStmt .none e ∧ e.beginning.first.isOpening = true := by
    simp only [overlookedOpenings, List.forall_mem_cons]
    exact ⟨⟨rfl, rfl⟩, ⟨rfl, rfl⟩, ⟨rfl, rfl⟩, ⟨rfl, rfl⟩, List.forall_mem_nil _⟩
  exact List.forall_iff_forall_mem.mpr fun e he => ⟨hfits e he, hbare e he⟩

end PlainJs

import Mathlib.Algebra.BigOperators.Group.List.Defs
import Mathlib.Algebra.GroupWithZero.Nat
import PlainJs.Lowering.Continues
import PlainJs.Proofs.Jumps
import PlainJs.Proofs.Outline
import PlainJs.Proofs.Steps

namespace PlainJs

/-- What stands around a node in its function: labels and loops, innermost first, and whether a
`break` without a label finds something to leave. -/
structure Frame where
  around : List JumpTarget
  caught : Bool

namespace JumpTarget

def label? : JumpTarget → Option String
  | labeled l => some l
  | loop _ => none

end JumpTarget

namespace Frame

/-- Around a function body stands nothing. -/
def top : Frame := ⟨[], false⟩

def labels (fr : Frame) : List String := fr.around.filterMap JumpTarget.label?

/-- What stands around the body of a loop. -/
def loop (fr : Frame) : Frame := ⟨.loop none :: fr.around, true⟩

/-- What stands around a statement with a label. -/
def label (fr : Frame) (l : String) : Frame := { fr with around := .labeled l :: fr.around }

/-- What stands around the parts of a node. -/
def enter (fr : Frame) {c : Cat} (n : Node c) : Frame :=
  match c, n with
  | _, .labeledStmt _ label _ => fr.label label.name
  | _, .switchStmt .. => { fr with caught := true }
  | _, n => if n.isLoop then fr.loop else if n.isFunctionLike then .top else fr

@[simp] theorem labels_loop (fr : Frame) : fr.loop.labels = fr.labels := rfl

@[simp] theorem labels_label (fr : Frame) (l : String) :
    (fr.label l).labels = l :: fr.labels := rfl

end Frame

namespace Node

/-- Whether a node is a `break` without a label. -/
def isLeave : {c : Cat} → Node c → Bool
  | _, .breakStmt _ .none => true
  | _, _ => false

/-- Whether declarators need no more splitting: there is one at most, and if it declares a pattern
then this has been reported. -/
def isSettledShape (known : List Diagnostic) (shape : List DeclShape) : Bool :=
  shape.length ≤ 1 && shape.all fun d => d.isPlain || isReported known d.span

/-- Whether a node counts nothing itself. -/
def isGlue (known : List Diagnostic) : {c : Cat} → Node c → Bool
  | _, .labeledStmt .. | _, .breakStmt .. | _, .continueStmt .. => false
  | _, .declarator .. | _, .param .. | _, .func .. | _, .arrow .. | _, .setterProp .. | _, .handler ..
  | _, .declFunc .. | _, .declClass .. | _, .exportFunc .. | _, .exportClass ..
  | _, .importItem .. => false
  | _, .function name _ | _, .classExpr name _ => name.isNone
  | _, .newCall .. | _, .optCall .. | _, .tagged .. | _, .update .. | _, .awaitExpr ..
  | _, .yieldExpr .. => false
  | _, .call span _ _ _ | _, .assign span _ _ _ => span == .none
  | _, .forStmt .. | _, .doWhileStmt .. | _, .forInStmt .. | _, .forOfStmt ..
  | _, .switchStmt .. | _, .tryStmt _ _ _ (.some _) => false
  | _, .declVar v => isSettledShape known v.declShape
  | _, _ => true

/-- Whether a node is a statement that has been reported and left as it is. -/
def isLeft (known : List Diagnostic) : {c : Cat} → Node c → Bool
  | _, .forInStmt span _ _ _ | _, .forOfStmt span _ _ _ _ => isReported known span
  | _, .switchStmt _ _ clauses => clauses.declSpans.any (isReported known)
  | _, _ => false

end Node

open Node

/-- A way to weigh nodes and names. The names of identifiers that are declared weigh `mark`. -/
structure Measure (known : List Diagnostic) where
  own : Frame → ∀ {c : Cat}, Node c → Nat
  mark : String → Nat
  /-- What the names weigh that a supply has handed out. -/
  held : NameSupply → Nat
  own_glue : ∀ {fr : Frame} {c : Cat} {n : Node c}, n.isGlue known = true → own fr n = 0
  own_declarator : ∀ {fr : Frame} {span : Span} {definite : Bool} {p : Pat}
    {init : Node (.opt .expr)}, own fr (.declarator span definite p init) =
      (p.boundIdents.map fun id => mark id.name).sum
  own_parts : ∀ {fr : Frame} {c : Cat} {n n' : Node c},
    Parts (fun k k' => SameOutline k k' ∧ (n.isSwitch = true → k.declSpans = k'.declSpans)) n n' →
      own fr n = own fr n'
  /-- The names that may be handed out. -/
  admits : String → Prop := fun _ => True
  held_fresh : ∀ (s : NameSupply) (hint : String), hint ∈ NameSupply.hints →
    admits (s.pick hint) → held (s.fresh hint).2 = mark (s.pick hint) + held s

/-- What a supply weighs where names have no weight. -/
def NameSupply.unweighed (_ : NameSupply) : Nat := 0

theorem NameSupply.unweighed_fresh (s : NameSupply) (hint : String)
    (_ : hint ∈ NameSupply.hints) (_ : True) : (s.fresh hint).2.unweighed = 0 + s.unweighed := rfl

theorem NameSupply.unweighed_freshLabel (s : NameSupply) (hint : String) :
    (s.freshLabel hint).2.unweighed = 0 + s.unweighed := rfl

/-- Where names have no weight, a declarator gets none from the names that it declares. -/
theorem Node.unweighed_declarator : ∀ {_ : Frame} {_ : Span} {_ : Bool} {p : Pat}
    {_ : Node (.opt .expr)}, 0 = (p.boundIdents.map fun _ => 0).sum :=
  List.sum_map_zero.symm

namespace Measure

variable {known : List Diagnostic} (w : Measure known)

/-- Statements that have been reported count nothing. -/
def Spares : Prop :=
  ∀ {fr : Frame} {c : Cat} {n : Node c}, n.isLeft known = true → w.own fr n = 0

/-- The weight of a tree. -/
def of (fr : Frame) {c : Cat} (n : Node c) : Nat :=
  w.own fr n + (n.children.attach.map fun ⟨⟨_, k⟩, _⟩ => of (fr.enter n) k).sum
termination_by sizeOf n
decreasing_by exact sizeOf_lt_of_mem_children ‹_›

/-- The weight of the parts of a tree. -/
def inner (fr : Frame) {c : Cat} (n : Node c) : Nat :=
  (n.children.map fun k => w.of (fr.enter n) k.2).sum

/-- The weight of statements that follow each other. -/
def all (fr : Frame) {c : Cat} (l : List (Node c)) : Nat := (l.map (w.of fr)).sum

variable {w} {fr : Frame} {c d e : Cat} {n n' : Node c}

theorem of_eq (n : Node c) : w.of fr n = w.own fr n + w.inner fr n := by
  rw [of, inner]
  simp

theorem of_leaf (hglue : n.isGlue known = true) (hparts : n.children = []) : w.of fr n = 0 := by
  rw [of_eq, w.own_glue hglue, inner, hparts, List.map_nil, List.sum_nil, Nat.add_zero]

theorem of_one {a : Node d} (hglue : n.isGlue known = true) (hparts : n.children = [⟨d, a⟩])
    (hfr : fr.enter n = fr) : w.of fr n = w.of fr a := by
  rw [of_eq, w.own_glue hglue, inner, hparts, hfr]
  simp

theorem of_two {a : Node d} {b : Node e} (hglue : n.isGlue known = true)
    (hparts : n.children = [⟨d, a⟩, ⟨e, b⟩]) (hfr : fr.enter n = fr) :
    w.of fr n = w.of fr a + w.of fr b := by
  rw [of_eq, w.own_glue hglue, inner, hparts, hfr]
  simp

theorem of_three {c' : Cat} {a : Node d} {b : Node e} {b' : Node c'} (hglue : n.isGlue known = true)
    (hparts : n.children = [⟨d, a⟩, ⟨e, b⟩, ⟨c', b'⟩]) (hfr : fr.enter n = fr) :
    w.of fr n = w.of fr a + w.of fr b + w.of fr b' := by
  rw [of_eq, w.own_glue hglue, inner, hparts, hfr]
  simp [Nat.add_assoc]

@[simp] theorem of_nil : w.of fr (.nil : Node (.list c)) = 0 := of_leaf rfl rfl

@[simp] theorem of_cons (a : Node c) (l : Node (.list c)) :
    w.of fr (.cons a l) = w.of fr a + w.of fr l := of_two rfl rfl rfl

@[simp] theorem of_none : w.of fr (.none : Node (.opt c)) = 0 := of_leaf rfl rfl

@[simp] theorem of_some (a : Node c) : w.of fr (.some a) = w.of fr a := of_one rfl rfl rfl

@[simp] theorem all_nil : w.all fr ([] : List (Node c)) = 0 := rfl

@[simp] theorem all_cons (a : Node c) (l : List (Node c)) :
    w.all fr (a :: l) = w.of fr a + w.all fr l := rfl

@[simp] theorem all_append (l l' : List (Node c)) :
    w.all fr (l ++ l') = w.all fr l + w.all fr l' := by
  simp [all]

theorem all_flatten (ls : List (List (Node c))) :
    w.all fr ls.flatten = (ls.map (w.all fr)).sum := by
  induction ls with
  | nil => rfl
  | cons l ls ih => simp [ih]

@[simp] theorem of_ofList (l : List (Node c)) : w.of fr (.ofList l) = w.all fr l := by
  induction l with
  | nil => exact of_nil
  | cons a l ih => rw [Node.ofList, of_cons, ih, all_cons]

@[simp] theorem all_toList (l : Node (.list c)) : w.all fr l.toList = w.of fr l := by
  rw [← of_ofList, ofList_toList]

@[simp] theorem of_ofOption (o : Option (Node c)) :
    w.of fr (.ofOption o) = w.all fr o.toList := by
  cases o with
  | none => exact of_none
  | some a => exact of_some a

@[simp] theorem of_ref (id : Ident) : w.of fr (.ref id) = 0 := of_leaf rfl rfl

@[simp] theorem of_atom (span : Span) (a : Atom) : w.of fr (.atom span a) = 0 := of_leaf rfl rfl

@[simp] theorem of_paren (span : Span) (a : Expr) : w.of fr (.paren span a) = w.of fr a :=
  of_one rfl rfl rfl

@[simp] theorem of_object (span : Span) (props : Node (.list .prop)) :
    w.of fr (.object span props) = w.of fr props := of_one rfl rfl rfl

@[simp] theorem of_classExpr (name : Option Ident) (a : Node .cls) :
    w.of fr (.classExpr name a) = w.own fr (.classExpr name a) + w.of fr a := by
  rw [of_eq]
  rfl

@[simp] theorem of_unary (span : Span) (op : UnaryOp) (a : Expr) :
    w.of fr (.unary span op a) = w.of fr a := of_one rfl rfl rfl

@[simp] theorem of_binary (span : Span) (op : BinaryOp) (a b : Expr) :
    w.of fr (.binary span op a b) = w.of fr a + w.of fr b := of_two rfl rfl rfl

@[simp] theorem of_cond (span : Span) (a b b' : Expr) :
    w.of fr (.cond span a b b') = w.of fr a + w.of fr b + w.of fr b' := of_three rfl rfl rfl

@[simp] theorem of_member (span : Span) (a : Expr) (b : Key) :
    w.of fr (.member span a b) = w.of fr a + w.of fr b := of_two rfl rfl rfl

@[simp] theorem of_superMember (span superSpan : Span) (b : Key) :
    w.of fr (.superMember span superSpan b) = w.of fr b := of_one rfl rfl rfl

@[simp] theorem of_assign (op : AssignOp) (a : Pat) (b : Expr) :
    w.of fr (.assign .none op a b) = w.of fr a + w.of fr b := of_two rfl rfl rfl

@[simp] theorem of_call (ctxt : Nat) (a : Node .callee) (b : Node (.list .arg)) :
    w.of fr (.call .none ctxt a b) = w.of fr a + w.of fr b := of_two rfl rfl rfl

@[simp] theorem of_exprCallee (a : Expr) : w.of fr (.exprCallee a) = w.of fr a :=
  of_one rfl rfl rfl

@[simp] theorem of_plainArg (a : Expr) : w.of fr (.plainArg a) = w.of fr a := of_one rfl rfl rfl

@[simp] theorem of_fixedKey (span : Span) (k : FixedKey) : w.of fr (.fixedKey span k) = 0 :=
  of_leaf rfl rfl

@[simp] theorem of_computedKey (span : Span) (a : Expr) :
    w.of fr (.computedKey span a) = w.of fr a := of_one rfl rfl rfl

@[simp] theorem of_binder (id : Ident) : w.of fr (.binder id) = 0 := of_leaf rfl rfl

@[simp] theorem of_arrayPat (span : Span) (optional : Bool) (a : Node (.list (.opt .pat))) :
    w.of fr (.arrayPat span optional a) = w.of fr a := of_one rfl rfl rfl

@[simp] theorem of_objectPat (span : Span) (optional : Bool) (a : Node (.list .patProp)) :
    w.of fr (.objectPat span optional a) = w.of fr a := of_one rfl rfl rfl

@[simp] theorem of_restPat (span dots : Span) (a : Pat) :
    w.of fr (.restPat span dots a) = w.of fr a := of_one rfl rfl rfl

@[simp] theorem of_defaultPat (span : Span) (a : Pat) (b : Expr) :
    w.of fr (.defaultPat span a b) = w.of fr a + w.of fr b := of_two rfl rfl rfl

@[simp] theorem of_exprPat (a : Expr) : w.of fr (.exprPat a) = w.of fr a := of_one rfl rfl rfl

@[simp] theorem of_keyedPat (a : Key) (b : Pat) :
    w.of fr (.keyedPat a b) = w.of fr a + w.of fr b := of_two rfl rfl rfl

@[simp] theorem of_shortPat (span : Span) (id : Ident) (a : Node (.opt .expr)) :
    w.of fr (.shortPat span id a) = w.of fr a := of_one rfl rfl rfl

@[simp] theorem of_restProp (span dots : Span) (a : Pat) :
    w.of fr (.restProp span dots a) = w.of fr a := of_one rfl rfl rfl

@[simp] theorem of_block (span : Span) (ctxt : Nat) (a : Node (.list .stmt)) :
    w.of fr (.block span ctxt a) = w.of fr a := of_one rfl rfl rfl

@[simp] theorem of_blockStmt (a : Block) : w.of fr (.blockStmt a) = w.of fr a :=
  of_one rfl rfl rfl

@[simp] theorem of_exprStmt (span : Span) (a : Expr) :
    w.of fr (.exprStmt span a) = w.of fr a := of_one rfl rfl rfl

@[simp] theorem of_throwStmt (span : Span) (a : Expr) :
    w.of fr (.throwStmt span a) = w.of fr a := of_one rfl rfl rfl

@[simp] theorem of_ifStmt (span : Span) (a : Expr) (b : Stmt) (b' : Node (.opt .stmt)) :
    w.of fr (.ifStmt span a b b') = w.of fr a + w.of fr b + w.of fr b' := of_three rfl rfl rfl

@[simp] theorem of_whileStmt (span : Span) (a : Expr) (b : Stmt) :
    w.of fr (.whileStmt span a b) = w.of fr.loop a + w.of fr.loop b := by
  rw [of_eq, w.own_glue rfl, Nat.zero_add]
  rfl

@[simp] theorem of_tryCatch (span : Span) (a : Block) (b : Node (.opt .handler)) :
    w.of fr (.tryStmt span a b .none) = w.of fr a + w.of fr b := by
  rw [of_three rfl rfl rfl, of_none, Nat.add_zero]

@[simp] theorem of_declStmt (a : Node .decl) : w.of fr (.declStmt a) = w.of fr a :=
  of_one rfl rfl rfl

@[simp] theorem of_varDecl (span : Span) (ctxt : Nat) (kind : VarKind) (declare : Bool)
    (a : Node (.list .declarator)) :
    w.of fr (.varDecl span ctxt kind declare a) = w.of fr a := of_one rfl rfl rfl

theorem of_declVar {v : VarDecl} (h : isSettledShape known v.declShape = true) :
    w.of fr (.declVar v) = w.of fr v := of_one h rfl rfl

@[simp] theorem of_stmtItem (a : Stmt) : w.of fr (.stmtItem a) = w.of fr a := of_one rfl rfl rfl

@[simp] theorem of_exportDecl (span : Span) (a : Node .decl) :
    w.of fr (.exportDecl span a) = w.of fr a := of_one rfl rfl rfl

theorem of_declarator (span : Span) (definite : Bool) (p : Pat) (init : Node (.opt .expr)) :
    w.of fr (.declarator span definite p init) =
      (p.boundIdents.map fun id => w.mark id.name).sum + w.of fr p + w.of fr init := by
  rw [of_eq, w.own_declarator, Nat.add_assoc]
  rfl

open Build

@[simp] theorem of_atLeast (least : Nat) (a : Expr) : w.of fr (atLeast least a) = w.of fr a := by
  unfold atLeast
  split
  · exact of_paren _ _
  · rfl

@[simp] theorem of_name (s : String) : w.of fr (Build.name s) = 0 := of_ref _

@[simp] theorem of_bool (b : Bool) : w.of fr (Build.bool b) = 0 := of_atom _ _

@[simp] theorem of_num (k : Nat) : w.of fr (Build.num k) = 0 := of_atom _ _

@[simp] theorem of_buildUnary (op : UnaryOp) (a : Expr) :
    w.of fr (Build.unary op a) = w.of fr a := by
  simp [Build.unary]

@[simp] theorem of_not (a : Expr) : w.of fr (Build.not a) = w.of fr a := of_buildUnary _ _

@[simp] theorem of_undefined : w.of fr undefined = 0 := by simp [undefined]

@[simp] theorem of_buildBinary (op : BinaryOp) (a b : Expr) :
    w.of fr (Build.binary op a b) = w.of fr a + w.of fr b := by
  simp [Build.binary]

@[simp] theorem of_buildCond (a b b' : Expr) :
    w.of fr (Build.cond a b b') = w.of fr a + w.of fr b + w.of fr b' := by
  simp [Build.cond]

@[simp] theorem of_access (a : Expr) (k : Key) :
    w.of fr (access a k) = w.of fr a + w.of fr k := by
  simp [access]

@[simp] theorem of_buildMember (a : Expr) (s : String) :
    w.of fr (Build.member a s) = w.of fr a := by
  simp [Build.member]

@[simp] theorem of_computed (a k : Expr) : w.of fr (computed a k) = w.of fr a + w.of fr k := by
  simp [computed]

@[simp] theorem of_buildCall (f : Expr) (args : List Expr) :
    w.of fr (Build.call f args) = w.of fr f + w.all fr args := by
  have hargs : w.all fr (args.map fun a => Node.plainArg (atLeast assignStrength a)) =
      w.all fr args := by
    induction args with
    | nil => rfl
    | cons a args ih => simp [ih]
  simp [Build.call, hargs]

@[simp] theorem of_buildAssign (p : Pat) (a : Expr) :
    w.of fr (Build.assign p a) = w.of fr p + w.of fr a := by
  simp [Build.assign]

@[simp] theorem of_assignTo (id : Ident) (a : Expr) : w.of fr (assignTo id a) = w.of fr a := by
  simp [assignTo]

@[simp] theorem of_emptyObject : w.of fr emptyObject = 0 := by simp [emptyObject]

@[simp] theorem of_buildExprStmt (a : Expr) : w.of fr (Build.exprStmt a) = w.of fr a := by
  unfold Build.exprStmt
  split <;> simp

@[simp] theorem of_buildBlock (l : List Stmt) : w.of fr (Build.block l) = w.all fr l := by
  simp [Build.block]

@[simp] theorem of_buildBlockStmt (span : Span) (l : List Stmt) :
    w.of fr (Build.blockStmt span l) = w.all fr l := by
  simp [Build.blockStmt]

@[simp] theorem of_intoBlock (a : Stmt) : w.of fr (intoBlock a) = w.of fr a := by
  unfold intoBlock
  split <;> simp

@[simp] theorem of_ifElse (t : Expr) (yes : Stmt) (no : Option Stmt) :
    w.of fr (ifElse t yes no) = w.of fr t + w.of fr yes + w.all fr no.toList := by
  simp [ifElse]

@[simp] theorem of_whileDo (span : Span) (t : Expr) (l : List Stmt) :
    w.of fr (whileDo span t l) = w.of fr.loop t + w.all fr.loop l := by
  simp [whileDo]

@[simp] theorem of_buildThrow (a : Expr) : w.of fr (Build.throwStmt a) = w.of fr a := by
  simp [Build.throwStmt]

@[simp] theorem of_declarePlain (span : Span) (kind : VarKind) (id : Ident) (init : Option Expr) :
    w.of fr (declarePat span kind (.binder id) init) =
      w.mark id.name + w.all fr init.toList := by
  rw [declarePat, of_declStmt, of_declVar rfl, of_varDecl, of_cons, of_nil, of_declarator]
  simp [boundIdents]

@[simp] theorem of_declare (kind : VarKind) (id : Ident) (init : Option Expr) :
    w.of fr (declare kind id init) = w.mark id.name + w.all fr init.toList :=
  of_declarePlain _ _ _ _

end Measure

/-- What may be assumed about the context where a computation starts, and about the one where it
ends. -/
structure Terms where
  pre : Context → Prop
  post : Context → Prop
  up : ∀ {s t : Context}, s.Calm t → pre s → pre t
  down : ∀ {s t : Context}, s.Calm t → post t → post s

/-- Nothing is assumed. -/
def Terms.free : Terms := ⟨fun _ => True, fun _ => True, fun _ => id, fun _ => id⟩

namespace Measure

variable {known : List Diagnostic} {w w' : Measure known} {T : Terms} {α β : Type} {g : α → Nat}
  {g' : β → Nat} {a b : Nat} {x : Lower α} {f : α → Lower β}

/-- Where the balance may be drawn: nothing is recorded but what is known, and no name has been
handed out that must not be. -/
structure Ends (w : Measure known) (t : Context) : Prop where
  known : t.diagnostics ⊆ known
  admits : ∀ x ∈ t.names.made, w.admits x

theorem Ends.before {s t : Context} (h : w.Ends t) (hst : s.Steps t) : w.Ends s :=
  ⟨List.Subset.trans hst.grows.subset h.known, fun x hx => h.admits x (hst.made hx)⟩

theorem Ends.of_admits {t : Context} (h : w'.Ends t) (hadmits : w'.admits = w.admits) : w.Ends t :=
  ⟨h.known, hadmits ▸ h.admits⟩

/-- A computation gives something whose weight is the cost `a` and what the names weigh that it
draws. -/
def Costs (w : Measure known) (T : Terms) (g : α → Nat) (a : Nat) (x : Lower α) : Prop :=
  ∀ s : Context, T.pre s → s.Calm (x.run s).2 ∧
    (w.Ends (x.run s).2 → T.post (x.run s).2 →
      g (x.run s).1 + w.held s.names = a + w.held (x.run s).2.names)

namespace Costs

theorem pure {r : α} (h : g r = a) : w.Costs T g a (pure r) :=
  fun s _ => ⟨.refl, fun _ _ => congrArg (· + w.held s.names) h⟩

theorem congr (h : w.Costs T g a x) (hab : a = b) : w.Costs T g b x := hab ▸ h

theorem of_held (hheld : w'.held = w.held) (hadmits : w'.admits = w.admits)
    (h : w'.Costs T g a x) : w.Costs T g a x :=
  fun s hs => ⟨(h s hs).1, fun hends => hheld ▸ (h s hs).2 (hends.of_admits hadmits.symm)⟩

/-- The cost of what follows may depend on what has been computed. -/
theorem bind_dep {Q : α → Prop} {b : α → Nat} {e : Nat} (hx : w.Costs T g a x)
    (hQ : ∀ s : Context, T.pre s → Q (x.run s).1)
    (hb : ∀ s : Context, T.pre s → T.post (x.run s).2 → b (x.run s).1 = e)
    (hf : ∀ r, Q r → w.Costs T g' (g r + b r) (f r)) : w.Costs T g' (a + e) (x >>= f) := by
  intro s hs
  obtain ⟨hsteps, heq⟩ := hx s hs
  obtain ⟨hsteps', heq'⟩ := hf (x.run s).1 (hQ s hs) (x.run s).2 (T.up hsteps hs)
  refine ⟨hsteps.trans hsteps', fun hends hpost => ?_⟩
  have hpost' := T.down hsteps' hpost
  have h₁ := heq (hends.before hsteps'.steps) hpost'
  have h₂ := heq' hends hpost
  have h₃ := hb s hs hpost'
  change g' ((f (x.run s).1).run (x.run s).2).1 + _ =
    _ + w.held ((f (x.run s).1).run (x.run s).2).2.names
  omega

theorem bind_of {Q : α → Prop} (hx : w.Costs T g a x) (hQ : ∀ s : Context, T.pre s → Q (x.run s).1)
    (hf : ∀ r, Q r → w.Costs T g' (g r + b) (f r)) : w.Costs T g' (a + b) (x >>= f) :=
  hx.bind_dep hQ (fun _ _ _ => rfl) hf

theorem bind (hx : w.Costs T g a x) (hf : ∀ r, w.Costs T g' (g r + b) (f r)) :
    w.Costs T g' (a + b) (x >>= f) :=
  hx.bind_of (Q := fun _ => True) (fun _ _ => trivial) fun r _ => hf r

/-- A computation that only looks at the context costs nothing. -/
theorem look {k : Context → Lower β} (h : ∀ s, w.Costs T g' b (k s)) :
    w.Costs T g' b (get >>= k) := fun s => h s s

theorem fresh (hint : String) (h : hint ∈ NameSupply.hints) :
    w.Costs T (fun id => w.mark id.name) 0 (Lower.fresh hint) := by
  refine fun s _ => ⟨.fresh h .refl, fun hends _ => ?_⟩
  rw [run_fresh, Context.withFresh, w.held_fresh _ _ h (hends.admits _ (.head _)), Nat.zero_add]
  rfl

theorem limitation (span : Span) (message : String) :
    w.Costs T (fun _ => 0) 0 (Lower.limitation span message) :=
  fun _ _ => ⟨.record _ rfl .refl, fun _ _ => rfl⟩

/-- What is reported and left as it is costs what it weighs when it has been reported. -/
theorem unsupported {r : α} {span : Span} (message : String)
    (h : isReported known span = true → g r = a) :
    w.Costs T g a (do
      Lower.unsupported span message
      return r) := by
  refine fun s _ => ⟨.record _ rfl .refl, fun hends _ => ?_⟩
  have hmem : ⟨.unsupported, span, message⟩ ∈ known := hends.known (List.mem_append_right _ (.head _))
  exact congrArg (· + w.held s.names) (h (isReported_of_mem hmem))

theorem forM {f : α → Lower Unit} (h : ∀ r, w.Costs T (fun _ => 0) 0 (f r)) (l : List α) :
    w.Costs T (fun _ => 0) 0 (l.forM f) := by
  induction l with
  | nil => exact .pure rfl
  | cons r l ih => exact (h r).bind (b := 0) fun _ => ih

theorem mapM {f : α → Lower β} {a : α → Nat} (h : ∀ r, w.Costs T g' (a r) (f r))
    (l : List α) : w.Costs T (fun bs => (bs.map g').sum) (l.map a).sum (l.mapM f) := by
  induction l with
  | nil => exact .pure rfl
  | cons r l ih =>
    rw [List.mapM_cons, List.map_cons, List.sum_cons]
    refine (h r).bind fun y => ?_
    rw [Nat.add_comm]
    exact ih.bind fun ys => .pure (Nat.add_comm _ _)

end Costs

end Measure

end PlainJs

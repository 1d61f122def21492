import PlainJs.Lowering.Loops
import PlainJs.Proofs.Outline
import PlainJs.Proofs.Steps

namespace PlainJs

namespace Node

/-- The name of the variable that an expression or a callee is, if it is no more than that. -/
def refName? : {c : Cat} → Node c → Option String
  | _, .ref id => .some id.name
  | _, .exprCallee e => e.refName?
  | _, _ => .none

/-- Whether an expression or a pattern can stand on the left of an assignment as it is. -/
def isTarget : {c : Cat} → Node c → Bool
  | _, .ref _ | _, .member .. | _, .superMember .. | _, .paren .. | _, .binder _ | _, .arrayPat ..
  | _, .objectPat .. => true
  | _, .exprPat e => e.isTarget
  | _, _ => false

/-- Whether a tree is a loop head that one key after the other can be bound to. -/
def takesKeys : {c : Cat} → Node c → Bool
  | _, .headDecl v => v.declShape.length = 1 && !v.declShape.any (·.isInitialised)
  | _, .headPat p => p.isTarget
  | _, _ => false

/-- Trees that are the same for whoever looks at them from outside. -/
structure SameFace {c : Cat} (n n' : Node c) : Prop where
  outline : SameOutline n n'
  name : n.refName? = n'.refName?
  target : n.isTarget = n'.isTarget
  keys : n.takesKeys = n'.takesKeys

variable {c : Cat} {n n' : Node c}

theorem takesKeys_headDecl (v : VarDecl) : (headDecl v).takesKeys =
    (v.declShape.length = 1 && !v.declShape.any (·.isInitialised)) := rfl

theorem SameFace.refl (n : Node c) : SameFace n n := ⟨.refl n, rfl, rfl, rfl⟩

/-- What a tree looks like: its name, whether it is a target and whether it takes keys. It is left
open for trees that look like one of their parts. -/
def ownFace : {c : Cat} → Node c → Option (Option String × Bool × Bool)
  | _, .ref id => .some (.some id.name, true, false)
  | _, .member .. | _, .superMember .. | _, .paren .. | _, .binder _ | _, .arrayPat ..
  | _, .objectPat .. => .some (.none, true, false)
  | _, .exprCallee _ | _, .exprPat _ | _, .headDecl _ | _, .headPat _ => .none
  | _, _ => .some (.none, false, false)

theorem ownFace_eq {face : Option String × Bool × Bool} (h : n.ownFace = .some face) :
    (n.refName?, n.isTarget, n.takesKeys) = face := by
  cases n <;> cases h <;> rfl

theorem SameFace.of_parts (h : Parts SameFace n n') : SameFace n n' := by
  suffices hface :
      (n.refName?, n.isTarget, n.takesKeys) = (n'.refName?, n'.isTarget, n'.takesKeys) by
    simp only [Prod.mk.injEq] at hface
    exact ⟨.of_parts (h.imp fun _ hk => hk.outline), hface.1, hface.2.1, hface.2.2⟩
  have hown : n.ownFace = n'.ownFace := h.form_eq ownFace fun m => by cases m <;> rfl
  cases hn : n.ownFace with
  | some face => rw [ownFace_eq hn, ownFace_eq (hown ▸ hn)]
  | none =>
    cases n with
    | exprCallee e =>
      obtain ⟨e', he, rfl⟩ := h
      exact congrArg (fun x => (x, false, false)) he.name
    | exprPat e =>
      obtain ⟨e', he, rfl⟩ := h
      exact congrArg (fun b => (Option.none, b, false)) he.target
    | headDecl v =>
      obtain ⟨v', hv, rfl⟩ := h
      rw [takesKeys_headDecl, takesKeys_headDecl, hv.outline.decls]
      rfl
    | headPat p =>
      obtain ⟨p', hp, rfl⟩ := h
      exact congrArg (fun b => (Option.none, false, b)) hp.target
    | _ => cases hn

theorem face_of_isMute (hc : c.isMute = true) (n : Node c) :
    n.refName? = .none ∧ n.isTarget = false ∧ n.takesKeys = false := by
  cases n <;> first | exact ⟨rfl, rfl, rfl⟩ | cases hc

/-- Statements and items look all the same. -/
theorem SameFace.of_isMute (hc : c.isMute = true) (n n' : Node c) : SameFace n n' := by
  obtain ⟨hname, htarget, hkeys⟩ := face_of_isMute hc n
  obtain ⟨hname', htarget', hkeys'⟩ := face_of_isMute hc n'
  exact ⟨.of_isMute hc n n', hname.trans hname'.symm, htarget.trans htarget'.symm,
    hkeys.trans hkeys'.symm⟩

end Node

open Node

/-- What is looked for. -/
structure Search where
  /-- Calls of functions by these names. -/
  calls : String → Bool
  /-- `for-in` loops with these ranges, if keys can be bound to their heads. -/
  loops : Span → Bool
  /-- Variables of these kinds and names. -/
  declares : VarKind → String → Bool
  /-- Functions, classes, resources and imports of these names. -/
  names : String → Bool
  /-- Whether functions are searched. -/
  deep : Bool

namespace Search

variable (q : Search)

/-- Whether a node itself is looked for. -/
def own : {c : Cat} → Node c → Bool
  | _, .call _ _ callee _ => callee.refName?.any q.calls
  | _, .forInStmt span head _ _ => head.takesKeys && q.loops span
  | _, .varDecl _ _ kind _ decls => decls.boundIdents.any fun id => q.declares kind id.name
  | _, .declFunc _ name _ | _, .declClass _ name _ => q.names name.name
  | _, .exportFunc _ name _ | _, .exportClass _ name _ => name.any fun id => q.names id.name
  | _, .declUsing _ _ decls | _, .headUsing _ _ decls =>
    decls.boundIdents.any fun id => q.names id.name
  | _, .importItem i => i.specifiers.any fun a => q.names a.here.name
  | _, _ => false

/-- Whether something that is looked for is in a tree. -/
def finds {c : Cat} (n : Node c) : Bool :=
  q.own n || ((q.deep || !n.isFunctionLike) && n.children.attach.any fun ⟨⟨_, k⟩, _⟩ => finds k)
termination_by sizeOf n
decreasing_by exact sizeOf_lt_of_mem_children ‹_›

/-- Whether something that is looked for is in the parts of a tree. -/
def inner {c : Cat} (n : Node c) : Bool :=
  (q.deep || !n.isFunctionLike) && n.children.any fun k => q.finds k.2

variable {q} {c d e : Cat} {n n' : Node c}

theorem finds_eq (n : Node c) : q.finds n = (q.own n || q.inner n) := by
  rw [finds, inner]
  simp

theorem own_call (span : Span) (ctxt : Nat) (callee : Node .callee) (args : Node (.list .arg)) :
    q.own (.call span ctxt callee args) = callee.refName?.any q.calls := rfl

theorem own_forInStmt (span : Span) (head : Node .forHead) (subject : Expr) (body : Stmt) :
    q.own (.forInStmt span head subject body) = (head.takesKeys && q.loops span) := rfl

theorem own_varDecl (span : Span) (ctxt : Nat) (kind : VarKind) (declare : Bool)
    (decls : Node (.list .declarator)) : q.own (.varDecl span ctxt kind declare decls) =
      decls.boundIdents.any fun id => q.declares kind id.name := rfl

theorem inner_eq_any (h : n.isFunctionLike = false) :
    q.inner n = n.children.any fun k => q.finds k.2 := by
  rw [inner, h, Bool.not_false, Bool.or_true, Bool.true_and]

theorem finds_leaf (hown : q.own n = false) (hparts : n.children = []) : q.finds n = false := by
  rw [finds_eq, hown, inner, hparts, List.any_nil, Bool.and_false, Bool.or_false]

theorem finds_one {a : Node d} (hown : q.own n = false) (hopen : n.isFunctionLike = false)
    (hparts : n.children = [⟨d, a⟩]) : q.finds n = q.finds a := by
  rw [finds_eq, hown, inner_eq_any hopen, hparts]
  simp

theorem finds_two {a : Node d} {b : Node e} (hown : q.own n = false)
    (hopen : n.isFunctionLike = false) (hparts : n.children = [⟨d, a⟩, ⟨e, b⟩]) :
    q.finds n = (q.finds a || q.finds b) := by
  rw [finds_eq, hown, inner_eq_any hopen, hparts]
  simp

theorem finds_three {c' : Cat} {a : Node d} {b : Node e} {b' : Node c'} (hown : q.own n = false)
    (hopen : n.isFunctionLike = false) (hparts : n.children = [⟨d, a⟩, ⟨e, b⟩, ⟨c', b'⟩]) :
    q.finds n = (q.finds a || (q.finds b || q.finds b')) := by
  rw [finds_eq, hown, inner_eq_any hopen, hparts]
  simp

@[simp] theorem finds_nil : q.finds (.nil : Node (.list c)) = false := finds_leaf rfl rfl

@[simp] theorem finds_cons (a : Node c) (l : Node (.list c)) :
    q.finds (.cons a l) = (q.finds a || q.finds l) := finds_two rfl rfl rfl

@[simp] theorem finds_none : q.finds (.none : Node (.opt c)) = false := finds_leaf rfl rfl

@[simp] theorem finds_some (a : Node c) : q.finds (.some a) = q.finds a := finds_one rfl rfl rfl

@[simp] theorem finds_ofList (l : List (Node c)) : q.finds (.ofList l) = l.any q.finds := by
  induction l with
  | nil => exact finds_nil
  | cons a l ih => rw [Node.ofList, finds_cons, ih, List.any_cons]

@[simp] theorem any_toList (l : Node (.list c)) : l.toList.any q.finds = q.finds l := by
  rw [← finds_ofList, ofList_toList]

@[simp] theorem finds_ofOption (o : Option (Node c)) : q.finds (.ofOption o) = o.any q.finds := by
  cases o with
  | none => exact finds_none
  | some a => exact finds_some a

@[simp] theorem any_toOption (o : Node (.opt c)) : o.toOption.any q.finds = q.finds o := by
  rw [← finds_ofOption, ofOption_toOption]

@[simp] theorem finds_ref (id : Ident) : q.finds (.ref id) = false := finds_leaf rfl rfl

@[simp] theorem finds_atom (span : Span) (a : Atom) : q.finds (.atom span a) = false :=
  finds_leaf rfl rfl

@[simp] theorem finds_paren (span : Span) (a : Expr) : q.finds (.paren span a) = q.finds a :=
  finds_one rfl rfl rfl

@[simp] theorem finds_object (span : Span) (a : Node (.list .prop)) :
    q.finds (.object span a) = q.finds a := finds_one rfl rfl rfl

@[simp] theorem finds_classExpr (name : Option Ident) (a : Node .cls) :
    q.finds (.classExpr name a) = q.finds a := finds_one rfl rfl rfl

@[simp] theorem finds_unary (span : Span) (op : UnaryOp) (a : Expr) :
    q.finds (.unary span op a) = q.finds a := finds_one rfl rfl rfl

@[simp] theorem finds_binary (span : Span) (op : BinaryOp) (a b : Expr) :
    q.finds (.binary span op a b) = (q.finds a || q.finds b) := finds_two rfl rfl rfl

@[simp] theorem finds_cond (span : Span) (a b b' : Expr) :
    q.finds (.cond span a b b') = (q.finds a || (q.finds b || q.finds b')) :=
  finds_three rfl rfl rfl

@[simp] theorem finds_member (span : Span) (a : Expr) (b : Key) :
    q.finds (.member span a b) = (q.finds a || q.finds b) := finds_two rfl rfl rfl

@[simp] theorem finds_superMember (span superSpan : Span) (b : Key) :
    q.finds (.superMember span superSpan b) = q.finds b := finds_one rfl rfl rfl

@[simp] theorem finds_assign (span : Span) (op : AssignOp) (a : Pat) (b : Expr) :
    q.finds (.assign span op a b) = (q.finds a || q.finds b) := finds_two rfl rfl rfl

@[simp] theorem finds_exprCallee (a : Expr) : q.finds (.exprCallee a) = q.finds a :=
  finds_one rfl rfl rfl

@[simp] theorem finds_plainArg (a : Expr) : q.finds (.plainArg a) = q.finds a :=
  finds_one rfl rfl rfl

@[simp] theorem finds_fixedKey (span : Span) (k : FixedKey) :
    q.finds (.fixedKey span k) = false := finds_leaf rfl rfl

@[simp] theorem finds_computedKey (span : Span) (a : Expr) :
    q.finds (.computedKey span a) = q.finds a := finds_one rfl rfl rfl

@[simp] theorem finds_binder (id : Ident) : q.finds (.binder id) = false := finds_leaf rfl rfl

@[simp] theorem finds_invalidPat (span : Span) : q.finds (.invalidPat span) = false :=
  finds_leaf rfl rfl

@[simp] theorem finds_arrayPat (span : Span) (optional : Bool) (a : Node (.list (.opt .pat))) :
    q.finds (.arrayPat span optional a) = q.finds a := finds_one rfl rfl rfl

@[simp] theorem finds_objectPat (span : Span) (optional : Bool) (a : Node (.list .patProp)) :
    q.finds (.objectPat span optional a) = q.finds a := finds_one rfl rfl rfl

@[simp] theorem finds_restPat (span dots : Span) (a : Pat) :
    q.finds (.restPat span dots a) = q.finds a := finds_one rfl rfl rfl

@[simp] theorem finds_defaultPat (span : Span) (a : Pat) (b : Expr) :
    q.finds (.defaultPat span a b) = (q.finds a || q.finds b) := finds_two rfl rfl rfl

@[simp] theorem finds_exprPat (a : Expr) : q.finds (.exprPat a) = q.finds a := finds_one rfl rfl rfl

@[simp] theorem finds_keyedPat (a : Key) (b : Pat) :
    q.finds (.keyedPat a b) = (q.finds a || q.finds b) := finds_two rfl rfl rfl

@[simp] theorem finds_shortPat (span : Span) (id : Ident) (a : Node (.opt .expr)) :
    q.finds (.shortPat span id a) = q.finds a := finds_one rfl rfl rfl

@[simp] theorem finds_restProp (span dots : Span) (a : Pat) :
    q.finds (.restProp span dots a) = q.finds a := finds_one rfl rfl rfl

/-- A call of a function by its name counts itself. -/
@[simp] theorem finds_call (span : Span) (ctxt : Nat) (a : Node .callee) (b : Node (.list .arg)) :
    q.finds (.call span ctxt a b) = (a.refName?.any q.calls || (q.finds a || q.finds b)) := by
  rw [finds_eq, inner_eq_any rfl]
  change (_ || (_ || (_ || false))) = _
  rw [Bool.or_false]
  rfl

@[simp] theorem finds_block (span : Span) (ctxt : Nat) (a : Node (.list .stmt)) :
    q.finds (.block span ctxt a) = q.finds a := finds_one rfl rfl rfl

@[simp] theorem finds_blockStmt (a : Block) : q.finds (.blockStmt a) = q.finds a :=
  finds_one rfl rfl rfl

@[simp] theorem finds_exprStmt (span : Span) (a : Expr) :
    q.finds (.exprStmt span a) = q.finds a := finds_one rfl rfl rfl

@[simp] theorem finds_throwStmt (span : Span) (a : Expr) :
    q.finds (.throwStmt span a) = q.finds a := finds_one rfl rfl rfl

@[simp] theorem finds_labeledStmt (span : Span) (label : Ident) (a : Stmt) :
    q.finds (.labeledStmt span label a) = q.finds a := finds_one rfl rfl rfl

@[simp] theorem finds_breakStmt (span : Span) (label : Option Ident) :
    q.finds (.breakStmt span label) = false := finds_leaf rfl rfl

@[simp] theorem finds_continueStmt (span : Span) (label : Option Ident) :
    q.finds (.continueStmt span label) = false := finds_leaf rfl rfl

@[simp] theorem finds_ifStmt (span : Span) (a : Expr) (b : Stmt) (b' : Node (.opt .stmt)) :
    q.finds (.ifStmt span a b b') = (q.finds a || (q.finds b || q.finds b')) :=
  finds_three rfl rfl rfl

@[simp] theorem finds_whileStmt (span : Span) (a : Expr) (b : Stmt) :
    q.finds (.whileStmt span a b) = (q.finds a || q.finds b) := finds_two rfl rfl rfl

@[simp] theorem finds_doWhileStmt (span : Span) (a : Expr) (b : Stmt) :
    q.finds (.doWhileStmt span a b) = (q.finds a || q.finds b) := finds_two rfl rfl rfl

theorem inner_forStmt (span : Span) (a : Node (.opt .forInit)) (b b' : Node (.opt .expr))
    (k : Stmt) :
    q.inner (.forStmt span a b b' k) = (q.finds a || (q.finds b || (q.finds b' || q.finds k))) := by
  rw [inner_eq_any rfl]
  simp [children]

theorem inner_forInStmt (span : Span) (a : Node .forHead) (b : Expr) (k : Stmt) :
    q.inner (.forInStmt span a b k) = (q.finds a || (q.finds b || q.finds k)) := by
  rw [inner_eq_any rfl]
  simp [children]

theorem inner_forOfStmt (span : Span) (isAwait : Bool) (a : Node .forHead) (b : Expr) (k : Stmt) :
    q.inner (.forOfStmt span isAwait a b k) = (q.finds a || (q.finds b || q.finds k)) := by
  rw [inner_eq_any rfl]
  simp [children]

@[simp] theorem finds_tryStmt (span : Span) (a : Block) (b : Node (.opt .handler))
    (b' : Node (.opt .block)) :
    q.finds (.tryStmt span a b b') = (q.finds a || (q.finds b || q.finds b')) :=
  finds_three rfl rfl rfl

@[simp] theorem finds_handler (span : Span) (a : Node (.opt .pat)) (b : Block) :
    q.finds (.handler span a b) = (q.finds a || q.finds b) := finds_two rfl rfl rfl

@[simp] theorem finds_switchStmt (span : Span) (a : Expr) (b : Node (.list .clause)) :
    q.finds (.switchStmt span a b) = (q.finds a || q.finds b) := finds_two rfl rfl rfl

@[simp] theorem finds_clause (span : Span) (a : Node (.opt .expr)) (b : Node (.list .stmt)) :
    q.finds (.clause span a b) = (q.finds a || q.finds b) := finds_two rfl rfl rfl

@[simp] theorem finds_declStmt (a : Node .decl) : q.finds (.declStmt a) = q.finds a :=
  finds_one rfl rfl rfl

@[simp] theorem finds_declVar (v : VarDecl) : q.finds (.declVar v) = q.finds v :=
  finds_one rfl rfl rfl

@[simp] theorem finds_declClass (declare : Bool) (name : Ident) (a : Node .cls) :
    q.finds (.declClass declare name a) = (q.names name.name || q.finds a) := by
  rw [finds_eq, inner_eq_any rfl]
  change (_ || (_ || false)) = _
  rw [Bool.or_false]
  rfl

@[simp] theorem finds_declarator (span : Span) (definite : Bool) (a : Pat) (b : Node (.opt .expr)) :
    q.finds (.declarator span definite a b) = (q.finds a || q.finds b) := finds_two rfl rfl rfl

@[simp] theorem finds_stmtItem (a : Stmt) : q.finds (.stmtItem a) = q.finds a :=
  finds_one rfl rfl rfl

@[simp] theorem finds_exportDecl (span : Span) (a : Node .decl) :
    q.finds (.exportDecl span a) = q.finds a := finds_one rfl rfl rfl

@[simp] theorem finds_initDecl (v : VarDecl) : q.finds (.initDecl v) = q.finds v :=
  finds_one rfl rfl rfl

@[simp] theorem finds_initExpr (a : Expr) : q.finds (.initExpr a) = q.finds a :=
  finds_one rfl rfl rfl

@[simp] theorem finds_headDecl (v : VarDecl) : q.finds (.headDecl v) = q.finds v :=
  finds_one rfl rfl rfl

@[simp] theorem finds_headPat (a : Pat) : q.finds (.headPat a) = q.finds a := finds_one rfl rfl rfl

variable (q) in
/-- Whether one of the names that a pattern binds as variables of a kind is looked for. -/
def marks (kind : VarKind) (n : Node c) : Bool :=
  n.boundIdents.any fun id => q.declares kind id.name

/-- A declaration of variables counts for the names that it declares. -/
@[simp] theorem finds_varDecl (span : Span) (ctxt : Nat) (kind : VarKind) (declare : Bool)
    (a : Node (.list .declarator)) :
    q.finds (.varDecl span ctxt kind declare a) = (q.marks kind a || q.finds a) := by
  rw [finds_eq, inner_eq_any rfl]
  change (_ || (_ || false)) = _
  rw [Bool.or_false]
  rfl

@[simp] theorem marks_nil (kind : VarKind) : q.marks kind (.nil : Node (.list c)) = false := rfl

@[simp] theorem marks_cons (kind : VarKind) (a : Node c) (l : Node (.list c)) :
    q.marks kind (.cons a l) = (q.marks kind a || q.marks kind l) := by
  simp [marks, boundIdents]

@[simp] theorem marks_ofList (kind : VarKind) (l : List (Node c)) :
    q.marks kind (.ofList l) = l.any (q.marks kind) := by
  induction l with
  | nil => rfl
  | cons a l ih => rw [Node.ofList, marks_cons, ih, List.any_cons]

theorem marks_declarator (kind : VarKind) (span : Span) (definite : Bool) (p : Pat)
    (o : Node (.opt .expr)) :
    q.marks kind (.declarator span definite p o) = q.marks kind p := rfl

@[simp] theorem marks_binder (kind : VarKind) (id : Ident) :
    q.marks kind (.binder id) = q.declares kind id.name := by
  simp [marks, boundIdents]

open Build

@[simp] theorem finds_atLeast (least : Nat) (a : Expr) : q.finds (atLeast least a) = q.finds a := by
  unfold atLeast
  split
  · exact finds_paren _ _
  · rfl

/-- A variable is never parenthesised. -/
theorem refName?_atLeast {least : Nat} (h : least ≤ memberStrength) (a : Expr) :
    (atLeast least a).refName? = a.refName? := by
  unfold atLeast
  split
  next hweak =>
    cases a with
    | ref id => exact absurd (Nat.lt_of_lt_of_le hweak h) (Nat.lt_irrefl _)
    | _ => rfl
  next => rfl

@[simp] theorem finds_name (x : String) : q.finds (Build.name x) = false := finds_ref _

@[simp] theorem finds_bool (b : Bool) : q.finds (Build.bool b) = false := finds_atom _ _

@[simp] theorem finds_num (i : Nat) : q.finds (Build.num i) = false := finds_atom _ _

@[simp] theorem finds_buildUnary (op : UnaryOp) (a : Expr) :
    q.finds (Build.unary op a) = q.finds a := by
  simp [Build.unary]

@[simp] theorem finds_not (a : Expr) : q.finds (Build.not a) = q.finds a := finds_buildUnary _ _

@[simp] theorem finds_undefined : q.finds undefined = false := by simp [undefined]

@[simp] theorem finds_buildBinary (op : BinaryOp) (a b : Expr) :
    q.finds (Build.binary op a b) = (q.finds a || q.finds b) := by
  simp [Build.binary]

@[simp] theorem finds_buildCond (a b b' : Expr) :
    q.finds (Build.cond a b b') = (q.finds a || (q.finds b || q.finds b')) := by
  simp [Build.cond]

@[simp] theorem finds_access (a : Expr) (k : Key) :
    q.finds (access a k) = (q.finds a || q.finds k) := by
  simp [access]

@[simp] theorem finds_buildMember (a : Expr) (x : String) :
    q.finds (Build.member a x) = q.finds a := by
  simp [Build.member]

@[simp] theorem finds_computed (a k : Expr) :
    q.finds (computed a k) = (q.finds a || q.finds k) := by
  simp [computed]

@[simp] theorem refName?_buildMember (a : Expr) (x : String) :
    (Build.member a x).refName? = .none := rfl

@[simp] theorem refName?_computed (a k : Expr) : (computed a k).refName? = .none := rfl

@[simp] theorem finds_buildCall (f : Expr) (args : List Expr) :
    q.finds (Build.call f args) = (f.refName?.any q.calls || (q.finds f || args.any q.finds)) := by
  have hname : (exprCallee (atLeast memberStrength f)).refName? = f.refName? :=
    refName?_atLeast (Nat.le_refl _) f
  rw [Build.call, finds_call, hname]
  simp [List.any_map, Function.comp_def]

@[simp] theorem finds_buildAssign (p : Pat) (a : Expr) :
    q.finds (Build.assign p a) = (q.finds p || q.finds a) := by
  simp [Build.assign]

@[simp] theorem finds_assignTo (id : Ident) (a : Expr) : q.finds (assignTo id a) = q.finds a := by
  simp [assignTo]

@[simp] theorem finds_emptyObject : q.finds emptyObject = false := by simp [emptyObject]

@[simp] theorem finds_buildExprStmt (a : Expr) : q.finds (Build.exprStmt a) = q.finds a := by
  unfold Build.exprStmt
  split <;> simp

@[simp] theorem finds_buildBlock (l : List Stmt) : q.finds (Build.block l) = l.any q.finds := by
  simp [Build.block]

@[simp] theorem finds_buildBlockStmt (span : Span) (l : List Stmt) :
    q.finds (Build.blockStmt span l) = l.any q.finds := by
  simp [Build.blockStmt]

@[simp] theorem finds_intoBlock (a : Stmt) : q.finds (intoBlock a) = q.finds a := by
  unfold intoBlock
  split <;> simp

@[simp] theorem finds_labeled (label : Ident) (a : Stmt) :
    q.finds (labeled label a) = q.finds a := finds_labeledStmt _ _ _

@[simp] theorem finds_breakTo (label : Option Ident) : q.finds (breakTo label) = false :=
  finds_breakStmt _ _

@[simp] theorem finds_ifElse (a : Expr) (b : Stmt) (o : Option Stmt) :
    q.finds (ifElse a b o) = (q.finds a || (q.finds b || o.any q.finds)) := by
  simp [ifElse]

@[simp] theorem finds_whileDo (span : Span) (a : Expr) (l : List Stmt) :
    q.finds (whileDo span a l) = (q.finds a || l.any q.finds) := by
  simp [whileDo]

@[simp] theorem finds_buildThrow (a : Expr) : q.finds (Build.throwStmt a) = q.finds a :=
  finds_throwStmt _ _

@[simp] theorem finds_declarePat (span : Span) (kind : VarKind) (p : Pat) (o : Option Expr) :
    q.finds (declarePat span kind p o) = (q.marks kind p || (q.finds p || o.any q.finds)) := by
  simp [declarePat, marks_declarator]

@[simp] theorem finds_declare (kind : VarKind) (id : Ident) (o : Option Expr) :
    q.finds (declare kind id o) = (q.declares kind id.name || o.any q.finds) := by
  simp [declare]

end Search

end PlainJs

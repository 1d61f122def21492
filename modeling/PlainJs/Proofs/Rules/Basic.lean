import PlainJs.Proofs.Rules.Heads
import PlainJs.Proofs.Jumps

namespace PlainJs

open Node Build

namespace Node

/-- The forms of nodes that rules of the syntax look at. -/
def isWatched : {c : Cat} → Node c → Bool
  | _, .unary .. | _, .binary .. | _, .assign .. | _, .cond .. | _, .member .. | _, .call ..
  | _, .optMember .. | _, .optCall .. | _, .declarator .. | _, .keyedPat ..
  | _, .switchStmt .. => true
  | _, _ => false

end Node

/-- A rule of the syntax that the builders of generated code keep to. -/
structure SyntaxRule where
  test : ∀ {c : Cat}, Node c → Bool
  /-- What may stand as an initializer. -/
  init : Expr → Bool
  parts : ∀ {c : Cat} {n n' : Node c}, Parts SameHeads n n' → test n = test n'
  free : ∀ {c : Cat} {n : Node c}, n.isWatched = false → test n = true
  unary : ∀ {op : UnaryOp} {e : Expr}, unaryStrength ≤ e.strength → test (.unary .none op e) = true
  binary : ∀ {op : BinaryOp} {l r : Expr}, op = .eqEqEq ∨ op = .and ∨ op = .ltEq →
    op.precedence ≤ l.strength → op.precedence + 1 ≤ r.strength →
      test (.binary .none op l r) = true
  cond : ∀ {t a b : Expr}, condStrength + 1 ≤ t.strength → assignStrength ≤ a.strength →
    assignStrength ≤ b.strength → test (.cond .none t a b) = true
  member : ∀ {e : Expr} {k : Key}, memberStrength ≤ e.strength → test (.member .none e k) = true
  call : ∀ {f : Expr} {args : List Expr}, memberStrength ≤ f.strength →
    (∀ e ∈ args, assignStrength ≤ e.strength) →
      test (.call .none 0 (.exprCallee f) (.ofList (args.map .plainArg))) = true
  assign : ∀ {p : Pat} {e : Expr}, p.assignTarget? = .some p → assignStrength ≤ e.strength →
    test (.assign .none .assign p e) = true
  declarator : ∀ {span : Span} {definite : Bool} {p : Pat} {o : Node (.opt .expr)},
    test (.declarator span definite p o) = o.toOption.all init
  init_strength : ∀ {e : Expr}, assignStrength ≤ e.strength → init e = true

namespace SyntaxRule

variable (r : SyntaxRule)

/-- A tree keeps to the rule everywhere. -/
def Holds {c : Cat} (n : Node c) : Prop := n.all r.test = true

/-- A computed key of a pattern may stand as an initializer. -/
def CutsKeys : Prop := ∀ (span : Span) (e : Expr) (p : Pat),
  r.test (.keyedPat (.computedKey span e) p) = true → r.init e = true

/-- The subject of a `switch` with clauses may stand as an initializer. -/
def CutsSubjects : Prop := ∀ (span : Span) (e : Expr) (clauses : Node (.list .clause)),
  r.test (.switchStmt span e clauses) = true → clauses.hasClauses = true → r.init e = true

variable {r} {c d : Cat} {n n' : Node c}

theorem holds_iff : r.Holds n ↔ r.test n = true ∧ ∀ k ∈ n.children, r.Holds k.2 := by
  rw [Holds, all_iff]
  exact and_congr_right fun _ => ⟨fun h k hk => h hk, fun h _ _ hk => h _ hk⟩

theorem Holds.own (h : r.Holds n) : r.test n = true := (holds_iff.mp h).1

theorem Holds.part {k : Node d} (h : r.Holds n) (hk : ⟨d, k⟩ ∈ n.children) : r.Holds k :=
  (holds_iff.mp h).2 _ hk

/-- A tree whose parts have been changed keeps to the rule if the new parts do. -/
theorem Holds.of_parts (h : r.test n = true)
    (hparts : Parts (fun k k' => r.Holds k' ∧ SameHeads k k') n n') : r.Holds n' := by
  refine holds_iff.mpr ⟨(r.parts (hparts.imp fun _ hk => hk.2)).symm.trans h, ?_⟩
  have hpaired := hparts.children
  clear hparts
  generalize n.children = l, n'.children = l' at hpaired
  induction hpaired with
  | nil => exact List.forall_mem_nil _
  | cons hk _ ih =>
    obtain ⟨hk⟩ := hk
    exact List.forall_mem_cons.mpr ⟨hk.1, ih⟩

theorem holds_leaf (hfree : n.isWatched = false) (hparts : n.children = []) : r.Holds n := by
  rw [holds_iff, hparts]
  exact ⟨r.free hfree, List.forall_mem_nil _⟩

theorem holds_one {a : Node d} (hfree : n.isWatched = false) (hparts : n.children = [⟨d, a⟩]) :
    r.Holds n ↔ r.Holds a := by
  rw [holds_iff, hparts]
  simp [r.free hfree]

theorem holds_two {e : Cat} {a : Node d} {b : Node e} (hfree : n.isWatched = false)
    (hparts : n.children = [⟨d, a⟩, ⟨e, b⟩]) : r.Holds n ↔ r.Holds a ∧ r.Holds b := by
  rw [holds_iff, hparts]
  simp [r.free hfree]

theorem holds_three {e e' : Cat} {a : Node d} {b : Node e} {b' : Node e'}
    (hfree : n.isWatched = false) (hparts : n.children = [⟨d, a⟩, ⟨e, b⟩, ⟨e', b'⟩]) :
    r.Holds n ↔ r.Holds a ∧ r.Holds b ∧ r.Holds b' := by
  rw [holds_iff, hparts]
  simp [r.free hfree]

@[simp] theorem holds_nil : r.Holds (.nil : Node (.list c)) := holds_leaf rfl rfl

@[simp] theorem holds_cons (a : Node c) (l : Node (.list c)) :
    r.Holds (.cons a l) ↔ r.Holds a ∧ r.Holds l := holds_two rfl rfl

@[simp] theorem holds_none : r.Holds (.none : Node (.opt c)) := holds_leaf rfl rfl

@[simp] theorem holds_some (a : Node c) : r.Holds (.some a) ↔ r.Holds a := holds_one rfl rfl

@[simp] theorem holds_ofList (l : List (Node c)) :
    r.Holds (.ofList l) ↔ ∀ a ∈ l, r.Holds a := by
  induction l with
  | nil => simp [Node.ofList]
  | cons a l ih => simp [Node.ofList, ih]

theorem holds_toList {l : Node (.list c)} : (∀ a ∈ l.toList, r.Holds a) ↔ r.Holds l := by
  rw [← holds_ofList, ofList_toList]

@[simp] theorem holds_ofOption (o : Option (Node c)) :
    r.Holds (.ofOption o) ↔ ∀ a ∈ o, r.Holds a := by
  cases o <;> simp [Node.ofOption]

theorem holds_toOption {o : Node (.opt c)} : (∀ a ∈ o.toOption, r.Holds a) ↔ r.Holds o := by
  rw [← holds_ofOption, ofOption_toOption]

@[simp] theorem holds_ref (id : Ident) : r.Holds (.ref id) := holds_leaf rfl rfl

@[simp] theorem holds_atom (span : Span) (a : Atom) : r.Holds (.atom span a) := holds_leaf rfl rfl

@[simp] theorem holds_emptyObject : r.Holds emptyObject := (holds_one rfl rfl).mpr holds_nil

@[simp] theorem holds_paren (span : Span) (e : Expr) : r.Holds (.paren span e) ↔ r.Holds e :=
  holds_one rfl rfl

@[simp] theorem holds_classExpr (name : Option Ident) (a : Node .cls) :
    r.Holds (.classExpr name a) ↔ r.Holds a := holds_one rfl rfl

@[simp] theorem holds_exprCallee (e : Expr) : r.Holds (.exprCallee e) ↔ r.Holds e :=
  holds_one rfl rfl

@[simp] theorem holds_plainArg (e : Expr) : r.Holds (.plainArg e) ↔ r.Holds e := holds_one rfl rfl

@[simp] theorem holds_fixedKey (span : Span) (k : FixedKey) : r.Holds (.fixedKey span k) :=
  holds_leaf rfl rfl

@[simp] theorem holds_computedKey (span : Span) (e : Expr) :
    r.Holds (.computedKey span e) ↔ r.Holds e := holds_one rfl rfl

@[simp] theorem holds_binder (id : Ident) : r.Holds (.binder id) := holds_leaf rfl rfl

@[simp] theorem holds_invalidPat (span : Span) : r.Holds (.invalidPat span) := holds_leaf rfl rfl

@[simp] theorem holds_exprPat (e : Expr) : r.Holds (.exprPat e) ↔ r.Holds e := holds_one rfl rfl

@[simp] theorem holds_arrayPat (span : Span) (optional : Bool) (elems : Node (.list (.opt .pat))) :
    r.Holds (.arrayPat span optional elems) ↔ r.Holds elems := holds_one rfl rfl

@[simp] theorem holds_objectPat (span : Span) (optional : Bool) (props : Node (.list .patProp)) :
    r.Holds (.objectPat span optional props) ↔ r.Holds props := holds_one rfl rfl

@[simp] theorem holds_restPat (span dots : Span) (p : Pat) :
    r.Holds (.restPat span dots p) ↔ r.Holds p := holds_one rfl rfl

@[simp] theorem holds_defaultPat (span : Span) (p : Pat) (e : Expr) :
    r.Holds (.defaultPat span p e) ↔ r.Holds p ∧ r.Holds e := holds_two rfl rfl

@[simp] theorem holds_shortPat (span : Span) (id : Ident) (o : Node (.opt .expr)) :
    r.Holds (.shortPat span id o) ↔ r.Holds o := holds_one rfl rfl

@[simp] theorem holds_restProp (span dots : Span) (p : Pat) :
    r.Holds (.restProp span dots p) ↔ r.Holds p := holds_one rfl rfl

@[simp] theorem holds_block (span : Span) (ctxt : Nat) (l : Node (.list .stmt)) :
    r.Holds (.block span ctxt l) ↔ r.Holds l := holds_one rfl rfl

@[simp] theorem holds_blockStmt (b : Block) : r.Holds (.blockStmt b) ↔ r.Holds b :=
  holds_one rfl rfl

@[simp] theorem holds_exprStmt (span : Span) (e : Expr) : r.Holds (.exprStmt span e) ↔ r.Holds e :=
  holds_one rfl rfl

@[simp] theorem holds_throwStmt (span : Span) (e : Expr) :
    r.Holds (.throwStmt span e) ↔ r.Holds e := holds_one rfl rfl

@[simp] theorem holds_labeledStmt (span : Span) (label : Ident) (s : Stmt) :
    r.Holds (.labeledStmt span label s) ↔ r.Holds s := holds_one rfl rfl

@[simp] theorem holds_breakStmt (span : Span) (label : Option Ident) :
    r.Holds (.breakStmt span label) := holds_leaf rfl rfl

@[simp] theorem holds_continueStmt (span : Span) (label : Option Ident) :
    r.Holds (.continueStmt span label) := holds_leaf rfl rfl

@[simp] theorem holds_ifStmt (span : Span) (t : Expr) (s : Stmt) (o : Node (.opt .stmt)) :
    r.Holds (.ifStmt span t s o) ↔ r.Holds t ∧ r.Holds s ∧ r.Holds o := holds_three rfl rfl

@[simp] theorem holds_whileStmt (span : Span) (t : Expr) (s : Stmt) :
    r.Holds (.whileStmt span t s) ↔ r.Holds t ∧ r.Holds s := holds_two rfl rfl

@[simp] theorem holds_tryStmt (span : Span) (b : Block) (h : Node (.opt .handler))
    (f : Node (.opt .block)) : r.Holds (.tryStmt span b h f) ↔ r.Holds b ∧ r.Holds h ∧ r.Holds f :=
  holds_three rfl rfl

@[simp] theorem holds_handler (span : Span) (p : Node (.opt .pat)) (b : Block) :
    r.Holds (.handler span p b) ↔ r.Holds p ∧ r.Holds b := holds_two rfl rfl

@[simp] theorem holds_clause (span : Span) (t : Node (.opt .expr)) (l : Node (.list .stmt)) :
    r.Holds (.clause span t l) ↔ r.Holds t ∧ r.Holds l := holds_two rfl rfl

@[simp] theorem holds_declStmt (a : Node .decl) : r.Holds (.declStmt a) ↔ r.Holds a :=
  holds_one rfl rfl

@[simp] theorem holds_declVar (v : VarDecl) : r.Holds (.declVar v) ↔ r.Holds v := holds_one rfl rfl

@[simp] theorem holds_declClass (declare : Bool) (name : Ident) (a : Node .cls) :
    r.Holds (.declClass declare name a) ↔ r.Holds a := holds_one rfl rfl

@[simp] theorem holds_varDecl (span : Span) (ctxt : Nat) (kind : VarKind) (declare : Bool)
    (l : Node (.list .declarator)) : r.Holds (.varDecl span ctxt kind declare l) ↔ r.Holds l :=
  holds_one rfl rfl

@[simp] theorem holds_stmtItem (s : Stmt) : r.Holds (.stmtItem s) ↔ r.Holds s := holds_one rfl rfl

@[simp] theorem holds_exportDecl (span : Span) (a : Node .decl) :
    r.Holds (.exportDecl span a) ↔ r.Holds a := holds_one rfl rfl

@[simp] theorem holds_initDecl (v : VarDecl) : r.Holds (.initDecl v) ↔ r.Holds v :=
  holds_one rfl rfl

@[simp] theorem holds_initExpr (e : Expr) : r.Holds (.initExpr e) ↔ r.Holds e := holds_one rfl rfl

@[simp] theorem holds_headDecl (v : VarDecl) : r.Holds (.headDecl v) ↔ r.Holds v :=
  holds_one rfl rfl

@[simp] theorem holds_headPat (p : Pat) : r.Holds (.headPat p) ↔ r.Holds p := holds_one rfl rfl

theorem le_strength_atLeast {least : Nat} (h : least ≤ memberStrength) (e : Expr) :
    least ≤ (atLeast least e).strength := by
  unfold atLeast
  split
  · exact h
  · omega

@[simp] theorem holds_atLeast (least : Nat) (e : Expr) : r.Holds (atLeast least e) ↔ r.Holds e := by
  unfold atLeast
  split <;> simp

@[simp] theorem holds_name (x : String) : r.Holds (Build.name x) := holds_ref _

@[simp] theorem holds_bool (b : Bool) : r.Holds (Build.bool b) := holds_atom _ _

@[simp] theorem holds_num (i : Nat) : r.Holds (Build.num i) := holds_atom _ _

@[simp] theorem holds_unary (op : UnaryOp) (e : Expr) :
    r.Holds (Build.unary op e) ↔ r.Holds e := by
  have hown : r.test (.unary .none op (atLeast unaryStrength e)) = true :=
    r.unary (le_strength_atLeast (by decide) e)
  rw [Build.unary, holds_iff]
  simp [hown, children]

@[simp] theorem holds_undefined : r.Holds undefined := by simp [undefined]

@[simp] theorem holds_not (e : Expr) : r.Holds (Build.not e) ↔ r.Holds e := holds_unary .not e

theorem holds_binary {op : BinaryOp} (hop : op = .eqEqEq ∨ op = .and ∨ op = .ltEq) (a b : Expr) :
    r.Holds (Build.binary op a b) ↔ r.Holds a ∧ r.Holds b := by
  have hle : op.precedence ≤ memberStrength ∧ op.precedence + 1 ≤ memberStrength := by
    obtain rfl | rfl | rfl := hop <;> decide
  have hown := r.binary hop (le_strength_atLeast hle.1 a) (le_strength_atLeast hle.2 b)
  rw [Build.binary, holds_iff]
  simp [hown, children]

@[simp] theorem holds_eqEqEq (a b : Expr) :
    r.Holds (Build.binary .eqEqEq a b) ↔ r.Holds a ∧ r.Holds b := holds_binary (by decide) a b

@[simp] theorem holds_and (a b : Expr) :
    r.Holds (Build.binary .and a b) ↔ r.Holds a ∧ r.Holds b := holds_binary (by decide) a b

@[simp] theorem holds_ltEq (a b : Expr) :
    r.Holds (Build.binary .ltEq a b) ↔ r.Holds a ∧ r.Holds b := holds_binary (by decide) a b

@[simp] theorem holds_cond (t a b : Expr) :
    r.Holds (Build.cond t a b) ↔ r.Holds t ∧ r.Holds a ∧ r.Holds b := by
  have hown := r.cond (le_strength_atLeast (by decide) t) (le_strength_atLeast (by decide) a)
    (le_strength_atLeast (by decide) b)
  rw [Build.cond, holds_iff]
  simp [hown, children]

@[simp] theorem holds_access (e : Expr) (k : Key) :
    r.Holds (access e k) ↔ r.Holds e ∧ r.Holds k := by
  have hown := r.member (k := k) (le_strength_atLeast (Nat.le_refl _) e)
  rw [access, holds_iff]
  simp [hown, children]

@[simp] theorem holds_member (e : Expr) (x : String) : r.Holds (Build.member e x) ↔ r.Holds e := by
  simp [Build.member]

@[simp] theorem holds_computed (e k : Expr) :
    r.Holds (computed e k) ↔ r.Holds e ∧ r.Holds k := by
  simp [computed]

@[simp] theorem holds_call (f : Expr) (args : List Expr) :
    r.Holds (Build.call f args) ↔ r.Holds f ∧ ∀ e ∈ args, r.Holds e := by
  have hargs : ∀ e ∈ args.map (atLeast assignStrength), assignStrength ≤ e.strength := by
    intro e he
    obtain ⟨a, -, rfl⟩ := List.mem_map.mp he
    exact le_strength_atLeast (by decide) a
  have hown := r.call (le_strength_atLeast (Nat.le_refl _) f) hargs
  rw [List.map_map] at hown
  rw [Build.call, holds_iff]
  refine (and_iff_right hown).trans ?_
  simp [children]

theorem holds_assign {p : Pat} (hp : p.assignTarget? = .some p) (e : Expr) :
    r.Holds (Build.assign p e) ↔ r.Holds p ∧ r.Holds e := by
  have hown := r.assign hp (le_strength_atLeast (by decide) e)
  rw [Build.assign, holds_iff]
  simp [hown, children]

@[simp] theorem holds_assignTo (id : Ident) (e : Expr) :
    r.Holds (assignTo id e) ↔ r.Holds e := by
  rw [assignTo, holds_assign rfl]
  simp

@[simp] theorem holds_buildExprStmt (e : Expr) : r.Holds (Build.exprStmt e) ↔ r.Holds e := by
  unfold Build.exprStmt
  split <;> simp

theorem holds_declarator {span : Span} {definite : Bool} {p : Pat} {o : Node (.opt .expr)} :
    r.Holds (.declarator span definite p o) ↔
      o.toOption.all r.init = true ∧ r.Holds p ∧ r.Holds o := by
  rw [holds_iff, r.declarator]
  simp [children]

@[simp] theorem holds_declarePat (span : Span) (kind : VarKind) (p : Pat) (o : Option Expr) :
    r.Holds (declarePat span kind p o) ↔
      o.all r.init = true ∧ r.Holds p ∧ ∀ e ∈ o, r.Holds e := by
  simp [declarePat, holds_declarator]

@[simp] theorem holds_declare (kind : VarKind) (id : Ident) (o : Option Expr) :
    r.Holds (declare kind id o) ↔ o.all r.init = true ∧ ∀ e ∈ o, r.Holds e := by
  simp [declare]

@[simp] theorem holds_buildBlock (l : List Stmt) :
    r.Holds (Build.block l) ↔ ∀ s ∈ l, r.Holds s := by
  simp [Build.block]

@[simp] theorem holds_buildBlockStmt (span : Span) (l : List Stmt) :
    r.Holds (Build.blockStmt span l) ↔ ∀ s ∈ l, r.Holds s := by
  simp [Build.blockStmt]

@[simp] theorem holds_intoBlock (s : Stmt) : r.Holds (intoBlock s) ↔ r.Holds s := by
  unfold intoBlock
  split <;> simp

@[simp] theorem holds_labeled (label : Ident) (s : Stmt) :
    r.Holds (labeled label s) ↔ r.Holds s := holds_labeledStmt _ _ _

@[simp] theorem holds_breakTo (label : Option Ident) : r.Holds (breakTo label) :=
  holds_breakStmt _ _

@[simp] theorem holds_ifElse (t : Expr) (s : Stmt) (o : Option Stmt) :
    r.Holds (ifElse t s o) ↔ r.Holds t ∧ r.Holds s ∧ ∀ s' ∈ o, r.Holds s' := by
  simp [ifElse]

@[simp] theorem holds_whileDo (span : Span) (t : Expr) (l : List Stmt) :
    r.Holds (whileDo span t l) ↔ r.Holds t ∧ ∀ s ∈ l, r.Holds s := by
  simp [whileDo]

@[simp] theorem holds_buildThrowStmt (e : Expr) : r.Holds (Build.throwStmt e) ↔ r.Holds e :=
  holds_throwStmt _ _

end SyntaxRule

end PlainJs

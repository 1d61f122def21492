import PlainJs.Node.Build
import PlainJs.Node.Parts
import PlainJs.Proofs.Completion
import PlainJs.Proofs.Parts

namespace PlainJs

/-- The state of a run: all that a program without temporaries can see, and the temporaries. -/
structure State (U V : Type) where
  user : U
  temps : String → V

/-- What a function body does. -/
abbrev Body (U V : Type) := U → Part (Completion V × U)

/-- What the parts of a program mean that are no statements. Code is given by its tree, in which
every function body is empty, and the meanings of the function bodies in visiting order. -/
structure Interp (U V : Type) where
  undefined : V
  bool : Bool → V
  num : Decimal → V
  truthy : V → Bool
  strictEq : V → V → Bool
  atMost : V → V → Bool
  truthy_bool : ∀ b, truthy (bool b) = b
  atMost_num : ∀ m n, atMost (num (.ofNat m)) (num (.ofNat n)) = decide (m ≤ n)
  /-- A field of what a step of an iterator gives. -/
  field : V → String → V
  expr : Expr → List (Body U V) → Action U V V
  leaf : {c : Cat} → Node c → List (Body U V) → Action U V Unit
  declareName : VarKind → Ident → Option V → Action U V Unit
  declarePattern : VarKind → Declarator → List (Body U V) → Action U V Unit
  assign : Pat → List (Body U V) → V → Action U V Unit
  /-- Binds the value of a step where the head of a loop is neither a name nor an assignment. -/
  bindHead : Node .forHead → List (Body U V) → V → Action U V Unit
  catchName : Ident → V → U → U
  catchPattern : Pat → List (Body U V) → V → Action U V Unit
  /-- The iterator of a value; the flag is set for asynchronous ones. -/
  iterator : Bool → V → Action U V V
  /-- The name of the function that gives an iterator over the keys of a value. -/
  keyHelper : String
  keys : V → Action U V V
  next : Bool → V → Action U V V
  close : Bool → V → Action U V Unit
  enterWith : V → Action U V Unit
  leaveWith : U → U

namespace Node

/-- A tree in which every outermost block is empty. -/
def skeleton {c : Cat} (n : Node c) : Node c :=
  match c, n with
  | _, .block span ctxt _ => .block span ctxt .nil
  | _, n => Id.run (n.traverse fun k _ => pure (skeleton k))
termination_by sizeOf n
decreasing_by exact sizeOf_lt_of_mem_children ‹_›

theorem skeleton_eq_mapParts {c : Cat} {n : Node c} (h : c ≠ .block) :
    n.skeleton = n.mapParts skeleton := by
  unfold skeleton
  split
  · exact absurd rfl h
  · rfl

/-- The statements of the outermost blocks of a tree, in visiting order. In an expression these are
the function bodies. -/
def bodies {c : Cat} (n : Node c) : List (Node (.list .stmt)) :=
  match c, n with
  | _, .block _ _ stmts => [stmts]
  | _, n => n.children.attach.flatMap fun ⟨⟨_, k⟩, _⟩ => bodies k
termination_by sizeOf n
decreasing_by exact sizeOf_lt_of_mem_children ‹_›

theorem bodies_eq_flatMap {c : Cat} {n : Node c} (h : c ≠ .block) :
    n.bodies = n.children.flatMap fun k => k.2.bodies := by
  conv_lhs => unfold bodies
  split
  · exact absurd rfl h
  · simp

theorem sizeOf_lt_of_mem_bodies {c : Cat} {n : Node c} {b : Node (.list .stmt)}
    (h : b ∈ n.bodies) : sizeOf b < sizeOf n := by
  fun_induction bodies n with
  | case1 span ctxt stmts =>
    obtain rfl := List.mem_singleton.mp h
    exact sizeOf_blockStmts_lt (.block span ctxt b)
  | case2 c n _ ih =>
    obtain ⟨⟨⟨d, k⟩, hk⟩, _, hb⟩ := List.mem_flatMap.mp h
    exact (ih d k hk hb).trans (sizeOf_lt_of_mem_children hk)

/-- The statements of the body of a function. -/
def ownBodies : {c : Cat} → Node c → List (Node (.list .stmt))
  | _, .func _ _ _ _ _ _ b | _, .ctorMember _ _ _ _ b | _, .getterProp _ _ b
  | _, .setterProp _ _ _ b => b.bodies
  | _, .arrow _ _ _ _ _ b => ofArrow b
  | _, .staticBlock _ b => b.bodies
  | _, _ => []
where
  ofArrow : Node .arrowBody → List (Node (.list .stmt))
    | .blockBody b => b.bodies
    | .exprBody _ => []

/-- The statements of all functions in a tree, at any depth. -/
def functionBodies {c : Cat} (n : Node c) : List (Node (.list .stmt)) :=
  n.ownBodies ++ n.children.attach.flatMap fun ⟨⟨_, k⟩, _⟩ => functionBodies k
termination_by sizeOf n
decreasing_by exact sizeOf_lt_of_mem_children ‹_›

theorem functionBodies_eq {c : Cat} (n : Node c) :
    n.functionBodies = n.ownBodies ++ n.children.flatMap fun k => k.2.functionBodies := by
  conv_lhs => unfold functionBodies
  simp

end Node

namespace Interp

variable {U V : Type}

/-- An action on the part of the state that is no temporary. -/
def lift {A : Type} (a : Action U V A) : Action (State U V) V A :=
  ExceptT.mk fun s => (a.run.run s.user).map fun r => (r.1, { s with user := r.2 })

def readTemp (x : String) : Action (State U V) V V :=
  ExceptT.mk fun s => .some (.ok (s.temps x), s)

def writeTemp (x : String) (v : V) : Action (State U V) V Unit :=
  ExceptT.mk fun s => .some (.ok (), { s with temps := Function.update s.temps x v })

/-- Whether the value of an expression comes from a temporary. -/
def isTemporary (temps : List String) {c : Cat} : Node c → Bool
  | .ref id => temps.contains id.name
  | .paren _ e => isTemporary temps e
  | .unary _ .not e => isTemporary temps e
  | .member _ o _ => isTemporary temps o
  | .assign _ .assign (.binder id) _ => temps.contains id.name
  | _ => false

variable (I : Interp U V) (temps : List String)

/-- The temporary that a pattern is. -/
def tempTarget? : Pat → Option String
  | .binder id => if id.name ∈ temps then some id.name else none
  | _ => none

/-- The calls that drive a loop over an iterator. -/
inductive LoopCall
  | next (iterator : String)
  | iterator (subject : Expr)
  | keys (subject : Expr)
  | other

/-- Whether an expression is the symbol under which a value keeps its iterator. -/
def isIteratorSymbol : Expr → Bool
  | .member _ o (.fixedKey _ k) => k == .name "iterator" && isGlobal "Symbol" o
  | _ => false
where
  isGlobal (x : String) : Expr → Bool
    | .ref id => id.name == x && !temps.contains x
    | _ => false

/-- The only argument of a call. -/
def soleArg? : Node (.list .arg) → Option Expr
  | .cons a rest => if rest.toList.isEmpty then plainArg? a else none
  | _ => none
where
  plainArg? : Node .arg → Option Expr
    | .plainArg e => some e
    | _ => none

def loopCall (args : Node (.list .arg)) : Node .callee → LoopCall
  | .exprCallee f => ofCallee f
  | _ => .other
where
  ofCallee : Expr → LoopCall
    | .ref f =>
      if f.name = I.keyHelper ∧ f.name ∉ temps then (soleArg? args).elim .other .keys else .other
    | .member _ o k => if args.toList.isEmpty then ofMember o k else .other
    | _ => .other
  ofMember (o : Expr) : Key → LoopCall
    | .fixedKey _ k => if k = .name "next" then ofIterator o else .other
    | .computedKey _ k => if isIteratorSymbol temps k then .iterator o else .other
  ofIterator : Expr → LoopCall
    | .ref it => if it.name ∈ temps then .next it.name else .other
    | _ => .other

variable {I temps}

/-- How a call looks that drives a loop. -/
def LoopCall.Fits (temps : List String) (args : Node (.list .arg)) (callee : Node .callee) :
    LoopCall → Prop
  | .next it => ∃ span id k,
    callee = .exprCallee (.member span (.ref id) k) ∧ it = id.name ∧ id.name ∈ temps
  | .iterator o => ∃ span k, callee = .exprCallee (.member span o k)
  | .keys e => ∃ rest, args = .cons (.plainArg e) rest
  | .other => True

theorem fits_keys (args : Node (.list .arg)) (callee : Node .callee) :
    ((soleArg? args).elim .other .keys : LoopCall).Fits temps args callee := by
  cases args with
  | nil => trivial
  | cons a rest =>
    cases a with
    | plainArg e =>
      simp only [soleArg?, soleArg?.plainArg?]
      split
      · exact ⟨rest, rfl⟩
      · trivial
    | spreadArg =>
      simp only [soleArg?, soleArg?.plainArg?, ite_self]
      trivial

theorem fits_ofMember (args : Node (.list .arg)) (span : Span) (o : Expr) (k : Key) :
    (loopCall.ofMember temps o k).Fits temps args (.exprCallee (.member span o k)) := by
  cases k with
  | fixedKey ks key =>
    simp only [loopCall.ofMember]
    split
    · unfold loopCall.ofIterator
      split
      · split
        · exact ⟨span, _, _, rfl, rfl, ‹_›⟩
        · trivial
      · trivial
    · trivial
  | computedKey ks key =>
    simp only [loopCall.ofMember]
    split
    · exact ⟨span, _, rfl⟩
    · trivial

theorem loopCall_fits (args : Node (.list .arg)) (callee : Node .callee) :
    (loopCall I temps args callee).Fits temps args callee := by
  unfold loopCall loopCall.ofCallee
  split
  · split
    · split
      · exact fits_keys args _
      · trivial
    · split
      · exact fits_ofMember args _ _ _
      · trivial
    · trivial
  · trivial

variable (I temps)

/-- Evaluates an expression that stands for code with the given function bodies. Only what reads or
writes temporaries, the negation and the calls that make iterators have fixed rules. -/
def eval (e : Expr) (bs : List (Body U V)) : Action (State U V) V V :=
  match e with
  | .paren _ e => eval e bs
  | .atom span a =>
    match a with
    | .bool b => pure (I.bool b)
    | .num d _ => pure (I.num d)
    | a => lift (I.expr (.atom span a) bs)
  | .unary span op e =>
    if op = .not then do return I.bool (!I.truthy (← eval e bs))
    else lift (I.expr (.unary span op e) bs)
  | .ref id => if id.name ∈ temps then readTemp id.name else lift (I.expr (.ref id) bs)
  | .assign span op p e =>
    match op, tempTarget? temps p with
    | .assign, some x => do
      let v ← eval e bs
      writeTemp x v
      return v
    | .assign, none =>
      if isTemporary temps e then do
        let v ← eval e []
        lift (I.assign p bs v)
        return v
      else lift (I.expr (.assign span .assign p e) bs)
    | op, _ => lift (I.expr (.assign span op p e) bs)
  | .binary span op l r =>
    if isTemporary temps l then
      match op with
      | .and => do
        let v ← eval l []
        if I.truthy v then eval r bs else return v
      | .eqEqEq => do
        let v ← eval l []
        return I.bool (I.strictEq v (← eval r bs))
      | .ltEq => do
        let v ← eval l []
        return I.bool (I.atMost v (← eval r bs))
      | op => lift (I.expr (.binary span op l r) bs)
    else lift (I.expr (.binary span op l r) bs)
  | .member span o k =>
    match fieldName? k with
    | some x =>
      if isTemporary temps o then do return I.field (← eval o bs) x
      else lift (I.expr (.member span o k) bs)
    | none => lift (I.expr (.member span o k) bs)
  | .call span ctxt callee args =>
    match _h : loopCall I temps args callee with
    | .next it => readTemp it >>= fun v => lift (I.next false v)
    | .iterator o => eval o bs >>= fun v => lift (I.iterator false v)
    | .keys e => eval e bs >>= fun v => lift (I.keys v)
    | .other => lift (I.expr (.call span ctxt callee args) bs)
  | e => lift (I.expr e bs)
termination_by sizeOf e
decreasing_by
  all_goals simp only [Node.paren.sizeOf_spec, Node.unary.sizeOf_spec, Node.assign.sizeOf_spec,
    Node.binary.sizeOf_spec, Node.member.sizeOf_spec, Node.call.sizeOf_spec]
  all_goals first
    | omega
    | obtain ⟨_, _, rfl⟩ : LoopCall.Fits temps args callee (.iterator _) := _h ▸ loopCall_fits ..
      simp only [Node.exprCallee.sizeOf_spec, Node.member.sizeOf_spec]
      omega
    | obtain ⟨_, rfl⟩ : LoopCall.Fits temps args callee (.keys _) := _h ▸ loopCall_fits ..
      simp only [Node.cons.sizeOf_spec, Node.plainArg.sizeOf_spec]
      omega
where
  fieldName? : Key → Option String
    | .fixedKey _ (.name x) => some x
    | _ => none

/-- What a function body does: its temporaries start afresh, and nobody sees them afterwards. -/
def bodyOf (x : Effect (State U V) (Completion V)) : Body U V := fun u =>
  (x.run ⟨u, fun _ => I.undefined⟩).map fun r => (r.1, r.2.user)

open Run

/-- Declares a name, with a value if there is one. -/
def bindName (kind : VarKind) (id : Ident) (v : Option V) : Action (State U V) V Unit :=
  if id.name ∈ temps then writeTemp id.name (v.getD I.undefined)
  else lift (I.declareName kind id v)

def bindDeclarator (kind : VarKind) (bs : List (Body U V)) :
    Declarator → Action (State U V) V Unit
  | .declarator span definite p init =>
    match p, init with
    | .binder id, .none => bindName I temps kind id none
    | .binder id, .some e => eval I temps e bs >>= fun v => bindName I temps kind id (some v)
    | p, init => lift (I.declarePattern kind (.declarator span definite p init) bs)

/-- Binds what was thrown to the parameter of a `catch` clause. -/
def bindCaught (bs : List (Body U V)) (v : V) : Pat → Action (State U V) V Unit
  | .binder id =>
    if id.name ∈ temps then writeTemp id.name v
    else lift (ExceptT.mk fun u => .some (.ok (), I.catchName id v u))
  | p => lift (I.catchPattern p bs v)

/-- The name that a declaration declares, if that is all it does. -/
def soleName? : Node (.list .declarator) → Option Ident
  | .cons d rest => if rest.toList.isEmpty then target d else none
  | _ => none
where
  target : Declarator → Option Ident
    | .declarator _ _ p _ => p.binder?

/-- Binds the value of a step of a loop. -/
def bindStep (bs : List (Body U V)) (v : V) : Node .forHead → Action (State U V) V Unit
  | .headDecl d => ofDecl d
  | .headPat p => lift (I.assign (p.assignTarget?.getD p) bs v)
  | .headUsing span isAwait ds => lift (I.bindHead (.headUsing span isAwait ds) bs v)
where
  ofDecl : VarDecl → Action (State U V) V Unit
    | .varDecl span ctxt kind declare ds =>
      match soleName? ds with
      | some id => bindName I temps kind id (some v)
      | none => lift (I.bindHead (.headDecl (.varDecl span ctxt kind declare ds)) bs v)

/-- A loop that checks a condition before each round. -/
def whileFrame (test update : Action (State U V) V V) : Frame (State U V) V where
  enter := I.truthy <$> test
  again := (fun _ => true) <$> update
  close := pure ()

/-- A loop that checks a condition after each round. -/
def doWhileFrame (test : Action (State U V) V V) : Frame (State U V) V where
  enter := pure true
  again := I.truthy <$> test
  close := pure ()

/-- A loop over an iterator. -/
def stepFrame (isAwait : Bool) (iterator : V) (bind : V → Action (State U V) V Unit)
    (close : Action (State U V) V Unit) : Frame (State U V) V where
  enter := do
    let r ← lift (I.next isAwait iterator)
    if I.truthy (I.field r "done") then return false
    (bind (I.field r "value")).orClose close
    return true
  again := pure true
  close := close

mutual

/-- The meanings of the function bodies of a tree, in visiting order. -/
def meanings {c : Cat} (n : Node c) : List (Body U V) :=
  n.bodies.attach.map fun ⟨b, _⟩ => I.bodyOf (exec [] b)
termination_by (sizeOf n, 0)
decreasing_by exact Prod.Lex.left _ _ (Node.sizeOf_lt_of_mem_bodies ‹_›)

def value (e : Expr) : Action (State U V) V V := eval I temps e.skeleton (meanings e)
termination_by (sizeOf e, 1)
decreasing_by exact Prod.Lex.right _ (by decide)

/-- The value of an expression that may be absent. -/
def valueOr (v : V) (o : Node (.opt .expr)) : Action (State U V) V V :=
  match o with
  | .none => pure v
  | .some e => value e
termination_by (sizeOf o, 0)
decreasing_by
  apply Prod.Lex.left
  simp only [Node.some.sizeOf_spec]
  omega

/-- The run of a statement, of a list of them, or of what stands in the place of one. A loop also
depends on the labels right before it. -/
def exec (labels : List String) {c : Cat} (n : Node c) : Effect (State U V) (Completion V) :=
  match c, n with
  | _, .nil | _, .none | _, .emptyStmt _ => done
  | _, .cons a l => seq (exec [] a) (exec [] l)
  | _, .some a => exec [] a
  | _, .block _ _ stmts => exec [] stmts
  | _, .blockStmt b => exec [] b
  | _, .exprStmt _ e => evaluating (value e) fun _ => done
  | _, .withStmt _ o body =>
    evaluating (value o >>= fun v => lift (I.enterWith v)) fun _ => do
      let c ← exec [] body
      modify fun s => { s with user := I.leaveWith s.user }
      return c
  | _, .returnStmt _ result =>
    evaluating (valueOr I.undefined result) fun v => pure (.return v)
  | _, .throwStmt _ e => evaluating (value e) fun v => pure (.throw v)
  | _, .labeledStmt _ label body => labeled label.name (exec (label.name :: labels) body)
  | _, .breakStmt _ label => pure (.break (label.map (·.name)))
  | _, .continueStmt _ label => pure (.continue (label.map (·.name)))
  | _, .ifStmt _ test yes no =>
    evaluating (value test) fun v => if I.truthy v then exec [] yes else exec [] no
  | _, .switchStmt _ subject clauses =>
    evaluating (value subject) fun v => switchOn (I.strictEq v) (cases clauses)
  | _, .tryStmt _ body handler finalizer =>
    tryFinally (tryCatch (exec [] body) (catching handler)) (exec [] finalizer)
  | _, .whileStmt _ test body =>
    (whileFrame I (value test) (pure I.undefined)).loop labels (exec [] body)
  | _, .doWhileStmt _ test body => (doWhileFrame I (value test)).loop labels (exec [] body)
  | _, .forStmt _ init test update body =>
    seq (exec [] init) ((whileFrame I (valueOr (I.bool true) test)
      (valueOr I.undefined update)).loop labels (exec [] body))
  | _, .forInStmt _ head subject body =>
    evaluating (value subject >>= fun v => lift (I.keys v)) fun it =>
      (stepFrame I false it (bindStep I temps (meanings head) · head.skeleton) (pure ())).loop labels
        (exec [] body)
  | _, .forOfStmt _ isAwait head subject body =>
    evaluating (value subject >>= fun v => lift (I.iterator isAwait v)) fun it =>
      (stepFrame I isAwait it (bindStep I temps (meanings head) · head.skeleton)
        (lift (I.close isAwait it))).loop labels (exec [] body)
  | _, .declStmt d => exec [] d
  | _, .declVar v | _, .initDecl v => exec [] v
  | _, .initExpr e => evaluating (value e) fun _ => done
  | _, .varDecl _ _ kind _ ds => declare kind ds
  | _, .clause _ _ body => exec [] body
  | _, .handler _ _ body => exec [] body
  | _, .blockBody b => exec [] b
  | _, .stmtItem s => exec [] s
  | _, .exportDecl _ d => exec [] d
  | _, .moduleProgram _ _ items => exec [] items
  | _, .scriptProgram _ _ stmts => exec [] stmts
  | _, n => evaluating (lift (I.leaf n.skeleton (meanings n))) fun _ => done
termination_by (sizeOf n, 2)
decreasing_by
  all_goals first
    | exact Prod.Lex.right _ (by decide)
    | apply Prod.Lex.left
      simp only [Node.cons.sizeOf_spec, Node.some.sizeOf_spec, Node.block.sizeOf_spec,
        Node.blockStmt.sizeOf_spec, Node.exprStmt.sizeOf_spec, Node.withStmt.sizeOf_spec,
        Node.returnStmt.sizeOf_spec, Node.throwStmt.sizeOf_spec, Node.labeledStmt.sizeOf_spec,
        Node.ifStmt.sizeOf_spec, Node.switchStmt.sizeOf_spec, Node.tryStmt.sizeOf_spec,
        Node.whileStmt.sizeOf_spec, Node.doWhileStmt.sizeOf_spec, Node.forStmt.sizeOf_spec,
        Node.forInStmt.sizeOf_spec, Node.forOfStmt.sizeOf_spec, Node.declStmt.sizeOf_spec,
        Node.declVar.sizeOf_spec, Node.initDecl.sizeOf_spec, Node.initExpr.sizeOf_spec,
        Node.varDecl.sizeOf_spec, Node.clause.sizeOf_spec, Node.handler.sizeOf_spec,
        Node.blockBody.sizeOf_spec, Node.stmtItem.sizeOf_spec, Node.exportDecl.sizeOf_spec,
        Node.moduleProgram.sizeOf_spec, Node.scriptProgram.sizeOf_spec]
      omega

/-- Runs declarators in their order. -/
def declare (kind : VarKind) {c : Cat} (n : Node c) : Effect (State U V) (Completion V) :=
  match c, n with
  | _, .cons d rest => seq (declare kind d) (declare kind rest)
  | _, .declarator span definite p init =>
    let d : Declarator := .declarator span definite p init
    evaluating (bindDeclarator I temps kind (meanings d) d.skeleton) fun _ => done
  | _, _ => done
termination_by (sizeOf n, 2)
decreasing_by
  all_goals first
    | exact Prod.Lex.right _ (by decide)
    | apply Prod.Lex.left
      simp only [Node.cons.sizeOf_spec]
      omega

/-- The clauses of a `switch`. -/
def cases {c : Cat} (n : Node c) : List (Run.Case (State U V) V) :=
  match c, n with
  | _, .cons a rest => cases a ++ cases rest
  | _, .clause _ test body =>
    let test := match test with
      | .none => none
      | .some e => some (value e)
    [⟨test, exec [] body⟩]
  | _, _ => []
termination_by (sizeOf n, 2)
decreasing_by
  all_goals
    apply Prod.Lex.left
    simp only [Node.cons.sizeOf_spec, Node.clause.sizeOf_spec, Node.some.sizeOf_spec]
    omega

/-- What a `catch` clause does with what was thrown. -/
def catching {c : Cat} (n : Node c) : Option (V → Effect (State U V) (Completion V)) :=
  match c, n with
  | _, .some h => catching h
  | _, .handler _ param body =>
    some fun v =>
      match param with
      | .none => exec [] body
      | .some p => evaluating (bindCaught I temps (meanings p) v p.skeleton) fun _ => exec [] body
  | _, _ => none
termination_by (sizeOf n, 2)
decreasing_by
  all_goals
    apply Prod.Lex.left
    simp only [Node.some.sizeOf_spec, Node.handler.sizeOf_spec]
    omega

end

section

variable {I temps} {labels : List String}

@[simp] theorem exec_nil {c : Cat} :
    I.exec temps labels (.nil : Node (.list c)) = done := by
  conv_lhs => unfold exec

@[simp] theorem exec_none {c : Cat} :
    I.exec temps labels (.none : Node (.opt c)) = done := by
  conv_lhs => unfold exec

@[simp] theorem exec_emptyStmt (span : Span) :
    I.exec temps labels (.emptyStmt span) = done := by
  conv_lhs => unfold exec

@[simp] theorem exec_cons {c : Cat} (a : Node c) (l : Node (.list c)) :
    I.exec temps labels (.cons a l) = seq (I.exec temps [] a) (I.exec temps [] l) := by
  conv_lhs => unfold exec

@[simp] theorem exec_some {c : Cat} (a : Node c) :
    I.exec temps labels (.some a) = I.exec temps [] a := by
  conv_lhs => unfold exec

@[simp] theorem exec_block (span : Span) (ctxt : Nat) (stmts : Node (.list .stmt)) :
    I.exec temps labels (.block span ctxt stmts) = I.exec temps [] stmts := by
  conv_lhs => unfold exec

@[simp] theorem exec_blockStmt (b : Block) :
    I.exec temps labels (.blockStmt b) = I.exec temps [] b := by
  conv_lhs => unfold exec

@[simp] theorem exec_declStmt (d : Node .decl) :
    I.exec temps labels (.declStmt d) = I.exec temps [] d := by
  conv_lhs => unfold exec

@[simp] theorem exec_declVar (v : VarDecl) :
    I.exec temps labels (.declVar v) = I.exec temps [] v := by
  conv_lhs => unfold exec

@[simp] theorem exec_initDecl (v : VarDecl) :
    I.exec temps labels (.initDecl v) = I.exec temps [] v := by
  conv_lhs => unfold exec

@[simp] theorem exec_clause (span : Span) (test : Node (.opt .expr)) (body : Node (.list .stmt)) :
    I.exec temps labels (.clause span test body) = I.exec temps [] body := by
  conv_lhs => unfold exec

@[simp] theorem exec_handler (span : Span) (param : Node (.opt .pat)) (body : Block) :
    I.exec temps labels (.handler span param body) = I.exec temps [] body := by
  conv_lhs => unfold exec

@[simp] theorem exec_blockBody (b : Block) :
    I.exec temps labels (.blockBody b) = I.exec temps [] b := by
  conv_lhs => unfold exec

@[simp] theorem exec_stmtItem (s : Stmt) :
    I.exec temps labels (.stmtItem s) = I.exec temps [] s := by
  conv_lhs => unfold exec

@[simp] theorem exec_exportDecl (span : Span) (d : Node .decl) :
    I.exec temps labels (.exportDecl span d) = I.exec temps [] d := by
  conv_lhs => unfold exec

@[simp] theorem exec_moduleProgram (span : Span) (interpreter : Option String) (items : Node (.list .item)) :
    I.exec temps labels (.moduleProgram span interpreter items) = I.exec temps [] items := by
  conv_lhs => unfold exec

@[simp] theorem exec_scriptProgram (span : Span) (interpreter : Option String) (stmts : Node (.list .stmt)) :
    I.exec temps labels (.scriptProgram span interpreter stmts) = I.exec temps [] stmts := by
  conv_lhs => unfold exec

@[simp] theorem exec_exprStmt (span : Span) (e : Expr) :
    I.exec temps labels (.exprStmt span e) = evaluating (I.value temps e) fun _ => done := by
  conv_lhs => unfold exec

@[simp] theorem exec_initExpr (e : Expr) :
    I.exec temps labels (.initExpr e) = evaluating (I.value temps e) fun _ => done := by
  conv_lhs => unfold exec

@[simp] theorem exec_withStmt (span : Span) (o : Expr) (body : Stmt) :
    I.exec temps labels (.withStmt span o body) =
      evaluating (I.value temps o >>= fun v => lift (I.enterWith v)) fun _ => do
        let c ← I.exec temps [] body
        modify fun s => { s with user := I.leaveWith s.user }
        return c := by
  conv_lhs => unfold exec

@[simp] theorem exec_returnStmt (span : Span) (result : Node (.opt .expr)) :
    I.exec temps labels (.returnStmt span result) =
      evaluating (I.valueOr temps I.undefined result) fun v => pure (.return v) := by
  conv_lhs => unfold exec

@[simp] theorem exec_throwStmt (span : Span) (e : Expr) :
    I.exec temps labels (.throwStmt span e) =
      evaluating (I.value temps e) fun v => pure (.throw v) := by
  conv_lhs => unfold exec

@[simp] theorem exec_labeledStmt (span : Span) (label : Ident) (body : Stmt) :
    I.exec temps labels (.labeledStmt span label body) =
      labeled label.name (I.exec temps (label.name :: labels) body) := by
  conv_lhs => unfold exec

@[simp] theorem exec_breakStmt (span : Span) (label : Option Ident) :
    I.exec temps labels (.breakStmt span label) = pure (.break (label.map (·.name))) := by
  conv_lhs => unfold exec

@[simp] theorem exec_continueStmt (span : Span) (label : Option Ident) :
    I.exec temps labels (.continueStmt span label) = pure (.continue (label.map (·.name))) := by
  conv_lhs => unfold exec

@[simp] theorem exec_ifStmt (span : Span) (test : Expr) (yes : Stmt) (no : Node (.opt .stmt)) :
    I.exec temps labels (.ifStmt span test yes no) =
      evaluating (I.value temps test) fun v =>
        if I.truthy v then I.exec temps [] yes else I.exec temps [] no := by
  conv_lhs => unfold exec

@[simp] theorem exec_switchStmt (span : Span) (subject : Expr) (clauses : Node (.list .clause)) :
    I.exec temps labels (.switchStmt span subject clauses) =
      evaluating (I.value temps subject) fun v =>
        switchOn (I.strictEq v) (I.cases temps clauses) := by
  conv_lhs => unfold exec

@[simp] theorem exec_tryStmt (span : Span) (body : Block) (handler : Node (.opt .handler))
    (finalizer : Node (.opt .block)) :
    I.exec temps labels (.tryStmt span body handler finalizer) =
      tryFinally (tryCatch (I.exec temps [] body) (I.catching temps handler))
        (I.exec temps [] finalizer) := by
  conv_lhs => unfold exec

@[simp] theorem exec_whileStmt (span : Span) (test : Expr) (body : Stmt) :
    I.exec temps labels (.whileStmt span test body) =
      (I.whileFrame (I.value temps test) (pure I.undefined)).loop labels
        (I.exec temps [] body) := by
  conv_lhs => unfold exec

@[simp] theorem exec_doWhileStmt (span : Span) (test : Expr) (body : Stmt) :
    I.exec temps labels (.doWhileStmt span test body) =
      (I.doWhileFrame (I.value temps test)).loop labels (I.exec temps [] body) := by
  conv_lhs => unfold exec

@[simp] theorem exec_forStmt (span : Span) (init : Node (.opt .forInit)) (test update : Node (.opt .expr))
    (body : Stmt) :
    I.exec temps labels (.forStmt span init test update body) =
      seq (I.exec temps [] init) ((I.whileFrame (I.valueOr temps (I.bool true) test)
        (I.valueOr temps I.undefined update)).loop labels (I.exec temps [] body)) := by
  conv_lhs => unfold exec

@[simp] theorem exec_forInStmt (span : Span) (head : Node .forHead) (subject : Expr) (body : Stmt) :
    I.exec temps labels (.forInStmt span head subject body) =
      evaluating (I.value temps subject >>= fun v => lift (I.keys v)) fun it =>
        (I.stepFrame false it (I.bindStep temps (I.meanings temps head) · head.skeleton)
          (pure ())).loop labels (I.exec temps [] body) := by
  conv_lhs => unfold exec

@[simp] theorem exec_forOfStmt (span : Span) (isAwait : Bool) (head : Node .forHead) (subject : Expr)
    (body : Stmt) :
    I.exec temps labels (.forOfStmt span isAwait head subject body) =
      evaluating (I.value temps subject >>= fun v => lift (I.iterator isAwait v)) fun it =>
        (I.stepFrame isAwait it (I.bindStep temps (I.meanings temps head) · head.skeleton)
          (lift (I.close isAwait it))).loop labels (I.exec temps [] body) := by
  conv_lhs => unfold exec

@[simp] theorem exec_varDecl (span : Span) (ctxt : Nat) (kind : VarKind) (isDeclare : Bool)
    (ds : Node (.list .declarator)) :
    I.exec temps labels (.varDecl span ctxt kind isDeclare ds) = I.declare temps kind ds := by
  conv_lhs => unfold exec

@[simp] theorem declare_cons {c : Cat} (kind : VarKind) (d : Node c) (rest : Node (.list c)) :
    I.declare temps kind (.cons d rest) =
      seq (I.declare temps kind d) (I.declare temps kind rest) := by
  conv_lhs => unfold declare

@[simp] theorem declare_nil {c : Cat} (kind : VarKind) :
    I.declare temps kind (.nil : Node (.list c)) = done := by
  conv_lhs => unfold declare

theorem declare_declarator (kind : VarKind) (d : Declarator) :
    I.declare temps kind d =
      evaluating (I.bindDeclarator temps kind (I.meanings temps d) d.skeleton) fun _ => done := by
  cases d
  conv_lhs => unfold declare

@[simp] theorem cases_cons {c : Cat} (a : Node c) (rest : Node (.list c)) :
    I.cases temps (.cons a rest) = I.cases temps a ++ I.cases temps rest := by
  conv_lhs => unfold cases

@[simp] theorem cases_nil {c : Cat} : I.cases temps (.nil : Node (.list c)) = [] := by
  conv_lhs => unfold cases

@[simp] theorem cases_clause (span : Span) (test : Node (.opt .expr)) (body : Node (.list .stmt)) :
    I.cases temps (.clause span test body) =
      [⟨test.toOption.map (I.value temps), I.exec temps [] body⟩] := by
  unfold cases
  cases test <;> rfl

@[simp] theorem catching_none {c : Cat} : I.catching temps (.none : Node (.opt c)) = none := by
  conv_lhs => unfold catching

@[simp] theorem catching_some {c : Cat} (h : Node c) :
    I.catching temps (.some h) = I.catching temps h := by
  conv_lhs => unfold catching

@[simp] theorem catching_handler_none (span : Span) (body : Block) :
    I.catching temps (.handler span .none body) = some fun _ => I.exec temps [] body := by
  unfold catching
  rfl

@[simp] theorem catching_handler_some (span : Span) (p : Pat) (body : Block) :
    I.catching temps (.handler span (.some p) body) = some fun v =>
      evaluating (I.bindCaught temps (I.meanings temps p) v p.skeleton) fun _ =>
        I.exec temps [] body := by
  unfold catching
  rfl

@[simp] theorem valueOr_none (v : V) : I.valueOr temps v .none = pure v := by
  unfold valueOr
  rfl

@[simp] theorem valueOr_some (v : V) (e : Expr) :
    I.valueOr temps v (.some e) = I.value temps e := by
  unfold valueOr
  rfl

end

/-- Code as its surroundings see it. -/
def codeOf {c : Cat} (n : Node c) : Node c × List (Body U V) := (n.skeleton, meanings I temps n)

theorem value_eq (e : Expr) :
    value I temps e = eval I temps (codeOf I temps e).1 (codeOf I temps e).2 := by
  rw [value]
  rfl

theorem meanings_eq {c : Cat} (n : Node c) :
    meanings I temps n = n.bodies.map fun b => I.bodyOf (exec I temps [] b) := by
  rw [meanings]
  simp

theorem meanings_eq_flatMap {c : Cat} {n : Node c} (h : c ≠ .block) :
    meanings I temps n = n.children.flatMap fun k => meanings I temps k.2 := by
  simp only [meanings_eq, Node.bodies_eq_flatMap h, List.map_flatMap]

/-- The meanings of all functions in a tree, at any depth. -/
def functionMeanings {c : Cat} (n : Node c) : List (Body U V) :=
  n.functionBodies.map fun b => I.bodyOf (exec I temps [] b)

theorem functionMeanings_eq {c : Cat} (n : Node c) :
    functionMeanings I temps n = (n.ownBodies.map fun b => I.bodyOf (exec I temps [] b)) ++
      n.children.flatMap fun k => functionMeanings I temps k.2 := by
  simp only [functionMeanings]
  rw [Node.functionBodies_eq]
  simp only [List.map_append, List.map_flatMap]

end Interp

end PlainJs

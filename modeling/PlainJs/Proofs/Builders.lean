import PlainJs.Proofs.Execution

namespace PlainJs

namespace Run

variable {S V : Type}

@[simp] theorem seq_done (x : Effect S (Completion V)) : seq x done = x := by
  have h : ∀ c : Completion V, (if c.isNormal then done else pure c) =
      (pure c : Effect S (Completion V)) := by
    intro c
    cases c <;> rfl
  simp only [seq, h, bind_pure]

theorem evaluating_pure {A : Type} (a : A) (k : A → Effect S (Completion V)) :
    evaluating (pure a) k = k a := by
  unfold evaluating
  rw [ExceptT.run_pure, pure_bind]

theorem evaluating_bind {A B : Type} (x : Action S V A) (f : A → Action S V B)
    (k : B → Effect S (Completion V)) :
    evaluating (x >>= f) k = evaluating x fun a => evaluating (f a) k := by
  unfold evaluating
  rw [ExceptT.run_bind, bind_assoc]
  congr 1
  funext r
  cases r <;> simp

theorem evaluating_map {A B : Type} (x : Action S V A) (f : A → B)
    (k : B → Effect S (Completion V)) :
    evaluating (f <$> x) k = evaluating x fun a => k (f a) := by
  rw [map_eq_pure_bind, evaluating_bind]
  simp only [evaluating_pure]

theorem seq_evaluating {A : Type} (x : Action S V A) (k : A → Effect S (Completion V))
    (y : Effect S (Completion V)) : seq (evaluating x k) y = evaluating x fun a => seq (k a) y := by
  unfold seq evaluating
  rw [bind_assoc]
  congr 1
  funext r
  cases r <;> simp [Completion.isNormal]

theorem seq_assoc (x y z : Effect S (Completion V)) : seq (seq x y) z = seq x (seq y z) := by
  unfold seq
  rw [bind_assoc]
  congr 1
  funext c
  cases h : c.isNormal <;> simp [h]

theorem done_seq (y : Effect S (Completion V)) : seq done y = y := pure_bind _ _

end Run

open Run

namespace Interp

variable {U V : Type} {I : Interp U V} {temps : List String}

section

variable {c d d' d'' : Cat} {n : Node c} {k : Node d} {k' : Node d'} {k'' : Node d''}

theorem functionMeanings_leaf (hown : n.ownBodies = []) (hparts : n.children = []) :
    I.functionMeanings temps n = [] := by
  rw [functionMeanings_eq, hown, hparts]
  rfl

theorem functionMeanings_one (hown : n.ownBodies = []) (hparts : n.children = [⟨d, k⟩]) :
    I.functionMeanings temps n = I.functionMeanings temps k := by
  rw [functionMeanings_eq, hown, hparts]
  simp

theorem functionMeanings_two (hown : n.ownBodies = [])
    (hparts : n.children = [⟨d, k⟩, ⟨d', k'⟩]) :
    I.functionMeanings temps n = I.functionMeanings temps k ++ I.functionMeanings temps k' := by
  rw [functionMeanings_eq, hown, hparts]
  simp

theorem functionMeanings_three (hown : n.ownBodies = [])
    (hparts : n.children = [⟨d, k⟩, ⟨d', k'⟩, ⟨d'', k''⟩]) :
    I.functionMeanings temps n = I.functionMeanings temps k ++ (I.functionMeanings temps k' ++
      I.functionMeanings temps k'') := by
  rw [functionMeanings_eq, hown, hparts]
  simp

theorem functionMeanings_four {d₄ : Cat} {k₄ : Node d₄} (hown : n.ownBodies = [])
    (hparts : n.children = [⟨d, k⟩, ⟨d', k'⟩, ⟨d'', k''⟩, ⟨d₄, k₄⟩]) :
    I.functionMeanings temps n = I.functionMeanings temps k ++ (I.functionMeanings temps k' ++
      (I.functionMeanings temps k'' ++ I.functionMeanings temps k₄)) := by
  rw [functionMeanings_eq, hown, hparts]
  simp

end

@[simp] theorem functionMeanings_nil {c : Cat} :
    I.functionMeanings temps (.nil : Node (.list c)) = [] := functionMeanings_leaf rfl rfl

@[simp] theorem functionMeanings_cons {c : Cat} (a : Node c) (l : Node (.list c)) :
    I.functionMeanings temps (.cons a l) =
      I.functionMeanings temps a ++ I.functionMeanings temps l := functionMeanings_two rfl rfl

@[simp] theorem functionMeanings_ofList {c : Cat} (l : List (Node c)) :
    I.functionMeanings temps (.ofList l) = l.flatMap (I.functionMeanings temps ·) := by
  induction l with
  | nil => exact functionMeanings_nil
  | cons a l ih => rw [Node.ofList, functionMeanings_cons, ih, List.flatMap_cons]

@[simp] theorem functionMeanings_block (span : Span) (ctxt : Nat) (stmts : Node (.list .stmt)) :
    I.functionMeanings temps (.block span ctxt stmts) = I.functionMeanings temps stmts :=
  functionMeanings_one rfl rfl

@[simp] theorem functionMeanings_blockStmt (b : Block) :
    I.functionMeanings temps (.blockStmt b) = I.functionMeanings temps b :=
  functionMeanings_one rfl rfl

@[simp] theorem functionMeanings_labeledStmt (span : Span) (label : Ident) (s : Stmt) :
    I.functionMeanings temps (.labeledStmt span label s) = I.functionMeanings temps s :=
  functionMeanings_one rfl rfl

@[simp] theorem functionMeanings_breakStmt (span : Span) (label : Option Ident) :
    I.functionMeanings temps (.breakStmt span label) = [] := functionMeanings_leaf rfl rfl

@[simp] theorem functionMeanings_none {c : Cat} :
    I.functionMeanings temps (.none : Node (.opt c)) = [] := functionMeanings_leaf rfl rfl

@[simp] theorem functionMeanings_some {c : Cat} (a : Node c) :
    I.functionMeanings temps (.some a) = I.functionMeanings temps a :=
  functionMeanings_one rfl rfl

@[simp] theorem functionMeanings_ref (id : Ident) :
    I.functionMeanings temps (.ref id) = [] := functionMeanings_leaf rfl rfl

@[simp] theorem functionMeanings_atom (span : Span) (a : Atom) :
    I.functionMeanings temps (.atom span a) = [] := functionMeanings_leaf rfl rfl

@[simp] theorem functionMeanings_paren (span : Span) (e : Expr) :
    I.functionMeanings temps (.paren span e) = I.functionMeanings temps e :=
  functionMeanings_one rfl rfl

@[simp] theorem functionMeanings_unary (span : Span) (op : UnaryOp) (e : Expr) :
    I.functionMeanings temps (.unary span op e) = I.functionMeanings temps e :=
  functionMeanings_one rfl rfl

@[simp] theorem functionMeanings_binary (span : Span) (op : BinaryOp) (l r : Expr) :
    I.functionMeanings temps (.binary span op l r) =
      I.functionMeanings temps l ++ I.functionMeanings temps r := functionMeanings_two rfl rfl

@[simp] theorem functionMeanings_binder (id : Ident) :
    I.functionMeanings temps (.binder id) = [] := functionMeanings_leaf rfl rfl

@[simp] theorem functionMeanings_assign (span : Span) (op : AssignOp) (p : Pat) (e : Expr) :
    I.functionMeanings temps (.assign span op p e) =
      I.functionMeanings temps p ++ I.functionMeanings temps e := functionMeanings_two rfl rfl

@[simp] theorem functionMeanings_exprStmt (span : Span) (e : Expr) :
    I.functionMeanings temps (.exprStmt span e) = I.functionMeanings temps e :=
  functionMeanings_one rfl rfl

@[simp] theorem functionMeanings_throwStmt (span : Span) (e : Expr) :
    I.functionMeanings temps (.throwStmt span e) = I.functionMeanings temps e :=
  functionMeanings_one rfl rfl

@[simp] theorem functionMeanings_ifStmt (span : Span) (e : Expr) (yes : Stmt)
    (no : Node (.opt .stmt)) :
    I.functionMeanings temps (.ifStmt span e yes no) = I.functionMeanings temps e ++
      (I.functionMeanings temps yes ++ I.functionMeanings temps no) :=
  functionMeanings_three rfl rfl

@[simp] theorem functionMeanings_tryStmt (span : Span) (b : Block) (h : Node (.opt .handler))
    (f : Node (.opt .block)) :
    I.functionMeanings temps (.tryStmt span b h f) = I.functionMeanings temps b ++
      (I.functionMeanings temps h ++ I.functionMeanings temps f) :=
  functionMeanings_three rfl rfl

@[simp] theorem functionMeanings_handler (span : Span) (p : Node (.opt .pat)) (b : Block) :
    I.functionMeanings temps (.handler span p b) =
      I.functionMeanings temps p ++ I.functionMeanings temps b := functionMeanings_two rfl rfl

@[simp] theorem functionMeanings_declarator (span : Span) (definite : Bool) (p : Pat)
    (e : Node (.opt .expr)) :
    I.functionMeanings temps (.declarator span definite p e) =
      I.functionMeanings temps p ++ I.functionMeanings temps e := functionMeanings_two rfl rfl

@[simp] theorem functionMeanings_varDecl (span : Span) (ctxt : Nat) (kind : VarKind)
    (isDeclare : Bool) (ds : Node (.list .declarator)) :
    I.functionMeanings temps (.varDecl span ctxt kind isDeclare ds) =
      I.functionMeanings temps ds := functionMeanings_one rfl rfl

@[simp] theorem functionMeanings_declVar (v : VarDecl) :
    I.functionMeanings temps (.declVar v) = I.functionMeanings temps v :=
  functionMeanings_one rfl rfl

@[simp] theorem functionMeanings_declStmt (d : Node .decl) :
    I.functionMeanings temps (.declStmt d) = I.functionMeanings temps d :=
  functionMeanings_one rfl rfl

theorem functionMeanings_declare (kind : VarKind) (id : Ident) (e : Expr) :
    I.functionMeanings temps (Node.Build.declare kind id (some e)) =
      I.functionMeanings temps e := by
  simp [Node.Build.declare, Node.Build.declarePat, Node.ofOption]

@[simp] theorem exec_intoBlock (s : Stmt) :
    I.exec temps [] (Node.Build.intoBlock s) = I.exec temps [] s := by
  unfold Node.Build.intoBlock
  split
  · rw [exec_blockStmt]
  · simp [Node.Build.block, Node.ofList]

@[simp] theorem functionMeanings_intoBlock (s : Stmt) :
    I.functionMeanings temps (Node.Build.intoBlock s) = I.functionMeanings temps s := by
  unfold Node.Build.intoBlock
  split
  · rw [functionMeanings_blockStmt]
  · simp [Node.Build.block, Node.ofList]

@[simp] theorem functionMeanings_atLeast (least : Nat) (e : Expr) :
    I.functionMeanings temps (Node.atLeast least e) = I.functionMeanings temps e := by
  unfold Node.atLeast
  split
  · rw [functionMeanings_paren]
  · rfl

@[simp] theorem functionMeanings_buildExprStmt (e : Expr) :
    I.functionMeanings temps (Node.Build.exprStmt e) = I.functionMeanings temps e := by
  rw [Node.Build.exprStmt, functionMeanings_exprStmt]
  split
  · rw [functionMeanings_paren]
  · rfl

theorem functionMeanings_mapLoopBody {f : Stmt → Stmt}
    (hf : ∀ b, I.functionMeanings temps (f b) = I.functionMeanings temps b) {c : Cat} (n : Node c) :
    I.functionMeanings temps (n.mapLoopBody f) = I.functionMeanings temps n := by
  cases n with
  | whileStmt span t b =>
    rw [functionMeanings_two (n := .whileStmt span t b) rfl rfl, ← hf b]
    exact functionMeanings_two rfl rfl
  | doWhileStmt span t b =>
    rw [functionMeanings_two (n := .doWhileStmt span t b) rfl rfl, ← hf b]
    exact functionMeanings_two rfl rfl
  | forInStmt span h e b =>
    rw [functionMeanings_three (n := .forInStmt span h e b) rfl rfl, ← hf b]
    exact functionMeanings_three rfl rfl
  | forOfStmt span isAwait h e b =>
    rw [functionMeanings_three (n := .forOfStmt span isAwait h e b) rfl rfl, ← hf b]
    exact functionMeanings_three rfl rfl
  | forStmt span i t u b =>
    rw [functionMeanings_four (n := .forStmt span i t u b) rfl rfl, ← hf b]
    exact functionMeanings_four rfl rfl
  | _ => rfl

theorem codeOf_eq {c : Cat} {n : Node c} (h : c ≠ .block) :
    codeOf I temps n = (n.mapParts Node.skeleton,
      n.children.flatMap fun k => (codeOf I temps k.2).2) := by
  rw [codeOf, Node.skeleton_eq_mapParts h, meanings_eq_flatMap I temps h]
  rfl

theorem codeOf_pair {c d d' : Cat} {n : Node c} {k : Node d} {k' : Node d'} (h : c ≠ .block)
    (hparts : n.children = [⟨d, k⟩, ⟨d', k'⟩]) :
    codeOf I temps n =
      (n.mapParts Node.skeleton, (codeOf I temps k).2 ++ (codeOf I temps k').2) := by
  rw [codeOf_eq h, hparts]
  simp

theorem codeOf_none {c : Cat} : codeOf I temps (.none : Node (.opt c)) = (.none, []) :=
  codeOf_eq nofun

theorem codeOf_some {c : Cat} (a : Node c) :
    codeOf I temps (.some a) = (.some (codeOf I temps a).1, (codeOf I temps a).2) :=
  (codeOf_eq (c := .opt c) nofun).trans (Prod.ext rfl (List.flatMap_singleton ..))

theorem codeOf_declarator (span : Span) (definite : Bool) (p : Pat) (init : Node (.opt .expr)) :
    codeOf I temps (.declarator span definite p init) =
      (.declarator span definite (codeOf I temps p).1 (codeOf I temps init).1,
        (codeOf I temps p).2 ++ (codeOf I temps init).2) :=
  codeOf_pair nofun rfl

theorem codeOf_paren (span : Span) (e : Expr) : codeOf I temps (.paren span e) =
    (.paren span (codeOf I temps e).1, (codeOf I temps e).2) :=
  (codeOf_eq (c := .expr) nofun).trans (Prod.ext rfl (List.flatMap_singleton ..))

theorem codeOf_ref (id : Ident) : codeOf I temps (.ref id) = (.ref id, []) := codeOf_eq nofun

theorem codeOf_atom (span : Span) (a : Atom) : codeOf I temps (.atom span a) = (.atom span a, []) :=
  codeOf_eq nofun

theorem codeOf_binder (id : Ident) : codeOf I temps (.binder id) = (.binder id, []) :=
  codeOf_eq nofun

theorem codeOf_unary (span : Span) (op : UnaryOp) (e : Expr) : codeOf I temps (.unary span op e) =
    (.unary span op (codeOf I temps e).1, (codeOf I temps e).2) :=
  (codeOf_eq (c := .expr) nofun).trans (Prod.ext rfl (List.flatMap_singleton ..))

theorem codeOf_binary (span : Span) (op : BinaryOp) (l r : Expr) :
    codeOf I temps (.binary span op l r) =
      (.binary span op (codeOf I temps l).1 (codeOf I temps r).1,
        (codeOf I temps l).2 ++ (codeOf I temps r).2) :=
  codeOf_pair nofun rfl

theorem codeOf_assign (span : Span) (op : AssignOp) (p : Pat) (e : Expr) :
    codeOf I temps (.assign span op p e) =
      (.assign span op (codeOf I temps p).1 (codeOf I temps e).1,
        (codeOf I temps p).2 ++ (codeOf I temps e).2) :=
  codeOf_pair nofun rfl

section

variable (bs : List (Body U V))

theorem eval_paren (span : Span) (e : Expr) :
    I.eval temps (.paren span e) bs = I.eval temps e bs := by
  conv_lhs => unfold eval

theorem eval_bool (span : Span) (b : Bool) :
    I.eval temps (.atom span (.bool b)) bs = pure (I.bool b) := by
  conv_lhs => unfold eval

theorem eval_num (span : Span) (d : Decimal) (raw : Option String) :
    I.eval temps (.atom span (.num d raw)) bs = pure (I.num d) := by
  conv_lhs => unfold eval

theorem eval_not (span : Span) (e : Expr) : I.eval temps (.unary span .not e) bs =
    (fun v => I.bool (!I.truthy v)) <$> I.eval temps e bs := by
  conv_lhs => unfold eval
  rw [if_pos rfl, map_eq_pure_bind]

theorem eval_ref {id : Ident} (h : id.name ∈ temps) :
    I.eval temps (.ref id) bs = readTemp id.name := by
  conv_lhs => unfold eval
  exact if_pos h

theorem eval_and {l : Expr} (h : isTemporary temps l = true) (span : Span) (r : Expr) :
    I.eval temps (.binary span .and l r) bs = do
      let v ← I.eval temps l []
      if I.truthy v then I.eval temps r bs else return v := by
  conv_lhs => unfold eval
  rw [if_pos h]

theorem eval_strictEq {l : Expr} (h : isTemporary temps l = true) (span : Span) (r : Expr) :
    I.eval temps (.binary span .eqEqEq l r) bs = do
      let v ← I.eval temps l []
      return I.bool (I.strictEq v (← I.eval temps r bs)) := by
  conv_lhs => unfold eval
  rw [if_pos h]

theorem eval_atMost {l : Expr} (h : isTemporary temps l = true) (span : Span) (r : Expr) :
    I.eval temps (.binary span .ltEq l r) bs = do
      let v ← I.eval temps l []
      return I.bool (I.atMost v (← I.eval temps r bs)) := by
  conv_lhs => unfold eval
  rw [if_pos h]

theorem eval_assign {id : Ident} (h : id.name ∈ temps) (span : Span) (e : Expr) :
    I.eval temps (.assign span .assign (.binder id) e) bs = do
      let v ← I.eval temps e bs
      writeTemp id.name v
      return v := by
  conv_lhs => unfold eval
  rw [tempTarget?, if_pos h]

end

theorem value_paren (span : Span) (e : Expr) :
    I.value temps (.paren span e) = I.value temps e := by
  rw [value_eq, codeOf_paren, value_eq, eval_paren]

theorem value_atLeast (least : Nat) (e : Expr) :
    I.value temps (Node.atLeast least e) = I.value temps e := by
  unfold Node.atLeast
  split
  · exact value_paren _ e
  · rfl

theorem value_ref {id : Ident} (h : id.name ∈ temps) : I.value temps (.ref id) = readTemp id.name := by
  rw [value_eq, codeOf_ref, eval_ref _ h]

theorem value_bool (b : Bool) : I.value temps (Node.Build.bool b) = pure (I.bool b) := by
  rw [Node.Build.bool, value_eq, codeOf_atom, eval_bool]

theorem value_num (n : Nat) : I.value temps (Node.Build.num n) = pure (I.num (.ofNat n)) := by
  rw [Node.Build.num, value_eq, codeOf_atom, eval_num]

theorem value_not (e : Expr) :
    I.value temps (Node.Build.not e) = (fun v => I.bool (!I.truthy v)) <$> I.value temps e := by
  rw [Node.Build.not, Node.Build.unary, value_eq, codeOf_unary, eval_not, ← value_eq,
    value_atLeast]

theorem value_assignTo {id : Ident} (h : id.name ∈ temps) (e : Expr) :
    I.value temps (Node.Build.assignTo id e) = do
      let v ← I.value temps e
      writeTemp id.name v
      return v := by
  rw [Node.Build.assignTo, Node.Build.assign, value_eq, codeOf_assign, codeOf_binder,
    eval_assign _ h, List.nil_append, ← value_eq, value_atLeast]

/-- Goes on with a new value of a temporary. -/
def setting {A : Type} (x : String) (v : V) (k : Effect (State U V) A) : Effect (State U V) A :=
  fun s => k.run { s with temps := Function.update s.temps x v }

/-- Goes on with the value of a temporary. -/
def reading {A : Type} (x : String) (k : V → Effect (State U V) A) : Effect (State U V) A :=
  fun s => (k (s.temps x)).run s

theorem evaluating_writeTemp (x : String) (v : V) (k : Unit → Effect (State U V) (Completion V)) :
    evaluating (writeTemp x v) k = setting x v (k ()) := by
  funext s
  change StateT.run (evaluating (writeTemp x v) k) s = _
  rw [evaluating, StateT.run_bind]
  exact Part.bind_some _ _

theorem evaluating_readTemp (x : String) (k : V → Effect (State U V) (Completion V)) :
    evaluating (readTemp x) k = reading x k := by
  funext s
  change StateT.run (evaluating (readTemp x) k) s = _
  rw [evaluating, StateT.run_bind]
  exact Part.bind_some _ _

theorem isTemporary_ref {id : Ident} (h : id.name ∈ temps) :
    isTemporary temps (.ref id) = true := List.contains_iff_mem.mpr h

theorem evaluating_ref {id : Ident} (h : id.name ∈ temps)
    (k : V → Effect (State U V) (Completion V)) :
    evaluating (I.value temps (.ref id)) k = reading id.name k := by
  rw [value_ref h, evaluating_readTemp]

theorem evaluating_strictEq {id : Ident} (h : id.name ∈ temps) (e : Expr)
    (k : V → Effect (State U V) (Completion V)) :
    evaluating (I.value temps (Node.Build.binary .eqEqEq (.ref id) e)) k =
      reading id.name fun v => evaluating (I.value temps e) fun w => k (I.bool (I.strictEq v w)) := by
  have hid : Node.atLeast BinaryOp.eqEqEq.precedence (.ref id) = .ref id := rfl
  rw [Node.Build.binary, hid, value_eq, codeOf_binary, codeOf_ref,
    eval_strictEq _ (isTemporary_ref h), eval_ref _ h, List.nil_append, ← value_eq, value_atLeast,
    evaluating_bind, evaluating_readTemp]
  simp only [evaluating_bind, evaluating_pure]

theorem evaluating_atMost {id : Ident} (h : id.name ∈ temps) (n : Nat)
    (k : V → Effect (State U V) (Completion V)) :
    evaluating (I.value temps (Node.Build.binary .ltEq (.ref id) (Node.Build.num n))) k =
      reading id.name fun v => k (I.bool (I.atMost v (I.num (.ofNat n)))) := by
  have hid : Node.atLeast BinaryOp.ltEq.precedence (.ref id) = .ref id := rfl
  rw [Node.Build.binary, hid, value_eq, codeOf_binary, codeOf_ref,
    eval_atMost _ (isTemporary_ref h), eval_ref _ h, List.nil_append, ← value_eq, value_atLeast,
    value_num, evaluating_bind, evaluating_readTemp]
  simp only [evaluating_bind, evaluating_pure]

/-- A condition behind one that a temporary is not set. -/
theorem evaluating_unless {id : Ident} (h : id.name ∈ temps) (e : Expr)
    (k : V → Effect (State U V) (Completion V)) :
    evaluating (I.value temps (Node.Build.binary .and (Node.Build.not (.ref id)) e)) k =
      reading id.name fun v =>
        if I.truthy v then k (I.bool false) else evaluating (I.value temps e) k := by
  have htemp : isTemporary temps (.unary .none .not (.ref id)) = true := isTemporary_ref h
  have hnot : Node.atLeast BinaryOp.and.precedence (Node.Build.not (.ref id)) =
      .unary .none .not (.ref id) := rfl
  rw [Node.Build.binary, hnot, value_eq, codeOf_binary, codeOf_unary, codeOf_ref,
    eval_and _ htemp, eval_not, eval_ref _ h, List.nil_append, ← value_eq,
    value_atLeast, evaluating_bind, evaluating_map, evaluating_readTemp]
  congr 1
  funext v
  rw [I.truthy_bool]
  cases I.truthy v with
  | true => exact evaluating_pure ..
  | false => rfl

theorem seq_setting (x : String) (v : V) (k y : Effect (State U V) (Completion V)) :
    seq (setting x v k) y = setting x v (seq k y) := rfl

theorem seq_reading (x : String) (k : V → Effect (State U V) (Completion V))
    (y : Effect (State U V) (Completion V)) :
    seq (reading x k) y = reading x fun v => seq (k v) y := rfl

theorem exec_append (l l' : List Stmt) : I.exec temps [] (.ofList (l ++ l')) =
    seq (I.exec temps [] (.ofList l)) (I.exec temps [] (.ofList l')) := by
  induction l with
  | nil => rw [List.nil_append, Node.ofList, exec_nil, done_seq]
  | cons s l ih =>
    rw [List.cons_append, Node.ofList, Node.ofList, exec_cons, exec_cons, ih, seq_assoc]

theorem exec_ofList_toList (o : Option Stmt) :
    I.exec temps [] (.ofList o.toList) = I.exec temps [] (.ofOption o) := by
  cases o with
  | none => rw [Option.toList_none, Node.ofList, Node.ofOption, exec_nil, exec_none]
  | some s =>
    rw [Option.toList_some, Node.ofList, Node.ofList, Node.ofOption, exec_cons, exec_nil, seq_done,
      exec_some]

theorem exec_buildExprStmt {labels : List String} (e : Expr) :
    I.exec temps labels (Node.Build.exprStmt e) = evaluating (I.value temps e) fun _ => done := by
  rw [Node.Build.exprStmt, exec_exprStmt]
  split
  · rw [value_paren]
  · rfl

theorem exec_assignTo {labels : List String} {id : Ident} (h : id.name ∈ temps) (e : Expr) :
    I.exec temps labels (Node.Build.exprStmt (Node.Build.assignTo id e)) =
      evaluating (I.value temps e) fun v => setting id.name v done := by
  rw [exec_buildExprStmt, value_assignTo h, evaluating_bind]
  simp only [evaluating_bind, evaluating_writeTemp, evaluating_pure]

theorem exec_declarePat {labels : List String} (span : Span) (kind : VarKind) (p : Pat)
    (init : Option Expr) :
    I.exec temps labels (Node.Build.declarePat span kind p init) =
      evaluating (I.bindDeclarator temps kind
        ((codeOf I temps p).2 ++ (codeOf I temps (.ofOption init)).2)
        (.declarator span false (codeOf I temps p).1 (codeOf I temps (.ofOption init)).1))
        fun _ => done := by
  rw [Node.Build.declarePat, exec_declStmt, exec_declVar, exec_varDecl, declare_cons, declare_nil,
    seq_done, declare_declarator]
  have h : codeOf I temps (.declarator span false p (.ofOption init)) = _ :=
    codeOf_declarator span false p (.ofOption init)
  rw [codeOf, Prod.mk.injEq] at h
  rw [h.1, h.2]

theorem exec_declare_none {labels : List String} {id : Ident} (h : id.name ∈ temps)
    (kind : VarKind) :
    I.exec temps labels (Node.Build.declare kind id none) = setting id.name I.undefined done := by
  rw [Node.Build.declare, exec_declarePat, codeOf_binder, Node.ofOption, codeOf_none,
    bindDeclarator, bindName, if_pos h, evaluating_writeTemp]
  rfl

theorem exec_declare_some {labels : List String} {id : Ident} (h : id.name ∈ temps)
    (kind : VarKind) (e : Expr) :
    I.exec temps labels (Node.Build.declare kind id (some e)) =
      evaluating (I.value temps e) fun v => setting id.name v done := by
  rw [Node.Build.declare, exec_declarePat, codeOf_binder, Node.ofOption, codeOf_some,
    bindDeclarator, List.nil_append, ← value_eq, evaluating_bind]
  simp only [bindName, if_pos h, evaluating_writeTemp, Option.getD_some]

end Interp

end PlainJs

import PlainJs.Proofs.Switches.Selection

namespace PlainJs

open Effect Run Interp Comparison

namespace Node

variable {c : Cat} {n n' : Node c}

/-- Whether a tree declares something in the scope of the block around it, seen as statements of
clauses. -/
def isScoped : {c : Cat} → Node c → Bool
  | _, .cons a l => a.isScoped || l.isScoped
  | _, .clause _ _ body => body.isScoped
  | _, .declStmt d => d.isScoped
  | _, .declVar v => v.isScoped
  | _, .varDecl _ _ kind _ _ => kind != .var
  | _, .declClass .. | _, .declFunc .. | _, .declUsing .. => true
  | _, _ => false

theorem isScoped_of_parts (h : Parts (fun k k' => k.isScoped = k'.isScoped) n n') :
    n.isScoped = n'.isScoped := by
  cases n
  all_goals
    first
      | obtain rfl := h
        rfl
      | obtain ⟨a, ha, rfl⟩ := h
        first | rfl | exact ha
      | obtain ⟨a, ha, b, hb, rfl⟩ := h
        first | rfl | exact hb | exact congrArg₂ (· || ·) ha hb
      | obtain ⟨a, ha, b, hb, c, hc, h⟩ := h
        first
          | obtain rfl := h
          | obtain ⟨d, hd, rfl⟩ := h
        rfl

theorem isScoped_of_mem {l : Node (.list c)} (h : l.isScoped = false) {a : Node c}
    (ha : a ∈ l.toList) : a.isScoped = false := by
  rw [← ofList_toList l] at h
  generalize l.toList = as at h ha
  induction as with
  | nil => cases ha
  | cons b as ih =>
    obtain ⟨hb, hl⟩ := Bool.or_eq_false_iff.mp h
    rcases List.mem_cons.mp ha with rfl | ha
    · exact hb
    · exact ih hl ha

end Node

namespace Rewrites

variable {f : Stmt → Lower Stmt} {form : ∀ {c : Cat}, Node c → Bool} {base t : Context} {c : Cat}
  {k k' : Node c} {fr : Frame}

/-- Labels and jumps that weigh nothing weigh nothing in what a pass has made. -/
theorem of_made_eq_zero (hf : Rewrites t.diagnostics f form) {w : Weight t.diagnostics}
    (hw : w.Aims) (hform : ∀ {d : Cat} {n : Node d}, form n = true → n.isAim = false)
    (hjump : ∀ x ∈ t.names.reserved, w.jump x = 0) (h : Lower.Made f base t k k')
    (htracks : w.Tracks base.names.reserved fr k) (hzero : w.of fr k = 0) : w.of fr k' = 0 := by
  obtain ⟨u, hu, hend, rfl⟩ := h
  have hturn : w.Turns w form := ⟨⟨rfl, rfl, fun _ => rfl, fun hn => hw.own (hform hn)⟩, rfl, rfl,
    fun {_ _ n} hn => hw.own (by cases n <;> first | rfl | cases hn)⟩
  obtain ⟨hcalm, hbalance⟩ := hf.costs_bottomUp k hturn ⟨htracks, .inl ⟨hw.idle, hzero⟩⟩ u
    fun _ => hu.reserved
  have hjump' : ∀ x ∈ ((Lower.bottomUp f k).run u).2.names.reserved, w.jump x = 0 :=
    fun x hx => hjump x (hend.reserved hx)
  have hweight := hbalance ⟨hend.subset, fun x _ => hw.admits x⟩ hjump'
  have hheld := hw.idle hcalm.steps hjump'
  omega

end Rewrites

namespace Switches

variable {U V : Type} {I : Interp U V} {temps N : List String} {base t t₁ : Context} {c : Cat}
  {k k' : Node c}

/-- What the pass has made of a tree. -/
abbrev MadeOf (base t : Context) (k k' : Node c) : Prop := Lower.Made lowerSwitch base t k k'

theorem isAim_of_isSwitch {d : Cat} {n : Node d} (h : n.isSwitch = true) : n.isAim = false := by
  cases n <;> first | rfl | cases h

theorem labelNames_made (hbase : base.Grows t) (h : MadeOf base t k k')
    (hk : k.labelNames ⊆ base.names.reserved) : k'.labelNames ⊆ t.names.reserved := by
  have hzero : (Weight.labelsOutside t.diagnostics t.names.reserved).of .top k = 0 :=
    Weight.labelsOutside_eq_zero.mpr (List.Subset.trans hk hbase.reserved)
  exact Weight.labelsOutside_eq_zero.mp ((rewrites _).of_made_eq_zero (.labelsOutside _)
    isAim_of_isSwitch (fun x hx => if_pos hx) h False.elim hzero)

theorem breaksCaught_made {caught : Bool} (h : MadeOf base t k k')
    (hlabels : k.labelNames ⊆ base.names.reserved) (hk : k.breaksCaught caught = true) :
    k'.breaksCaught caught = true := by
  have hzero : (Weight.strays t.diagnostics).of ⟨[], caught⟩ k = 0 := Weight.strays_eq_zero.mpr hk
  exact Weight.strays_eq_zero.mp ((rewrites _).of_made_eq_zero .strays isAim_of_isSwitch
    (fun _ _ => rfl) h (fun _ => ⟨hlabels, List.nil_subset _, hzero⟩) hzero)

theorem isScoped_lowerSwitch (k : Stmt) (hk : k.isSwitch = true) :
    Lower.Yields (fun k' => k'.isScoped = false) (lowerSwitch k) := by
  cases k with
  | switchStmt span subject clauses =>
    simp only [lowerSwitch]
    split
    · exact .bind fun _ => .pure rfl
    · unfold lower
      split
      · exact .pure rfl
      · refine .bind fun label => ?_
        extract_lets parts hoisted cs wrap
        repeat' first | exact .bind fun _ => .pure rfl | split
  | _ => cases hk

/-- The pass keeps what a tree declares in the scope around it. -/
theorem isScoped_bottomUp (n : Node c) (s : Context) :
    n.isScoped = ((Lower.bottomUp lowerSwitch n).run s).1.isScoped := by
  induction n using Node.partsInduction generalizing s with
  | @step c n ih =>
    have hparts : Node.Parts (fun k k' => k.isScoped = k'.isScoped) n
        ((n.traverse fun k _ => Lower.bottomUp lowerSwitch k).run s).1 :=
      Node.parts_traverse lowering (fun _ hk s => ih hk s) s
    have hsame := Node.isScoped_of_parts hparts
    rw [Rewrites.run_bottomUp]
    by_cases hswitch : n.isSwitch = true
    · cases n with
      | switchStmt span subject clauses =>
        exact (isScoped_lowerSwitch _ (((rewrites []).form_parts hparts).symm.trans hswitch) _).symm
      | _ => cases hswitch
    · have hnot := ((rewrites []).form_parts hparts).symm.trans (Bool.eq_false_iff.mpr hswitch)
      simp only [(rewrites []).onStmt_eq_pure hnot]
      exact hsame

theorem isScoped_retarget (label : Ident) (n : Node c) :
    n.isScoped = (retarget label n).isScoped := by
  induction n using Node.partsInduction with
  | @step c n ih =>
    cases hleave : n.isLeave with
    | true =>
      cases n with
      | breakStmt span l =>
        cases l with
        | none =>
          rw [retarget_leave]
          rfl
        | some l => cases hleave
      | _ => cases hleave
    | false =>
      cases hshield : shieldsBreaks n with
      | true => rw [retarget_of_shields label hshield]
      | false =>
        rw [retarget_eq_mapParts label hleave hshield]
        refine Node.isScoped_of_parts ?_
        exact (Node.Parts.of_mapParts (retarget label) n).imp fun hk he => he ▸ ih hk

/-- What a clause does. -/
def meaning (I : Interp U V) (temps : List String) (c : Case) : Run.Case (State U V) V :=
  ⟨c.test.map (I.value temps), I.exec temps [] (.ofList c.body)⟩

theorem cases_eq : (clauses : Node (.list .clause)) →
    I.cases temps clauses = (clauses.toList.map Case.ofClause).map (meaning I temps)
  | .nil => by simp
  | .cons c rest => by
    cases c with
    | clause span test body => simp [cases_eq rest, Case.ofClause, meaning]

section

variable {matched disc index : Ident}

/-- A body that runs only if a condition on a temporary holds. -/
theorem exec_guardedBody {x : String} {e : Expr} {f : V → V} (body : List Stmt)
    (he : ∀ k : V → Effect (State U V) (Completion V), evaluating (I.value temps e) k =
      reading x fun v => k (f v)) :
    I.exec temps [] (.ofList ((block? body).map fun b => Node.Build.ifElse e b none).toList) =
      reading x fun v => if I.truthy (f v) then I.exec temps [] (.ofList body) else done := by
  rw [exec_ofList_toList, block?]
  split
  next hempty =>
    rw [List.isEmpty_iff.mp hempty, Option.map_none, Node.ofOption, Node.ofList, exec_none, exec_nil]
    simp only [ite_self]
    rfl
  next =>
    rw [Option.map_some, Node.ofOption, exec_some, Node.Build.ifElse, exec_ifStmt, he]
    simp only [Node.ofOption, exec_none, Node.Build.blockStmt, exec_blockStmt, exec_block]

theorem exec_flagCase (hmatched : matched.name ∈ temps) (hdisc : disc.name ∈ temps) (c : Case) :
    I.exec temps [] (.ofList (flagCase matched disc c)) =
      seq (entering I matched.name disc.name (meaning I temps c).test)
        (reading matched.name fun m => if I.truthy m then (meaning I temps c).body else done) := by
  obtain ⟨test, body⟩ := c
  rw [flagCase, Node.ofList, exec_cons, exec_guardedBody body (evaluating_ref hmatched)]
  refine congrArg (seq · _) ?_
  have henter : I.exec temps [] (Node.Build.exprStmt
      (Node.Build.assignTo matched (Node.Build.bool true))) =
      setting matched.name (I.bool true) done := by
    rw [exec_assignTo hmatched, value_bool, evaluating_pure]
  cases test with
  | none => exact henter
  | some e =>
    simp only [Node.Build.ifElse, exec_ifStmt, henter, Node.ofOption, exec_none,
      evaluating_unless hmatched, evaluating_strictEq hdisc, I.truthy_bool, meaning,
      Option.map_some, entering, Bool.false_eq_true, if_false]

/-- The clauses behind a flag. -/
theorem exec_flagCases (hmatched : matched.name ∈ temps) (hdisc : disc.name ∈ temps)
    (cases : List Case) :
    I.exec temps [] (.ofList (cases.flatMap (flagCase matched disc))) =
      flagRun I matched.name disc.name (cases.map (meaning I temps)) := by
  induction cases with
  | nil => exact exec_nil
  | cons c rest ih =>
    rw [List.flatMap_cons, exec_append, exec_flagCase hmatched hdisc, ih, seq_assoc]
    rfl

theorem exec_selectCase (hdisc : disc.name ∈ temps) (hindex : index.name ∈ temps)
    (cases : List Case) (i : Nat) :
    I.exec temps [] (.ofOption (selectCase disc index (cases.zipIdx i))) =
      choosing I disc.name index.name i (cases.map (meaning I temps)) := by
  induction cases generalizing i with
  | nil => exact exec_none
  | cons c rest ih =>
    obtain ⟨test, body⟩ := c
    cases test with
    | none => exact ih (i + 1)
    | some e =>
      rw [List.zipIdx_cons, selectCase, Node.ofOption, exec_some]
      simp only [Node.Build.ifElse, exec_ifStmt, ih (i + 1), evaluating_strictEq hdisc,
        I.truthy_bool, exec_assignTo hindex, value_num, evaluating_pure]
      rfl

/-- The clauses by their index. -/
theorem exec_indexBodies (hindex : index.name ∈ temps) (cases : List Case) (i : Nat) :
    I.exec temps [] (.ofList ((cases.zipIdx i).flatMap fun r => indexBody index r.1 r.2)) =
      indexRun I index.name i (cases.map (meaning I temps)) := by
  induction cases generalizing i with
  | nil => exact exec_nil
  | cons c rest ih =>
    rw [List.zipIdx_cons, List.flatMap_cons, exec_append, ih (i + 1), indexBody,
      exec_guardedBody c.body (evaluating_atMost hindex i)]
    simp only [I.truthy_bool]
    rfl

end

/-- A clause whose breaks aim at a label. -/
def Case.aimAt (label : Ident) (c : Case) : Case := ⟨c.test, c.body.map (retarget label)⟩

/-- No clause declares anything in the scope that the clauses share. -/
def Unscoped (cases : List Case) : Prop := ∀ c ∈ cases, ∀ k ∈ c.body, k.isScoped = false

theorem unscoped_of_isScoped {clauses : Node (.list .clause)} (h : clauses.isScoped = false) :
    Unscoped (clauses.toList.map Case.ofClause) := by
  intro c hc k hk
  obtain ⟨clause, hclause, rfl⟩ := List.mem_map.mp hc
  have hbody := Node.isScoped_of_mem h hclause
  cases clause with
  | clause span test body => exact Node.isScoped_of_mem hbody hk

theorem hoistStmt_of_isScoped {k : Stmt} (h : k.isScoped = false) :
    hoistStmt k = ([k], .none) ∧ stmtFault k = .none := by
  cases k with
  | declStmt d =>
    cases d with
    | declVar v =>
      cases v with
      | varDecl span ctxt kind declare decls =>
        obtain rfl : kind = .var := by simpa [Node.isScoped] using h
        exact ⟨rfl, rfl⟩
    | declClass | declFunc | declUsing => cases h
  | _ => exact ⟨rfl, rfl⟩

theorem hoistAll_of_isScoped {body : List Stmt} (h : ∀ k ∈ body, k.isScoped = false) :
    hoistAll hoistStmt body = (body, .none) := by
  induction body with
  | nil => rfl
  | cons k body ih =>
    obtain ⟨hk, hbody⟩ := List.forall_mem_cons.mp h
    have htail := ih hbody
    rw [hoistAll] at htail ⊢
    rw [List.foldr_cons, htail, (hoistStmt_of_isScoped hk).1]
    rfl

theorem fault_eq_none {cases : List Case} (h : Unscoped cases) : fault cases = none := by
  refine List.findSome?_eq_none_iff.mpr fun k hk => ?_
  obtain ⟨c, hc, hkc⟩ := List.mem_flatMap.mp hk
  exact (hoistStmt_of_isScoped (h c hc k hkc)).2

/-- How many clauses stand before `default`; all of them if there is none. -/
def defaultAt (cases : List Case) : Nat := cases.findIdx (·.test.isNone)

/-- The form that the place of `default` asks for. -/
def form (subject : Expr) (cases : List Case) : Lower (List Stmt × List Stmt) :=
  if defaultAt cases + 1 < cases.length then indexForm subject (defaultAt cases) cases
  else flagForm subject cases

theorem foldr_append_none (cases : List Case) (body : Case → List Stmt) :
    (cases.map fun c => (c.test, body c, Hoisted.none)).foldr (fun p h => p.2.2.append h)
      Hoisted.none = Hoisted.none := by
  induction cases with
  | nil => rfl
  | cons c rest ih =>
    rw [List.map_cons, List.foldr_cons, ih]
    rfl

/-- The steps that make a lowered `switch`. -/
theorem lower_eq_form {span : Span} {subject : Expr} {cases : List Case} (hne : cases ≠ []) :
    lower span subject cases = do
      let label ← Lower.freshLabel "S"
      let parts := cases.map fun c => (c.test, hoistAll hoistStmt (c.body.map (retarget label)))
      let hoisted := parts.foldr (fun p h => p.2.2.append h) Hoisted.none
      let r ← form subject (parts.map fun p => ⟨p.1, p.2.1⟩)
      return Node.Build.labeled label (Node.Build.blockStmt span (r.1 ++
        if hoisted.isEmpty then r.2
        else [.blockStmt (Node.Build.block (hoisted.stmts ++ r.2))])) := by
  have hempty : cases.isEmpty = false := by simpa using hne
  rw [lower, hempty]
  refine congrArg (Lower.freshLabel "S" >>= ·) (funext fun label => ?_)
  dsimp only
  generalize (cases.map fun c => (c.test, hoistAll hoistStmt (c.body.map (retarget label)))).foldr
    (fun p h => p.2.2.append h) Hoisted.none = hoisted
  generalize (cases.map fun c => (c.test, hoistAll hoistStmt (c.body.map (retarget label)))).map
    (fun p => (⟨p.1, p.2.1⟩ : Case)) = cs
  cases hdefault : cs.findIdx? (·.test.isNone) with
  | none =>
    have hlength : defaultAt cs = cs.length := List.findIdx?_eq_none_iff_findIdx_eq.mp hdefault
    rw [form, if_neg (by omega)]
  | some d =>
    obtain ⟨-, hd⟩ := List.findIdx?_eq_some_iff_findIdx_eq.mp hdefault
    rw [form, defaultAt, hd]
    dsimp only
    split <;> rfl

theorem lower_eq {span : Span} {subject : Expr} {cases : List Case} (hne : cases ≠ [])
    (h : Unscoped cases) : lower span subject cases = do
      let label ← Lower.freshLabel "S"
      let r ← form subject (cases.map (Case.aimAt label))
      return Node.Build.labeled label (Node.Build.blockStmt span (r.1 ++ r.2)) := by
  rw [lower_eq_form hne]
  refine congrArg (Lower.freshLabel "S" >>= ·) (funext fun label => ?_)
  have hparts : (cases.map fun c =>
      (c.test, hoistAll hoistStmt (c.body.map (retarget label)))) =
      cases.map fun c => (c.test, c.body.map (retarget label), Hoisted.none) := by
    refine List.map_congr_left fun c hc => ?_
    rw [hoistAll_of_isScoped]
    intro k' hk'
    obtain ⟨k, hk, rfl⟩ := List.mem_map.mp hk'
    rw [← isScoped_retarget]
    exact h c hc k hk
  have hcases : ((cases.map fun c => (c.test, c.body.map (retarget label), Hoisted.none)).map
      fun p => (⟨p.1, p.2.1⟩ : Case)) = cases.map (Case.aimAt label) := List.map_map
  have hflat : Hoisted.none.isEmpty = true := rfl
  simp only [hparts, foldr_append_none, hcases, hflat, if_true]

/-- The label that a `switch` gets. -/
def labelOf (t : Context) : Ident := .ofName (t.names.pick "S")

/-- The clauses of a `switch` when their breaks aim at its label. -/
def aims (t : Context) (clauses : Node (.list .clause)) : List Case :=
  (clauses.toList.map Case.ofClause).map (Case.aimAt (labelOf t))

theorem run_lower {span : Span} {subject : Expr} {clauses : Node (.list .clause)}
    (hne : clauses.toList.map Case.ofClause ≠ []) (h : clauses.isScoped = false) (t : Context) :
    (lower span subject (clauses.toList.map Case.ofClause)).run t =
      let r := (form subject (aims t clauses)).run (t.withFreshLabel "S")
      (Node.Build.labeled (labelOf t) (Node.Build.blockStmt span (r.1.1 ++ r.1.2)), r.2) := by
  rw [lower_eq hne (unscoped_of_isScoped h)]
  rfl

theorem run_flagForm (subject : Expr) (cases : List Case) (t : Context) :
    let matched := Ident.ofName (t.names.pick "matched")
    let disc := Ident.ofName ((t.withFresh "matched").names.pick "disc")
    (flagForm subject cases).run t =
      (([Node.Build.declare .let matched (some (Node.Build.bool false)),
        Node.Build.declare .let disc (some subject)], cases.flatMap (flagCase matched disc)),
        (t.withFresh "matched").withFresh "disc") := rfl

theorem run_indexForm (subject : Expr) (default : Nat) (cases : List Case) (t : Context) :
    let disc := Ident.ofName (t.names.pick "disc")
    let index := Ident.ofName ((t.withFresh "disc").names.pick "caseIndex")
    (indexForm subject default cases).run t =
      (([Node.Build.declare .let disc (some subject),
        Node.Build.declare .let index (some (Node.Build.num default))],
        (selectCase disc index cases.zipIdx).toList ++
          cases.zipIdx.flatMap fun r => indexBody index r.1 r.2),
        (t.withFresh "disc").withFresh "caseIndex") := rfl

section

variable {matched disc index : Ident} (label : Ident) (span : Span) (subject : Expr)
  (cases : List Case) (labels : List String)

theorem exec_flagForm (hmatched : matched.name ∈ temps) (hdisc : disc.name ∈ temps) :
    I.exec temps labels (Node.Build.labeled label (Node.Build.blockStmt span
      ([Node.Build.declare .let matched (some (Node.Build.bool false)),
        Node.Build.declare .let disc (some subject)] ++
          cases.flatMap (flagCase matched disc)))) =
      Run.labeled label.name (setting matched.name (I.bool false)
        (evaluating (I.value temps subject) fun v => setting disc.name v
          (flagRun I matched.name disc.name (cases.map (meaning I temps))))) := by
  rw [Node.Build.labeled, exec_labeledStmt, Node.Build.blockStmt, exec_blockStmt, exec_block,
    exec_append, exec_flagCases hmatched hdisc]
  simp only [Node.ofList, exec_cons, exec_nil, seq_done, exec_declare_some hmatched,
    exec_declare_some hdisc, value_bool, evaluating_pure, seq_setting, done_seq, seq_evaluating]

theorem exec_indexForm (hdisc : disc.name ∈ temps) (hindex : index.name ∈ temps) (default : Nat) :
    I.exec temps labels (Node.Build.labeled label (Node.Build.blockStmt span
      ([Node.Build.declare .let disc (some subject),
        Node.Build.declare .let index (some (Node.Build.num default))] ++
          ((selectCase disc index cases.zipIdx).toList ++
            cases.zipIdx.flatMap fun r => indexBody index r.1 r.2)))) =
      Run.labeled label.name (evaluating (I.value temps subject) fun v => setting disc.name v
        (setting index.name (I.num (.ofNat default))
          (seq (choosing I disc.name index.name 0 (cases.map (meaning I temps)))
            (indexRun I index.name 0 (cases.map (meaning I temps)))))) := by
  rw [Node.Build.labeled, exec_labeledStmt, Node.Build.blockStmt, exec_blockStmt, exec_block,
    exec_append, exec_append, exec_ofList_toList, exec_selectCase hdisc hindex,
    exec_indexBodies hindex]
  simp only [Node.ofList, exec_cons, exec_nil, seq_done, exec_declare_some hdisc,
    exec_declare_some hindex, value_num, evaluating_pure, seq_setting, done_seq, seq_evaluating]

end

/-- The functions in a clause. -/
def functions (I : Interp U V) (temps : List String) (c : Case) : List (Body U V) :=
  c.test.toList.flatMap (I.functionMeanings temps ·) ++ c.body.flatMap (I.functionMeanings temps ·)

theorem functionMeanings_clauses : (clauses : Node (.list .clause)) →
    I.functionMeanings temps clauses =
      (clauses.toList.map Case.ofClause).flatMap (functions I temps)
  | .nil => functionMeanings_nil
  | .cons c rest => by
    rw [functionMeanings_cons, functionMeanings_clauses rest, Node.toList_cons, List.map_cons,
      List.flatMap_cons]
    refine congrArg (· ++ _) ?_
    cases c with
    | clause span test body =>
      rw [functionMeanings_two (n := .clause span test body) rfl rfl, functions, Case.ofClause]
      conv_lhs => rw [← Node.ofList_toList body, functionMeanings_ofList]
      refine congrArg (· ++ _) ?_
      cases test with
      | none => exact functionMeanings_none
      | some e => simp [Node.toOption]

section

variable {matched disc index : Ident} (label : Ident) (span : Span)

theorem functionMeanings_labeledBlock (stmts : List Stmt) :
    I.functionMeanings temps (Node.Build.labeled label (Node.Build.blockStmt span stmts)) =
      stmts.flatMap (I.functionMeanings temps ·) := by
  simp [Node.Build.labeled, Node.Build.blockStmt]

theorem functions_guardedBody {e : Expr} (he : I.functionMeanings temps e = []) (body : List Stmt) :
    ((block? body).map fun b => Node.Build.ifElse e b none).toList.flatMap
      (I.functionMeanings temps ·) = body.flatMap (I.functionMeanings temps ·) := by
  rw [block?]
  split
  next hempty =>
    rw [List.isEmpty_iff.mp hempty]
    rfl
  next => simp [Node.Build.ifElse, he, Node.ofOption, Node.Build.blockStmt]

theorem functions_flagCase (matched disc : Ident) (c : Case) :
    (flagCase matched disc c).flatMap (I.functionMeanings temps ·) = functions I temps c := by
  have henter : I.functionMeanings temps (Node.Build.exprStmt
      (Node.Build.assignTo matched (Node.Build.bool true))) = [] := by
    simp [Node.Build.assignTo, Node.Build.assign, Node.Build.bool]
  obtain ⟨test, body⟩ := c
  rw [flagCase, List.flatMap_cons, functions_guardedBody (functionMeanings_ref _), functions]
  refine congrArg (· ++ _) ?_
  cases test with
  | none => exact henter
  | some e =>
    simp [Node.Build.ifElse, henter, Node.ofOption, Node.Build.binary, Node.Build.not,
      Node.Build.unary]

theorem functions_flagForm (matched disc : Ident) (subject : Expr) (cases : List Case) :
    I.functionMeanings temps (Node.Build.labeled label (Node.Build.blockStmt span
      ([Node.Build.declare .let matched (some (Node.Build.bool false)),
        Node.Build.declare .let disc (some subject)] ++
          cases.flatMap (flagCase matched disc)))) =
      I.functionMeanings temps subject ++ cases.flatMap (functions I temps) := by
  rw [functionMeanings_labeledBlock, List.flatMap_append, List.flatMap_assoc]
  simp only [functions_flagCase, List.flatMap_cons, List.flatMap_nil, functionMeanings_declare,
    Node.Build.bool, functionMeanings_atom, List.nil_append, List.append_nil]

theorem functions_selectCase (disc index : Ident) (l : List (Case × Nat)) :
    (selectCase disc index l).toList.flatMap (I.functionMeanings temps ·) =
      l.flatMap fun r => r.1.test.toList.flatMap (I.functionMeanings temps ·) := by
  induction l with
  | nil => rfl
  | cons r l ih =>
    obtain ⟨⟨test, body⟩, i⟩ := r
    rw [List.flatMap_cons, ← ih]
    cases test with
    | none => rfl
    | some e =>
      rw [selectCase]
      cases selectCase disc index l <;>
        simp [Node.Build.ifElse, Node.ofOption, Node.Build.binary, Node.Build.assignTo,
          Node.Build.assign, Node.Build.num]

theorem functions_indexForm (disc index : Ident) (subject : Expr) (default : Nat)
    (cases : List Case) :
    (I.functionMeanings temps (Node.Build.labeled label (Node.Build.blockStmt span
      ([Node.Build.declare .let disc (some subject),
        Node.Build.declare .let index (some (Node.Build.num default))] ++
          ((selectCase disc index cases.zipIdx).toList ++
            cases.zipIdx.flatMap fun r => indexBody index r.1 r.2))))).Perm
      (I.functionMeanings temps subject ++ cases.flatMap (functions I temps)) := by
  have hbody (r : Case × Nat) : (indexBody index r.1 r.2).flatMap (I.functionMeanings temps ·) =
      r.1.body.flatMap (I.functionMeanings temps ·) := by
    refine functions_guardedBody ?_ _
    simp [Node.Build.binary, Node.Build.num]
  have hfst (f : Case → List (Body U V)) :
      (cases.zipIdx.flatMap fun r => f r.1) = cases.flatMap f := by
    rw [← List.zipIdx_map_fst 0 cases, List.flatMap_map, List.zipIdx_map_fst]
  rw [functionMeanings_labeledBlock, List.flatMap_append, List.flatMap_append, List.flatMap_assoc,
    functions_selectCase]
  simp only [hbody, List.flatMap_cons, List.flatMap_nil, functionMeanings_declare, Node.Build.num,
    functionMeanings_atom, List.append_nil]
  rw [hfst fun c => c.test.toList.flatMap (I.functionMeanings temps ·),
    hfst fun c => c.body.flatMap (I.functionMeanings temps ·)]
  exact (List.flatMap_append_perm cases _ _).append_left _

end

theorem labelNames_of_mem {l : Node (.list c)} {N : List String} (h : l.labelNames ⊆ N) {a : Node c}
    (ha : a ∈ l.toList) : a.labelNames ⊆ N := by
  rw [← Node.ofList_toList l] at h
  generalize l.toList = as at h ha
  induction as with
  | nil => cases ha
  | cons b as ih =>
    rcases List.mem_cons.mp ha with rfl | ha
    · exact Node.labelNames_part h (.head _)
    · exact ih (Node.labelNames_part h (.tail _ (.head _))) ha

theorem breaksCaught_of_mem {l : Node (.list c)} {caught : Bool} (h : l.breaksCaught caught = true)
    {a : Node c} (ha : a ∈ l.toList) : a.breaksCaught caught = true := by
  rw [← Node.ofList_toList l] at h
  generalize l.toList = as at h ha
  induction as with
  | nil => cases ha
  | cons b as ih =>
    obtain ⟨-, hparts⟩ := Node.breaksCaught_iff.mp h
    rcases List.mem_cons.mp ha with rfl | ha
    · exact hparts (.head _)
    · exact ih (hparts (.tail _ (.head _))) ha

/-- The bodies of clauses run alike when their breaks aim at a label that does not occur in them. -/
theorem kin_aimAt (label : Ident) {clauses : Node (.list .clause)} {R : List String}
    (hlabels : clauses.labelNames ⊆ R) (hlabel : label.name ∉ R)
    (hcaught : clauses.breaksCaught true = true) {c : Case}
    (hc : c ∈ clauses.toList.map Case.ofClause) :
    (moving label.name).Kin I temps (fun _ => True) (.ofList c.body)
      (.ofList (c.aimAt label).body) := by
  obtain ⟨clause, hclause, rfl⟩ := List.mem_map.mp hc
  have hnames := labelNames_of_mem hlabels hclause
  have hbreaks := breaksCaught_of_mem hcaught hclause
  cases clause with
  | clause span test body =>
    have hbody : ⟨_, body⟩ ∈ (Node.clause span test body).children := .tail _ (.head _)
    have hkin : (moving label.name).Kin I temps (fun _ => True) body (retarget label body) :=
      kin_retarget label body (fun hmem => hlabel (Node.labelNames_part hnames hbody hmem))
        ((Node.breaksCaught_iff.mp hbreaks).2 hbody)
    rw [Case.aimAt, Case.ofClause, ← toList_retarget, Node.ofList_toList, Node.ofList_toList]
    exact hkin

/-- Lowered clauses, and then clauses whose breaks aim at a label. -/
theorem clauses_of_cases {M : List String} {label : String}
    {cs cs' cs'' : List (Run.Case (State U V) V)}
    (h : List.Forall₂ (fun c c' => ∀ given, CaseAlike (Near M given)
      (fun c c' => c = c' ∧ c.Within N true) c c') cs cs')
    (h' : List.Forall₂ (CaseAlike Eq fun c c' => c' = c.aim label) cs' cs'') :
    Clauses M N label cs cs'' := by
  induction h generalizing cs'' with
  | nil =>
    cases h'
    exact .nil
  | @cons c c' rest rest' hc _ ih =>
    obtain ⟨c'', rest'', hc', hrest, rfl⟩ := List.forall₂_cons_left_iff.mp h'
    refine .cons (fun given => ⟨?_, ?_⟩) (ih hrest)
    · obtain ⟨test, body⟩ := c
      obtain ⟨test', body'⟩ := c'
      obtain ⟨test'', body''⟩ := c''
      obtain ⟨htest | _, -⟩ := hc given
      · obtain ⟨htest', -⟩ := hc'
        cases htest' with
        | some htest' =>
          refine .some ((htest.trans_exact htest').mono ?_)
          rintro r _ ⟨_, rfl, rfl⟩
          rfl
      · obtain ⟨htest', -⟩ := hc'
        cases htest'
        exact .none
    · refine ((hc given).2.trans_exact hc'.2).mono ?_
      rintro c _ ⟨_, ⟨rfl, hwithin⟩, rfl⟩
      exact ⟨hwithin, rfl⟩

/-- What the pass has made of a `switch` whose parts it has lowered. -/
structure Lowered (I : Interp U V) (temps N : List String) (base t : Context) (subject subject' : Expr)
    (clauses clauses' : Node (.list .clause)) : Prop where
  clear : subject.Clear temps
  subject : (keeping (base.newNames t) N true).Kin I temps (fun _ => True) subject subject'
  clauses : (keeping (base.newNames t) N true).Kin I temps (fun _ => True) clauses clauses'
  isScoped : clauses'.isScoped = false
  labels : clauses'.labelNames ⊆ t.names.reserved
  caught : clauses'.breaksCaught true = true

namespace Lowered

variable {subject subject' : Expr} {clauses clauses' : Node (.list .clause)}
  (h : Lowered I temps N base t subject subject' clauses clauses')
include h

theorem keep_subject (given : String → V) :
    (I.value temps subject).Keep (Near (base.newNames t) given) (I.value temps subject') :=
  keep_value (K := keeping (base.newNames t) N true) (.inr h.clear) given (h.subject.code trivial)

/-- The clauses, when their breaks aim at the new label. -/
theorem aimed : Clauses (base.newNames t) N (labelOf t).name (I.cases temps clauses)
    ((aims t clauses').map (meaning I temps)) := by
  have : Inhabited (String → V) := ⟨fun _ => I.undefined⟩
  have hcases := forall₂_forall (String → V) h.clauses.cases
  rw [cases_eq clauses'] at hcases
  refine clauses_of_cases hcases ?_
  rw [aims]
  generalize hall : clauses'.toList.map Case.ofClause = all
  rw [List.forall₂_map_left_iff, List.map_map, List.forall₂_map_right_iff, List.forall₂_same]
  refine fun c hc => ⟨?_, ?_⟩
  · change Option.Rel _ (c.test.map _) (c.test.map _)
    cases c.test with
    | none => exact .none
    | some e => exact .some (Sim.refl _)
  · exact (kin_aimAt (labelOf t) h.labels (t.names.pick_notMem "S") h.caught
      (hall ▸ hc)).exec () [] trivial

theorem functions_aims {span : Span} :
    (I.functionMeanings temps subject' ++ (aims t clauses').flatMap (functions I temps)).Subperm
      (I.functionMeanings temps (.switchStmt span subject clauses)) := by
  have haims : (aims t clauses').flatMap (functions I temps) = I.functionMeanings temps clauses' := by
    rw [functionMeanings_clauses, aims, List.flatMap_map]
    refine List.flatMap_congr fun c hc => ?_
    have hnested : I.functionMeanings temps (.ofList c.body) = _ :=
      (kin_aimAt (labelOf t) h.labels (t.names.pick_notMem "S") h.caught hc).nested
    rw [functionMeanings_ofList, functionMeanings_ofList] at hnested
    exact congrArg (_ ++ ·) hnested.symm
  rw [haims, functionMeanings_two (n := .switchStmt span subject clauses) rfl rfl]
  exact h.subject.nested.append h.clauses.nested

theorem defaultIdx_eq : defaultIdx (I.cases temps clauses) = defaultAt (aims t clauses') := by
  rw [defaultIdx_congr (h.aimed.imp fun _ _ hc => hc fun _ => I.undefined), defaultIdx,
    List.findIdx_map]
  congr 1
  funext c
  exact Option.isNone_map

theorem kin_empty {span : Span} (hempty : clauses'.toList.map Case.ofClause = []) :
    (keeping (base.newNames t) N true).Kin I temps (fun _ => True)
      (.switchStmt span subject clauses) (Node.Build.exprStmt subject') := by
  have hcases : I.cases temps clauses = [] := by
    have hforall := h.clauses.cases fun _ => I.undefined
    rw [cases_eq clauses', hempty] at hforall
    exact List.forall₂_nil_right_iff.mp hforall
  refine .of_exec (fun given labels _ => ?_) ?_
  · rw [exec_switchStmt, exec_buildExprStmt, hcases]
    refine sim_evaluating (h.keep_subject given) (fun _ => ⟨rfl, trivial⟩) fun v => ?_
    rw [switchOn, evaluating_select_nil, List.drop_nil, fallThrough, done, map_pure]
    exact .pure ⟨rfl, trivial⟩
  · change List.Subperm _ _
    rw [functionMeanings_two (n := .switchStmt span subject clauses) rfl rfl,
      functionMeanings_buildExprStmt]
    exact h.subject.nested.trans (List.sublist_append_left _ _).subperm

theorem kin_flagForm {span : Span} (hbase : base.Grows t) (hl : (labelOf t).name ∉ N)
    (hlast : ¬defaultAt (aims t clauses') + 1 < (aims t clauses').length)
    {r : (List Stmt × List Stmt) × Context}
    (hr : (flagForm subject' (aims t clauses')).run (t.withFreshLabel "S") = r)
    (htemps : base.newNames r.2 ⊆ temps) :
    (keeping (base.newNames r.2) N true).Kin I temps (fun _ => True)
      (.switchStmt span subject clauses)
      (Node.Build.labeled (labelOf t) (Node.Build.blockStmt span (r.1.1 ++ r.1.2))) := by
  rw [run_flagForm] at hr
  subst hr
  have hpair := Context.newPair hbase (t.grows_withFreshLabel "S") "matched" "disc"
  have hlength := h.aimed.length_eq
  rw [List.length_map] at hlength
  have hdefault := h.defaultIdx_eq
  refine .of_exec (fun given labels _ => ?_) ?_
  · rw [exec_switchStmt, exec_flagForm _ _ _ _ _ (htemps hpair.mem_fst) (htemps hpair.mem_snd)]
    exact sim_of_related (related_flagForm hpair hl h.keep_subject h.aimed (by omega)) given
  · change List.Subperm _ _
    rw [functions_flagForm]
    exact h.functions_aims

theorem kin_indexForm {span : Span} (hbase : base.Grows t) (hl : (labelOf t).name ∉ N)
    {r : (List Stmt × List Stmt) × Context}
    (hr : (indexForm subject' (defaultAt (aims t clauses')) (aims t clauses')).run
      (t.withFreshLabel "S") = r) (htemps : base.newNames r.2 ⊆ temps) :
    (keeping (base.newNames r.2) N true).Kin I temps (fun _ => True)
      (.switchStmt span subject clauses)
      (Node.Build.labeled (labelOf t) (Node.Build.blockStmt span (r.1.1 ++ r.1.2))) := by
  rw [run_indexForm] at hr
  subst hr
  have hpair := Context.newPair hbase (t.grows_withFreshLabel "S") "disc" "caseIndex"
  refine .of_exec (fun given labels _ => ?_) ?_
  · rw [exec_switchStmt, exec_indexForm _ _ _ _ _ (htemps hpair.mem_fst) (htemps hpair.mem_snd),
      ← h.defaultIdx_eq]
    exact sim_of_related (related_indexForm hpair hl h.keep_subject h.aimed) given
  · exact (functions_indexForm (labelOf t) span _ _ subject' _ _).subperm.trans h.functions_aims

theorem kin_lower {span : Span} (hbase : base.Grows t) (hN : N ⊆ base.names.reserved)
    {r : Stmt × Context} (hr : (lower span subject' (clauses'.toList.map Case.ofClause)).run t = r)
    (htemps : base.newNames r.2 ⊆ temps) :
    (keeping (base.newNames r.2) N true).Kin I temps (fun _ => True)
      (.switchStmt span subject clauses) r.1 := by
  by_cases hempty : clauses'.toList.map Case.ofClause = []
  · rw [hempty] at hr
    subst hr
    exact h.kin_empty hempty
  · have hl : (labelOf t).name ∉ N :=
      fun hmem => t.names.pick_notMem "S" (hbase.reserved (hN hmem))
    rw [run_lower hempty h.isScoped, form] at hr
    by_cases hlt : defaultAt (aims t clauses') + 1 < (aims t clauses').length
    · rw [if_pos hlt] at hr
      subst hr
      exact h.kin_indexForm hbase hl rfl htemps
    · rw [if_neg hlt] at hr
      subst hr
      exact h.kin_flagForm hbase hl hlt rfl htemps

end Lowered

/-- The breaks in a function find something to leave there. -/
def keepsBreaks (n : Node c) : Bool :=
  !n.isFunctionLike || n.children.all fun k => k.2.breaksCaught false

/-- The clauses of a `switch` declare nothing in the scope that they share. -/
def hasPlainClauses : {c : Cat} → Node c → Bool
  | _, .switchStmt _ _ clauses => !clauses.isScoped
  | _, _ => true

/-- What the pass needs to know of every node. -/
def isLowerable (n : Node c) : Bool := keepsBreaks n && hasPlainClauses n

theorem all_isLowerable {n : Node c} {caught : Bool} (hcaught : n.breaksCaught caught = true)
    (hplain : n.all hasPlainClauses = true) : n.all isLowerable = true := by
  induction n using Node.partsInduction generalizing caught with
  | @step c n ih =>
    obtain ⟨-, hparts⟩ := Node.breaksCaught_iff.mp hcaught
    obtain ⟨hown, hplain'⟩ := Node.all_iff.mp hplain
    refine Node.all_iff.mpr ⟨Bool.and_eq_true_iff.mpr ⟨?_, hown⟩, fun hk =>
      ih hk (hparts hk) (hplain' hk)⟩
    cases hfun : n.isFunctionLike with
    | false => rw [keepsBreaks, hfun]; rfl
    | true =>
      have hcatch : n.catchesBreaks caught = false := by
        cases n <;> first | rfl | cases hfun
      rw [keepsBreaks, hfun, Bool.not_true, Bool.false_or, List.all_eq_true]
      exact fun k hk => hcatch ▸ hparts hk

theorem breaksCaught_of_isLowerable {n : Node c} (h : n.all isLowerable = true) :
    n.breaksCaught true = true := by
  induction n using Node.partsInduction with
  | @step c n ih =>
    obtain ⟨hown, hparts⟩ := Node.all_iff.mp h
    refine Node.breaksCaught_iff.mpr ⟨fun _ => rfl, fun {d k} hk => ?_⟩
    cases hcatch : n.catchesBreaks true with
    | true => exact ih hk (hparts hk)
    | false =>
      obtain ⟨-, hfun⟩ := Bool.or_eq_false_iff.mp hcatch
      rw [Bool.and_true, Bool.not_eq_false'] at hfun
      have hkeeps := (Bool.and_eq_true_iff.mp hown).1
      rw [keepsBreaks, hfun, Bool.not_true, Bool.false_or, List.all_eq_true] at hkeeps
      exact hkeeps ⟨d, k⟩ hk

/-- What this pass has made of a tree. -/
abbrev Done (I : Interp U V) (temps N : List String) (base t : Context) {c : Cat}
    (n n' : Node c) : Prop :=
  LoweredTo I temps N true base (fun _ => True) isLowerable t n n'

theorem done_lowerSwitch (hN : N ⊆ base.names.reserved) {k k' : Stmt} (hbase : base.Grows t)
    (h : Node.Parts (fun k k' => Node.Deep (Done I temps N base t) k k' ∧ MadeOf base t k k') k k') :
    t.Grows ((lowerSwitch k').run t).2 ∧
      Done I temps N base ((lowerSwitch k').run t).2 k ((lowerSwitch k').run t).1 := by
  refine ⟨((rewrites []).calm k' t).grows, ?_⟩
  by_cases hswitch : k.isSwitch = true
  · cases k with
    | switchStmt span subject clauses =>
      obtain ⟨subject', ⟨hsubject, -⟩, clauses', ⟨hclauses, hmade⟩, rfl⟩ := h
      have hgrows := ((rewrites []).calm (.switchStmt span subject' clauses') t).grows
      intro _ htemps hclear hlabels hfine _
      have hnew : base.newNames t ⊆ base.newNames _ := Context.newNames_subset hgrows
      have htemps' := List.Subset.trans hnew htemps
      have hpart : ⟨_, clauses⟩ ∈ (Node.switchStmt span subject clauses).children :=
        .tail _ (.head _)
      have hnames := Node.labelNames_part hlabels hpart
      have hknown := List.Subset.trans hnames hN
      have hlow : Lowered I temps N base t subject subject' clauses clauses' := {
        clear := hclear.part (.head _)
        subject := hsubject.rel trivial htemps' (hclear.part (.head _))
          (Node.labelNames_part hlabels (.head _)) (Node.all_part hfine (.head _)) (.inl rfl)
        clauses := hclauses.rel trivial htemps' (hclear.part hpart) hnames
          (Node.all_part hfine hpart) (.inl rfl)
        isScoped := by
          obtain ⟨u, -, -, rfl⟩ := hmade
          rw [← isScoped_bottomUp]
          simpa [hasPlainClauses] using (Bool.and_eq_true_iff.mp (Node.all_iff.mp hfine).1).2
        labels := labelNames_made hbase hmade hknown
        caught := breaksCaught_made hmade hknown
          (breaksCaught_of_isLowerable (Node.all_part hfine hpart)) }
      have hrun : lowerSwitch (.switchStmt span subject' clauses') =
          lower span subject' (clauses'.toList.map Case.ofClause) := by
        simp only [lowerSwitch, fault_eq_none (unscoped_of_isScoped hlow.isScoped)]
      rw [hrun] at htemps ⊢
      exact hlow.kin_lower hbase hN rfl htemps
    | _ => cases hswitch
  · have hnot : k'.isSwitch = false :=
      ((rewrites []).form_parts h).symm.trans (Bool.eq_false_iff.mpr hswitch)
    rw [(rewrites []).other k' hnot]
    exact .of_parts (h.imp fun _ hk => hk.1.rel)

end Switches

open Switches in
/-- Lowering every `switch` of a program keeps what the program and its functions do: the subject is
evaluated once, the tests in their order up to the first that gives the same value, and the bodies
run on from the clause that is entered. The supply of names has to know the names of the program. -/
theorem lowerSwitches_preserves (p : Program) (cx : Context)
    (hknown : p.names ⊆ cx.names.reserved) (hcaught : p.breaksCaught false = true)
    (hplain : p.all hasPlainClauses = true) {U V : Type} (I : Interp U V) :
    let r := (lowerSwitches p).run cx
    SameRuns I (cx.newNames r.2) p r.1 := by
  have hlabels := List.Subset.trans (Node.labelNames_subset_names p) hknown
  obtain ⟨-, hlow : Done I (cx.newNames ((lowerSwitches p).run cx).2) p.labelNames cx _ p _⟩ :=
    loweredTo_of_made (fun _ _ => trivial) (done_lowerSwitch hlabels) p
  exact (hlow trivial (List.Subset.refl _) (clear_newNames hknown _) (List.Subset.refl _)
    (all_isLowerable hcaught hplain) (.inl rfl)).sameRuns

/-- `while (a) { switch (x) { case 1: f(); default: g(); break; case h(): switch (y) { case 2: } } }` -/
def selectingRounds : Program :=
  let call (f : String) : Expr := Node.Build.call (Node.Build.name f) []
  let clause (test : Option Expr) (body : List Stmt) : Clause :=
    .clause .none (.ofOption test) (.ofList body)
  .scriptProgram .none none (.ofList [
    .whileStmt .none (Node.Build.name "a") (Node.Build.blockStmt .none [
      .switchStmt .none (Node.Build.name "x") (.ofList [
        clause (some (Node.Build.num 1)) [Node.Build.exprStmt (call "f")],
        clause none [Node.Build.exprStmt (call "g"), Node.Build.breakTo none],
        clause (some (call "h")) [
          .switchStmt .none (Node.Build.name "y") (.ofList [
            clause (some (Node.Build.num 2)) []])]])])])

theorem lowerSwitches_preserves_selectingRounds :
    let cx := Context.start .default selectingRounds
    let r := (lowerSwitches selectingRounds).run cx
    selectingRounds.names ⊆ cx.names.reserved ∧ selectingRounds.breaksCaught false = true ∧
      selectingRounds.all Switches.hasPlainClauses = true ∧
        ∀ {U V : Type} (I : Interp U V), SameRuns I (cx.newNames r.2) selectingRounds r.1 := by
  have hknown : selectingRounds.names ⊆
      (Context.start .default selectingRounds).names.reserved := by decide +kernel
  have hcaught : selectingRounds.breaksCaught false = true := by decide +kernel
  have hplain : selectingRounds.all Switches.hasPlainClauses = true := by decide +kernel
  exact ⟨hknown, hcaught, hplain, fun I => lowerSwitches_preserves _ _ hknown hcaught hplain I⟩

end PlainJs

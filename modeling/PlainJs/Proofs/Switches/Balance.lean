import PlainJs.Lowering.Switches
import PlainJs.Proofs.Rewriting

namespace PlainJs

open Node Build

namespace Switches

variable {known : List Diagnostic} {w : Weight known} {fr fr' : Frame} {c : Cat}

theorem isLeave_of_shields {n : Node c} (hshield : shieldsBreaks n = true) : n.isLeave = false := by
  cases n <;> first | rfl | cases hshield

/-- A node that is no unlabelled break itself. -/
theorem retarget_eq (label : Ident) {n : Node c} (hleave : n.isLeave = false) :
    retarget label n = if shieldsBreaks n then n else n.mapParts (retarget label) := by
  rw [retarget.eq_2]
  · rfl
  · rintro span rfl hn
    cases hn
    cases hleave

theorem retarget_eq_mapParts (label : Ident) {n : Node c} (hleave : n.isLeave = false)
    (hshield : shieldsBreaks n = false) : retarget label n = n.mapParts (retarget label) := by
  rw [retarget_eq label hleave, hshield]
  rfl

theorem retarget_of_shields (label : Ident) {n : Node c} (hshield : shieldsBreaks n = true) :
    retarget label n = n := by
  rw [retarget_eq label (isLeave_of_shields hshield), if_pos hshield]

theorem retarget_leave (label : Ident) (span : Span) :
    retarget label (.breakStmt span none) = .breakStmt span (some label) := retarget.eq_1 ..

/-- Retargeting keeps what a tree declares on its surface. -/
theorem kept_retarget (label : Ident) (n : Node c) : Kept n (retarget label n) := by
  induction n using partsInduction with
  | @step c n ih =>
    cases hleave : n.isLeave with
    | true =>
      cases n with
      | breakStmt span l =>
        cases l with
        | none =>
          rw [retarget_leave]
          exact ⟨.of_isMute rfl _ _, rfl⟩
        | some l => cases hleave
      | _ => cases hleave
    | false =>
      cases hshield : shieldsBreaks n with
      | true =>
        rw [retarget_of_shields label hshield]
        exact ⟨.refl _, rfl⟩
      | false =>
        rw [retarget_eq_mapParts label hleave hshield]
        exact .of_parts ((Parts.of_mapParts (retarget label) n).imp fun hk he => he ▸ ih hk)

theorem shields_of_isLoop {n : Node c} (h : n.isLoop = true) : shieldsBreaks n = true := by
  cases n <;> first | rfl | cases h

/-- Where breaks without a label cannot stand, none is retargeted. -/
theorem retarget_eq_self (label : Ident) (n : Node c) (hfr : fr.caught = false)
    (h : (Weight.strays known).of fr n = 0) : retarget label n = n := by
  induction n using partsInduction generalizing fr with
  | @step c n ih =>
    obtain ⟨hown, hparts⟩ := Weight.of_eq_zero.mp h
    cases hleave : n.isLeave with
    | true => simp [Weight.strays, hleave, hfr] at hown
    | false =>
      cases hshield : shieldsBreaks n with
      | true => exact retarget_of_shields label hshield
      | false =>
        rw [retarget_eq_mapParts label hleave hshield]
        have hcaught : (fr.enter n).caught = false := by
          unfold Frame.enter
          split
          · exact hfr
          · cases hshield
          · split
            next hloop => exact Bool.noConfusion (hshield.symm.trans (shields_of_isLoop hloop))
            next => split <;> first | rfl | exact hfr
        exact mapParts_eq_self fun hk => ih hk hcaught (hparts _ hk)

/-- What stands around a node that stops no breaks stands around its parts, functions apart. -/
theorem enter_inside {n : Node c} (hshield : shieldsBreaks n = false)
    (hfun : n.isFunctionLike = false) :
    fr.labels ⊆ (fr.enter n).labels ∧ (fr.enter n).caught = fr.caught := by
  unfold Frame.enter
  split
  · exact ⟨List.subset_cons_self _ _, rfl⟩
  · cases hshield
  · split
    next hloop => exact Bool.noConfusion (hshield.symm.trans (shields_of_isLoop hloop))
    next =>
      rw [if_neg (by simp [hfun])]
      exact ⟨List.Subset.refl _, rfl⟩

/-- What the breaks of a tree that is moved behind a label need. -/
structure Leaves (w : Weight known) (label : String) (fr fr' : Frame) (n : Node c) : Prop where
  aim : label ∈ fr.labels
  labels : ∀ x ∈ n.labelNames, x ∈ fr.labels ↔ x ∈ fr'.labels
  caught : fr'.caught = true
  strays : (Weight.strays known).of fr' n = 0

/-- A tree that stops breaks weighs the same where they find something to leave and where they do
not. -/
theorem of_shields {n : Node c} (hshield : shieldsBreaks n = true)
    (h : w.sees → ∀ x ∈ n.labelNames, x ∈ fr.labels ↔ x ∈ fr'.labels) :
    w.of fr n = w.of fr' n := by
  have hleave : n.isLeave = false := isLeave_of_shields hshield
  by_cases hcls : c = .cls
  · subst hcls
    exact Weight.of_eq_of_noStmts n rfl
  · have hown : w.own fr n = w.own fr' n := w.own_frame fun hs =>
      ⟨fun x hx => h hs x (mem_labelNames.mpr (.inl hx)), fun hn =>
        Bool.noConfusion (hleave.symm.trans hn)⟩
    have hcaught : (fr.enter n).caught = (fr'.enter n).caught := by
      cases n <;> first | rfl | exact absurd rfl hcls | cases hshield
    rw [Measure.of_eq, Measure.of_eq, hown, Measure.inner, Measure.inner]
    congr 2
    refine List.map_congr_left fun k hk => Weight.of_congr k.2 fun hs => ⟨fun x hx => ?_, hcaught⟩
    exact Frame.mem_labels_enter (h hs x (mem_labelNames.mpr (.inr ⟨_, _, hk, hx⟩))) n

/-- Breaks that aim at a label weigh what they have weighed inside the `switch`. -/
theorem of_retarget {label : Ident} (hjump : w.jump label.name = 0) (n : Node c)
    (h : w.sees → Leaves w label.name fr fr' n) :
    w.of fr (retarget label n) = w.of fr' n := by
  induction n using partsInduction generalizing fr fr' with
  | @step c n ih =>
    cases hleave : n.isLeave with
    | true =>
      cases n with
      | breakStmt span l =>
        cases l with
        | none =>
          rw [retarget_leave, Measure.of_eq, Measure.of_eq, w.own_break fun hs => (h hs).aim, hjump,
            w.own_leave fun hs => (h hs).caught]
          rfl
        | some l => cases hleave
      | _ => cases hleave
    | false =>
      cases hshield : shieldsBreaks n with
      | true =>
        rw [retarget_of_shields label hshield]
        exact of_shields hshield fun hs => (h hs).labels
      | false =>
        rw [retarget_eq_mapParts label hleave hshield]
        have hpart {d : Cat} {k : Node d} (hk : ⟨d, k⟩ ∈ n.children) :
            w.of (fr.enter n) (retarget label k) = w.of (fr'.enter n) k := by
          have hstrays (hs : w.sees) := (Weight.of_eq_zero.mp (h hs).strays).2 _ hk
          cases hfun : n.isFunctionLike with
          | true =>
            have htop (fr : Frame) : fr.enter n = .top := by
              cases n <;> first | rfl | exact Bool.noConfusion hfun
            by_cases hs : w.sees
            · have hzero := hstrays hs
              rw [htop] at hzero
              rw [retarget_eq_self label k rfl hzero, htop, htop]
            · exact ih hk fun hs' => absurd hs' hs
          | false =>
            refine ih hk fun hs => ⟨?_, fun x hx => ?_, ?_, hstrays hs⟩
            · exact (enter_inside hshield hfun).1 (h hs).aim
            · exact Frame.mem_labels_enter
                ((h hs).labels x (mem_labelNames.mpr (.inr ⟨_, _, hk, hx⟩))) n
            · exact (enter_inside hshield hfun).2.trans (h hs).caught
        have hparts : Parts (fun k k' => Kept k k' ∧ w.of (fr.enter n) k' = w.of (fr'.enter n) k) n
            (n.mapParts (retarget label)) := by
          refine (Parts.of_mapParts (retarget label) n).imp fun {d k k'} hk he => ?_
          subst he
          exact ⟨kept_retarget label k, hpart hk⟩
        have hown : w.own fr n = w.own fr (n.mapParts (retarget label)) :=
          w.own_parts (hparts.imp fun _ hk => ⟨hk.1.outline, fun _ => hk.1.spans⟩)
        have hown' : w.own fr n = w.own fr' n := w.own_frame fun hs =>
          ⟨fun x hx => (h hs).labels x (mem_labelNames.mpr (.inl hx)), fun hn =>
            Bool.noConfusion (hleave.symm.trans hn)⟩
        rw [Measure.of_eq, Measure.of_eq, ← hown, hown', Measure.inner_eq hparts fun hk => hk.2]

variable {w : Weight known}

theorem all_stmts (h : Hoisted) :
    w.all fr h.stmts = (h.names.map fun id => w.mark id.name).sum + w.all fr h.functions := by
  have hnames (l : List Ident) : w.all fr (l.map fun id => declare .let id .none) =
      (l.map fun id => w.mark id.name).sum := by
    induction l with
    | nil => rfl
    | cons id l ih => simp [ih]
  rw [Hoisted.stmts, Measure.all_append, hnames]

theorem all_stmts_append (h h' : Hoisted) :
    w.all fr (h.append h').stmts = w.all fr h.stmts + w.all fr h'.stmts := by
  simp only [all_stmts, Hoisted.append, List.map_append, List.sum_append, Measure.all_append]
  omega

/-- The weight of what is left in a clause and of what is declared before. -/
def ofSplit (w : Weight known) (fr : Frame) (r : List Stmt × Hoisted) : Nat :=
  w.all fr r.1 + w.all fr r.2.stmts

theorem ofSplit_hoistAll {α : Type} {f : α → List Stmt × Hoisted} {cost : α → Nat} {l : List α}
    (h : ∀ a ∈ l, ofSplit w fr (f a) = cost a) :
    ofSplit w fr (hoistAll f l) = (l.map cost).sum := by
  induction l with
  | nil => rfl
  | cons a l ih =>
    obtain ⟨ha, hl⟩ := List.forall_mem_cons.mp h
    have htail := ih hl
    simp only [hoistAll, List.foldr_cons, ofSplit, Measure.all_append, all_stmts_append,
      List.map_cons, List.sum_cons] at ha htail ⊢
    omega

theorem ofSplit_hoistDeclarator (kind : VarKind) {d : Declarator}
    (h : d.declTarget.isBinder = true) :
    ofSplit w fr (hoistDeclarator kind d) = w.of fr d := by
  cases d with
  | declarator span definite p init =>
    cases p with
    | binder id =>
      rw [Measure.of_declarator]
      cases init with
      | none => simp [hoistDeclarator, ofSplit, all_stmts, toOption, boundIdents]
      | some e => simp [hoistDeclarator, ofSplit, all_stmts, toOption, boundIdents, Nat.add_comm]
    | _ => cases h

theorem stmtFault_declVar_eq_none {span : Span} {ctxt : Nat} {kind : VarKind} {declare : Bool}
    {decls : Node (.list .declarator)} :
    stmtFault (.declStmt (.declVar (.varDecl span ctxt kind declare decls))) = .none ↔
      kind = .var ∨ ∀ d ∈ decls.toList, d.declTarget.isBinder = true := by
  simp only [stmtFault, or_iff_not_imp_left]
  simp only [ite_eq_right_iff, Bool.and_eq_true, bne_iff_ne, ne_eq, Bool.not_eq_eq_eq_not,
    Bool.not_true, reduceCtorEq, imp_false, not_and, Bool.not_eq_false, List.all_eq_true]
  refine imp_congr_right fun _ => forall₂_congr fun d _ => ?_
  cases d with
  | declarator dspan definite p init => cases p <;> rfl

/-- Splitting a statement of a clause loses nothing but the declaration around its declarators. -/
theorem ofSplit_hoistStmt {k : Stmt} (hfault : stmtFault k = .none)
    (hclean : w.Plain ∨ w.of fr k = 0) : ofSplit w fr (hoistStmt k) = w.of fr k := by
  have hsame {k : Stmt} : ofSplit w fr ([k], .none) = w.of fr k := by
    simp [ofSplit, all_stmts, Hoisted.none]
  cases k with
  | declStmt d =>
    cases d with
    | declVar v =>
      cases v with
      | varDecl span ctxt kind declare decls =>
        simp only [hoistStmt]
        split
        next => exact hsame
        next hkind =>
          have hown : w.own fr (.declVar (.varDecl span ctxt kind declare decls)) = 0 := by
            refine hclean.elim (fun hplain => hplain fr _) fun hzero => ?_
            rw [Measure.of_declStmt] at hzero
            exact (Weight.of_eq_zero.mp hzero).1
          have hplain := (stmtFault_declVar_eq_none.mp hfault).resolve_left hkind
          rw [ofSplit_hoistAll fun d hd => ofSplit_hoistDeclarator kind (hplain d hd),
            Measure.of_declStmt, Measure.of_eq, hown, Nat.zero_add]
          change _ = w.of fr _ + 0
          rw [Measure.of_varDecl, ← Measure.all_toList]
          rfl
    | declClass declare name a =>
      have hof : w.of fr (.declClass declare name a) =
          w.mark name.name + w.own fr (.classExpr (.some name) a) + w.of fr a := by
        rw [Measure.of_eq, w.own_class]
        rfl
      simp [hoistStmt, ofSplit, all_stmts, hof, Nat.add_comm, Nat.add_assoc]
    | declFunc declare name f => simp [hoistStmt, ofSplit, all_stmts]
    | _ => exact hsame
  | _ => exact hsame

theorem isBinder_retarget (label : Ident) (d : Declarator) :
    (retarget label d).declTarget.isBinder = d.declTarget.isBinder := by
  cases d with
  | declarator span definite p init =>
    have hd : retarget label (.declarator span definite p init) =
        .declarator span definite (retarget label p) (retarget label init) :=
      retarget_eq_mapParts label rfl rfl
    have hp := (kept_retarget label p).outline.plain
    rw [isPlainTarget_eq_isBinder, isPlainTarget_eq_isBinder] at hp
    rw [hd]
    exact hp.symm

theorem toList_retarget (label : Ident) (l : Node (.list c)) :
    (retarget label l).toList = l.toList.map (retarget label) := by
  rw [← ofList_toList l]
  induction l.toList with
  | nil =>
    rw [ofList, retarget_eq_mapParts label rfl rfl]
    rfl
  | cons a l ih =>
    rw [ofList, retarget_eq_mapParts label rfl rfl]
    change (cons (retarget label a) (retarget label (ofList l))).toList = _
    rw [toList_cons, ih]
    rfl

/-- A statement that can be moved can be moved when its breaks have been retargeted. -/
theorem stmtFault_retarget (label : Ident) {k : Stmt} (h : stmtFault k = .none) :
    stmtFault (retarget label k) = .none := by
  cases k with
  | declStmt d =>
    have hd : retarget label (.declStmt d) = .declStmt (retarget label d) :=
      retarget_eq_mapParts label rfl rfl
    rw [hd]
    cases d with
    | declVar v =>
      cases v with
      | varDecl span ctxt kind declare decls =>
        have hv : retarget label (.declVar (.varDecl span ctxt kind declare decls)) =
            .declVar (.varDecl span ctxt kind declare (retarget label decls)) := by
          rw [retarget_eq_mapParts label rfl rfl]
          exact congrArg Node.declVar (retarget_eq_mapParts label rfl rfl)
        rw [hv, stmtFault_declVar_eq_none, toList_retarget]
        refine (stmtFault_declVar_eq_none.mp h).imp_right fun hplain => ?_
        simpa [isBinder_retarget] using hplain
    | declUsing => cases h
    | _ =>
      rw [retarget_eq_mapParts label rfl rfl]
      rfl
  | breakStmt span l =>
    cases l with
    | none =>
      rw [retarget_leave]
      rfl
    | some l =>
      rw [retarget_eq_mapParts label rfl rfl]
      rfl
  | _ =>
    first
      | rw [retarget_eq_mapParts label rfl rfl]
        rfl
      | rw [retarget_of_shields label rfl]
        rfl

/-- The weight of a clause. -/
def ofCase (w : Weight known) (fr : Frame) (c : Case) : Nat :=
  w.all fr c.test.toList + w.all fr c.body

theorem all_block? (f : Stmt → Stmt) (hf : ∀ k, w.of fr (f k) = w.of fr k) (body : List Stmt) :
    w.all fr ((block? body).map f).toList = w.all fr body := by
  cases body with
  | nil => rfl
  | cons k body => simp [block?, hf]

theorem all_flagCase (matched disc : Ident) (c : Case) :
    w.all fr (flagCase matched disc c) = ofCase w fr c := by
  have hbody : w.all fr ((block? c.body).map fun b => ifElse (.ref matched) b .none).toList =
      w.all fr c.body := all_block? _ (by simp) c.body
  rw [flagCase, Measure.all_cons, hbody, ofCase]
  cases c.test with
  | none => simp
  | some test => simp

theorem all_flatMap {α : Type} {f : α → List Stmt} {cost : α → Nat}
    (h : ∀ a, w.all fr (f a) = cost a) (l : List α) :
    w.all fr (l.flatMap f) = (l.map cost).sum := by
  induction l with
  | nil => rfl
  | cons a l ih => simp [h, ih]

theorem costs_flagForm {T : Terms} (subject : Expr) (cases : List Case) :
    w.Costs T (fun r => w.all fr r.1 + w.all fr r.2)
      (w.of fr subject + (cases.map (ofCase w fr)).sum) (flagForm subject cases) := by
  rw [← Nat.zero_add (_ + _)]
  refine (Measure.Costs.fresh "matched" (by decide)).bind fun matched => ?_
  rw [← Nat.zero_add (_ + _)]
  refine (Measure.Costs.fresh "disc" (by decide)).bind fun disc => .pure ?_
  simp only [all_flatMap (all_flagCase matched disc), Measure.all_cons, Measure.of_declare,
    Measure.of_bool, Measure.all_nil, Option.toList]
  omega

theorem all_selectCase (disc index : Ident) (l : List (Case × Nat)) :
    w.all fr (selectCase disc index l).toList = (l.map fun r => w.all fr r.1.test.toList).sum := by
  induction l with
  | nil => rfl
  | cons r l ih =>
    obtain ⟨c, i⟩ := r
    simp only [selectCase, List.map_cons, List.sum_cons]
    cases c.test with
    | none => simp [ih]
    | some test => simp [ih]

theorem all_indexBody (index : Ident) (r : Case × Nat) :
    w.all fr (indexBody index r.1 r.2) = w.all fr r.1.body :=
  all_block? _ (by simp) r.1.body

theorem costs_indexForm {T : Terms} (subject : Expr) (default : Nat) (cases : List Case) :
    w.Costs T (fun r => w.all fr r.1 + w.all fr r.2)
      (w.of fr subject + (cases.map (ofCase w fr)).sum) (indexForm subject default cases) := by
  rw [← Nat.zero_add (_ + _)]
  refine (Measure.Costs.fresh "disc" (by decide)).bind fun disc => ?_
  rw [← Nat.zero_add (_ + _)]
  refine (Measure.Costs.fresh "caseIndex" (by decide)).bind fun index => .pure ?_
  have hsum : (cases.zipIdx.map fun r => w.all fr r.1.test.toList).sum +
      (cases.zipIdx.map fun r => w.all fr r.1.body).sum = (cases.map (ofCase w fr)).sum := by
    rw [← List.zipIdx_map_fst 0 cases, List.map_map, List.zipIdx_map_fst]
    induction cases.zipIdx with
    | nil => rfl
    | cons r l ih =>
      simp only [List.map_cons, List.sum_cons, Function.comp_apply, ofCase, ← ih]
      omega
  simp only [all_flatMap (all_indexBody index), all_selectCase, Measure.all_append,
    Measure.all_cons, Measure.of_declare, Measure.of_num, Measure.all_nil, Option.toList_some]
  omega

theorem of_clause (span : Span) (test : Node (.opt .expr)) (body : Node (.list .stmt)) :
    w.of fr (.clause span test body) = ofCase w fr (Case.ofClause (.clause span test body)) := by
  rw [Measure.of_two (a := test) (b := body) rfl rfl rfl, ofCase]
  cases test <;> simp [Case.ofClause, toOption]

theorem of_clauses (clauses : Node (.list .clause)) :
    w.of fr clauses = ((clauses.toList.map Case.ofClause).map (ofCase w fr)).sum := by
  rw [← Measure.all_toList, Measure.all, List.map_map]
  congr 1
  refine List.map_congr_left fun c _ => ?_
  cases c with
  | clause span test body => exact of_clause span test body

/-- If clauses weigh nothing, then nor do their statements. -/
theorem of_body_eq_zero {clauses : Node (.list .clause)} (h : w.of fr clauses = 0) {c : Case}
    (hc : c ∈ clauses.toList.map Case.ofClause) {k : Stmt} (hk : k ∈ c.body) : w.of fr k = 0 := by
  rw [of_clauses, List.sum_eq_zero_iff_forall_eq_nat, List.forall_mem_map] at h
  have hbody := (Nat.add_eq_zero_iff.mp (h c hc)).2
  rw [Measure.all, List.sum_eq_zero_iff_forall_eq_nat, List.forall_mem_map] at hbody
  exact hbody k hk

theorem declSpans_toList {l : Node (.list c)} {a : Node c} (h : a ∈ l.toList) :
    a.declSpans ⊆ l.declSpans := by
  rw [← ofList_toList l]
  generalize l.toList = l at h
  induction h with
  | head l => exact List.subset_append_left _ _
  | tail b _ ih => exact List.Subset.trans ih (List.subset_append_right _ _)

theorem mem_declSpans_of_stmtFault {k : Stmt} {site : Span} {f : SwitchFault}
    (h : stmtFault k = .some (site, f)) : site ∈ k.declSpans := by
  unfold stmtFault at h
  split at h
  · cases h
    exact .head _
  · simp only at h
    split at h
    · cases h
      exact .head _
    · cases h
  · cases h

/-- The statement for which a `switch` is reported stands in one of its clauses. -/
theorem mem_declSpans_of_fault {clauses : Node (.list .clause)} {site : Span} {f : SwitchFault}
    (h : fault (clauses.toList.map Case.ofClause) = .some (site, f)) :
    site ∈ clauses.declSpans := by
  obtain ⟨k, hk, hfault⟩ := List.exists_of_findSome?_eq_some h
  obtain ⟨_, hcase, hk⟩ := List.mem_flatMap.mp hk
  obtain ⟨c, hc, rfl⟩ := List.mem_map.mp hcase
  refine declSpans_toList hc ?_
  cases c with
  | clause span test body =>
    exact declSpans_toList (l := body) hk (mem_declSpans_of_stmtFault hfault)

/-- What breaks of statements that are moved behind a label need. -/
def Movable (w : Weight known) (N : List String) (fr : Frame) (cases : List Case) : Prop :=
  w.sees → fr.labels ⊆ N ∧ ∀ c ∈ cases, ∀ k ∈ c.body, k.labelNames ⊆ N ∧
    (Weight.strays known).of ⟨fr.around, true⟩ k = 0

theorem ofSplit_hoistCase {label : Ident} {body : List Stmt} (hjump : w.jump label.name = 0)
    (haim : w.sees → ∀ k ∈ body, label.name ∉ k.labelNames ∧
      (Weight.strays known).of ⟨fr.around, true⟩ k = 0)
    (hfault : ∀ k ∈ body, stmtFault k = .none)
    (hclean : w.Plain ∨ ∀ k ∈ body, w.of ⟨fr.around, true⟩ k = 0) :
    ofSplit w (fr.label label.name) (hoistAll hoistStmt (body.map (retarget label))) =
      w.all ⟨fr.around, true⟩ body := by
  have hof : ∀ k ∈ body, w.of (fr.label label.name) (retarget label k) =
      w.of ⟨fr.around, true⟩ k := by
    refine fun k hk => of_retarget hjump k fun hs => ⟨.head _, fun x hx => ?_, rfl, ?_⟩
    · rw [Frame.labels_label, List.mem_cons, or_iff_right]
      · rfl
      · rintro rfl
        exact (haim hs k hk).1 hx
    · exact (haim hs k hk).2
  have hsplit : ∀ k ∈ body.map (retarget label),
      ofSplit w (fr.label label.name) (hoistStmt k) = w.of (fr.label label.name) k := by
    rw [List.forall_mem_map]
    refine fun k hk => ofSplit_hoistStmt (stmtFault_retarget label (hfault k hk)) ?_
    exact hclean.imp_right fun h => (hof k hk).trans (h k hk)
  rw [ofSplit_hoistAll hsplit, List.map_map, Measure.all]
  exact congrArg List.sum (List.map_congr_left hof)

theorem sum_ofSplit (parts : List (Option Expr × List Stmt × Hoisted)) :
    ((parts.map fun p => (⟨p.1, p.2.1⟩ : Case)).map (ofCase w fr)).sum +
        w.all fr (parts.foldr (fun p h => p.2.2.append h) Hoisted.none).stmts =
      (parts.map fun p => w.all fr p.1.toList + ofSplit w fr p.2).sum := by
  induction parts with
  | nil => rfl
  | cons p parts ih =>
    simp only [List.map_cons, List.sum_cons, List.foldr_cons, all_stmts_append, ofCase, ofSplit]
      at ih ⊢
    omega

theorem all_rest (h : Hoisted) (chain : List Stmt) :
    w.all fr (if h.isEmpty then chain else [.blockStmt (block (h.stmts ++ chain))]) =
      w.all fr h.stmts + w.all fr chain := by
  split
  next hempty =>
    obtain ⟨hnames, hfunctions⟩ := Bool.and_eq_true_iff.mp hempty
    rw [all_stmts, List.isEmpty_iff.mp hnames, List.isEmpty_iff.mp hfunctions]
    simp
  next => simp

theorem costs_lower {N : List String} {span : Span} {subject : Expr} {cases : List Case}
    (hmovable : Movable w N fr cases) (hfault : ∀ c ∈ cases, ∀ k ∈ c.body, stmtFault k = .none)
    (hclean : w.Plain ∨ ∀ c ∈ cases, ∀ k ∈ c.body, w.of ⟨fr.around, true⟩ k = 0) :
    w.Costs (w.terms N) (w.of fr)
      (w.of fr subject + (cases.map (ofCase w ⟨fr.around, true⟩)).sum)
      (lower span subject cases) := by
  unfold lower
  split
  next hempty =>
    rw [List.isEmpty_iff.mp hempty]
    exact .pure (by simp)
  next =>
    rw [← Nat.zero_add (_ + _)]
    refine (w.costs_freshLabel "S" (by decide)).bind_dep (Q := fun label => w.sees → label.name ∉ N)
      (b := fun label => w.of (fr.label label.name) subject +
        (cases.map fun c => w.all (fr.label label.name) c.test.toList +
          ofSplit w (fr.label label.name) (hoistAll hoistStmt (c.body.map (retarget label)))).sum)
      (w.freshLabel_notMem "S") ?_ ?_
    · intro s hs hpost
      have hlabel := w.freshLabel_notMem "S" s hs
      have hjump : w.jump ((Lower.freshLabel "S").run s).1.name = 0 := hpost _ (.head _)
      generalize ((Lower.freshLabel "S").run s).1 = label at hlabel hjump
      have hsubject : w.of (fr.label label.name) subject = w.of fr subject :=
        Weight.of_eq_of_noStmts _ rfl
      refine congrArg₂ (· + ·) hsubject (congrArg List.sum (List.map_congr_left fun c hc => ?_))
      rw [ofSplit_hoistCase hjump (fun hs k hk => ?_) (hfault c hc)
        (hclean.imp_right fun h => h c hc), ofCase]
      · refine congrArg (· + _) ?_
        cases c.test with
        | none => rfl
        | some test => exact congrArg (· + 0) (Weight.of_eq_of_noStmts _ rfl)
      · obtain ⟨hnames, hstray⟩ := (hmovable hs).2 c hc k hk
        exact ⟨fun hmem => hlabel hs (hnames hmem), hstray⟩
    · intro label hlabel
      extract_lets parts hoisted cs wrap
      have hwrap {form : Lower (List Stmt × List Stmt)}
          (h : w.Costs (w.terms N)
            (fun r => w.all (fr.label label.name) r.1 + w.all (fr.label label.name) r.2)
            (w.of (fr.label label.name) subject + (cs.map (ofCase w (fr.label label.name))).sum)
            form) :
          w.Costs (w.terms N) (w.of fr) (w.markLabel label.name +
            (w.of (fr.label label.name) subject + (parts.map fun p =>
              w.all (fr.label label.name) p.1.toList +
                ofSplit w (fr.label label.name) p.2).sum)) (form >>= wrap) := by
        refine (h.bind (b := w.markLabel label.name + w.all (fr.label label.name) hoisted.stmts)
          fun r => .pure ?_).congr ?_
        · have hfresh : w.sees → label.name ∉ fr.labels :=
            fun hs hmem => hlabel hs ((hmovable hs).1 hmem)
          rw [Weight.of_labeled _ hfresh, Measure.of_buildBlockStmt, Measure.all_append, all_rest]
          omega
        · have hsum : (cs.map (ofCase w (fr.label label.name))).sum +
              w.all (fr.label label.name) hoisted.stmts = (parts.map fun p =>
                w.all (fr.label label.name) p.1.toList +
                  ofSplit w (fr.label label.name) p.2).sum := sum_ofSplit parts
          omega
      simp only [parts, List.map_map] at hwrap
      split
      · split
        · exact hwrap (costs_indexForm subject _ cs)
        · exact hwrap (costs_flagForm subject cs)
      · exact hwrap (costs_flagForm subject cs)

theorem declSpans_lowerSwitch (k : Stmt) :
    Lower.Yields (fun k' => k.declSpans = k'.declSpans) (lowerSwitch k) := by
  cases k with
  | switchStmt span subject clauses =>
    simp only [lowerSwitch]
    split
    · exact .bind fun _ => .pure rfl
    · unfold lower
      split
      · exact .pure rfl
      · refine .bind fun label => ?_
        extract_lets parts hoisted cs wrap
        repeat' first | exact .bind fun _ => .pure rfl | split
  | _ => exact .pure rfl

/-- The pass rewrites the `switch` statements. -/
theorem rewrites (known : List Diagnostic) : Rewrites known lowerSwitch isSwitch where
  form_parts h := h.form_eq isSwitch fun m => by cases m <;> rfl
  isStmt {c n} h := by cases n <;> first | rfl | cases h
  ownLabels {c n} h := by cases n <;> first | rfl | cases h
  isLeave {c n} h := by cases n <;> first | rfl | cases h
  other k h := by cases k <;> first | rfl | cases h
  declSpans := declSpans_lowerSwitch
  costs w N fr k hk htracks hspares hclean := by
    cases k with
    | switchStmt span subject clauses =>
      have hinner : w.inner fr (.switchStmt span subject clauses) =
          w.of fr subject + w.of ⟨fr.around, true⟩ clauses := by
        have hsubject : w.of fr subject = w.of ⟨fr.around, true⟩ subject :=
          Weight.of_eq_of_noStmts _ rfl
        rw [hsubject]
        exact congrArg (w.of _ subject + ·) (Nat.add_zero _)
      simp only [lowerSwitch]
      split
      next site f hfault =>
        refine .unsupported _ fun hreported => ?_
        have hown : w.own fr (.switchStmt span subject clauses) = 0 :=
          hspares (List.any_eq_true.mpr ⟨site, mem_declSpans_of_fault hfault, hreported⟩)
        rw [Measure.of_eq, hown, Nat.zero_add]
      next hfault =>
        rw [hinner, of_clauses]
        have hzero {v : Weight known} (hv : v.of ⟨fr.around, true⟩ clauses = 0) {c : Case}
            (hc : c ∈ clauses.toList.map Case.ofClause) {k : Stmt} (hk : k ∈ c.body) :
            v.of ⟨fr.around, true⟩ k = 0 := of_body_eq_zero hv hc hk
        refine costs_lower (fun hs => ?_) (fun c hc k hk => ?_) ?_
        · obtain ⟨hlabels, hfr, hstray⟩ := htracks hs
          have hclauses : ⟨_, clauses⟩ ∈ (switchStmt span subject clauses).children :=
            .tail _ (.head _)
          refine ⟨hfr, fun c hc k hk => ⟨?_, hzero ((Weight.of_eq_zero.mp hstray).2 _ hclauses) hc hk⟩⟩
          let L := Weight.labelsOutside known N
          have hL : L.of ⟨fr.around, true⟩ clauses = 0 :=
            Weight.labelsOutside_eq_zero.mpr (labelNames_part hlabels hclauses)
          exact Weight.labelsOutside_eq_zero.mp (hzero hL hc hk)
        · exact List.findSome?_eq_none_iff.mp hfault k (List.mem_flatMap.mpr ⟨c, hc, hk⟩)
        · refine (Or.symm hclean).imp (·.1) fun h c hc k hk => hzero ?_ hc hk
          omega
    | _ => cases hk

end Switches

end PlainJs

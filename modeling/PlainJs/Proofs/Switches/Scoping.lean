import PlainJs.Proofs.Sites
import PlainJs.Proofs.Switches.Hoisting

namespace PlainJs

namespace Node

variable {c : Cat}

/-- The names that are declared before the clauses of a `switch` are declared once more there, and
assigned to where they have been declared. -/
def ownRedeclared (E : Levels) {c : Cat} (n : Node c) : List Use :=
  match n with
  | .switchStmt _ _ clauses =>
    if Switches.fault (clauses.toList.map Switches.Case.ofClause) = Option.none then
      clauses.bindings.map fun id => (id, E.within clauses.lexicals id.name)
    else []
  | _ => []

/-- The occurrences that lowering the `switch` statements of a tree adds. -/
def redeclared (E : Levels) (n : Node c) : List Use := n.scan @ownRedeclared E

/-- Whether the clauses of a `switch` that is lowered declare no function behind a label. -/
def hasPlainFunctions : {c : Cat} → Node c → Bool
  | _, .switchStmt _ _ clauses =>
    (Switches.fault (clauses.toList.map Switches.Case.ofClause)).isSome ||
      clauses.surface.all (·.1 ≠ .labeled)
  | _, _ => true

end Node

open Node Build

namespace Switches

variable {c : Cat} {E : Levels} {u : Use} {T : List String}

/-- Whether what a tree declares, seen as statements of clauses, can be declared before them. -/
def isMovable : {c : Cat} → Node c → Bool
  | _, .cons a l => isMovable a && isMovable l
  | _, .clause _ _ body => isMovable body
  | _, .declStmt d => isMovable d
  | _, .declVar v => isMovable v
  | _, .varDecl _ _ kind _ decls => kind == .var || decls.declShape.all (·.isPlain)
  | _, .declUsing .. => false
  | _, _ => true

variable {n n' : Node c}

theorem isMovable_of_parts (h : Parts (fun k k' => SameOutline k k' ∧ isMovable k' = isMovable k) n n') :
    isMovable n' = isMovable n := by
  cases n
  all_goals
    first
      | obtain rfl := h
        rfl
      | obtain ⟨a, ha, rfl⟩ := h
        first | rfl | exact ha.2 | exact congrArg (fun l => _ || List.all l _) ha.1.decls.symm
      | obtain ⟨a, ha, b, hb, rfl⟩ := h
        first | rfl | exact hb.2 | exact congrArg₂ (· && ·) ha.2 hb.2
      | obtain ⟨a, ha, b, hb, c, hc, rfl⟩ := h
        rfl
      | obtain ⟨a, ha, b, hb, c, hc, d, hd, rfl⟩ := h
        rfl

theorem isMovable_toList (l : Node (.list c)) : isMovable l = l.toList.all isMovable := by
  conv_lhs => rw [← ofList_toList l]
  induction l.toList with
  | nil => rfl
  | cons a l ih => exact congrArg (isMovable a && ·) ih

theorem all_isPlain (decls : Node (.list .declarator)) :
    decls.declShape.all (·.isPlain) = decls.toList.all (·.declTarget.isBinder) := by
  conv_lhs => rw [← ofList_toList decls]
  induction decls.toList with
  | nil => rfl
  | cons d l ih =>
    cases d with
    | declarator span definite p init =>
      rw [List.all_cons, ← ih]
      exact congrArg (· && _) (isPlainTarget_eq_isBinder p)

theorem stmtFault_eq_none_iff (k : Stmt) : stmtFault k = .none ↔ isMovable k = true := by
  cases k with
  | declStmt d =>
    cases d with
    | declVar v =>
      cases v with
      | varDecl span ctxt kind declare decls =>
        rw [stmtFault_declVar_eq_none]
        change _ ↔ (kind == .var || decls.declShape.all (·.isPlain)) = true
        rw [Bool.or_eq_true, beq_iff_eq]
        refine or_congr Iff.rfl ?_
        rw [all_isPlain, List.all_eq_true]
    | declUsing => exact iff_of_false (fun h => by cases h) (fun h => by cases h)
    | _ => exact iff_of_true rfl rfl
  | _ => exact iff_of_true rfl rfl

theorem fault_eq_none_iff (clauses : Node (.list .clause)) :
    fault (clauses.toList.map Case.ofClause) = .none ↔ isMovable clauses = true := by
  have hclause (c : Clause) : isMovable c = (Case.ofClause c).body.all isMovable := by
    cases c with
    | clause span test body => exact isMovable_toList body
  rw [fault, List.findSome?_eq_none_iff, isMovable_toList, List.all_eq_true]
  simp only [hclause, List.all_eq_true, stmtFault_eq_none_iff, List.mem_flatMap, List.mem_map]
  grind

theorem isMovable_lowerSwitch (k : Stmt) (hk : k.isSwitch = true) :
    Lower.Yields (fun k' => isMovable k' = true) (lowerSwitch k) := by
  cases k with
  | switchStmt span subject clauses =>
    simp only [lowerSwitch]
    split
    · exact .bind fun _ => .pure rfl
    · unfold lower
      split
      · exact .pure rfl
      · refine .bind fun label => ?_
        extract_lets parts hoisted cs wrap
        repeat' first | exact .bind fun _ => .pure rfl | split
  | _ => cases hk

/-- The pass keeps what can be declared before the clauses. -/
theorem isMovable_bottomUp (n : Node c) (s : Context) :
    isMovable ((Lower.bottomUp lowerSwitch n).run s).1 = isMovable n := by
  induction n using Node.partsInduction generalizing s with
  | @step c n ih =>
    have hparts : Node.Parts (fun k k' => SameOutline k k' ∧ isMovable k' = isMovable k) n
        ((n.traverse fun k _ => Lower.bottomUp lowerSwitch k).run s).1 :=
      Node.parts_traverse lowering
        (fun k hk s => ⟨((rewrites []).outline k s).outline, ih hk s⟩) s
    have hsame := isMovable_of_parts hparts
    rw [Rewrites.run_bottomUp]
    by_cases hswitch : n.isSwitch = true
    · cases n with
      | switchStmt span subject clauses =>
        exact isMovable_lowerSwitch _ (((rewrites []).form_parts hparts).symm.trans hswitch) _
      | _ => cases hswitch
    · have hnot := ((rewrites []).form_parts hparts).symm.trans (Bool.eq_false_iff.mpr hswitch)
      simp only [(rewrites []).onStmt_eq_pure hnot]
      exact hsame

theorem vars_sharedBlock (label : Ident) (span : Span) (head decls chain : List Stmt) :
    (sharedBlock label span head decls chain).vars = (head ++ decls ++ chain).flatMap vars := by
  change (ofList (head ++ _)).vars = _
  rw [vars_ofList, List.append_assoc, List.flatMap_append, List.flatMap_append]
  refine congrArg (_ ++ ·) ?_
  split
  next hempty => rw [List.isEmpty_iff.mp hempty, List.nil_append]
  next =>
    change (ofList (decls ++ chain)).vars ++ [] = _
    rw [vars_ofList, List.append_nil]

theorem plain_of_hasPlainFunctions {span : Span} {subject : Expr} {clauses : Node (.list .clause)}
    (h : hasPlainFunctions (.switchStmt span subject clauses) = true)
    (hfault : fault (clauses.toList.map Case.ofClause) = .none) :
    ∀ d ∈ clauses.surface, d.1 ≠ .labeled := by
  rw [hasPlainFunctions, hfault] at h
  simpa using h

/-- A `switch` without clauses only evaluates its subject. Any other that is lowered gets a block that
its clauses share. -/
theorem shared_lowerSwitch (span : Span) (subject : Expr) {clauses : Node (.list .clause)}
    (hfault : fault (clauses.toList.map Case.ofClause) = .none)
    (hplain : ∀ d ∈ clauses.surface, d.1 ≠ .labeled) (t : Context) :
    let r := (lowerSwitch (.switchStmt span subject clauses)).run t
    (clauses = .nil ∧ r.1 = Build.exprStmt subject) ∨
      ∃ label head decls chain, r.1 = sharedBlock label span head decls chain ∧
        Shared (t.newNames r.2) @noUses subject clauses head decls chain := by
  have hlower : lowerSwitch (.switchStmt span subject clauses) =
      lower span subject (clauses.toList.map Case.ofClause) := by simp only [lowerSwitch, hfault]
  rw [hlower]
  cases clauses with
  | nil => exact .inl ⟨rfl, rfl⟩
  | cons c l =>
    have hne : (Node.cons c l).toList.map Case.ofClause ≠ [] := List.cons_ne_nil _ _
    exact .inr (shared_lower hne hfault hplain t)

/-- A `switch` whose parts are lowered keeps what names refer to when it is lowered. -/
theorem rescoped_switch {span : Span} {subject : Expr} {clauses : Node (.list .clause)}
    (hplain : hasPlainFunctions (.switchStmt span subject clauses) = true) (t : Context) :
    let r := (lowerSwitch (.switchStmt span subject clauses)).run t
    SameDecls (.switchStmt span subject clauses) r.1 ∧
      ∀ (u : Use) E, u.1.name ∉ t.newNames r.2 → tally u E r.1 =
        tally u E (.switchStmt span subject clauses) +
          (ownRedeclared E (.switchStmt span subject clauses)).count u := by
  intro r
  cases hfault : fault (clauses.toList.map Case.ofClause) with
  | some f =>
    simp only [r, lowerSwitch, hfault, ownRedeclared, reduceCtorEq, if_false, List.count_nil]
    exact ⟨.refl _, fun _ _ _ => rfl⟩
  | none =>
    simp only [ownRedeclared, hfault, if_true]
    obtain ⟨rfl, hout⟩ | ⟨label, head, decls, chain, hout, hshared⟩ :=
      shared_lowerSwitch span subject hfault (plain_of_hasPlainFunctions hplain hfault) t
    · rw [hout]
      refine ⟨⟨rfl, rfl, rfl⟩, fun u E _ => ?_⟩
      rw [tally_switchStmt, tally_nil]
      exact tally_exprStmt_build subject
    · rw [hout]
      refine ⟨⟨rfl, (vars_sharedBlock ..).trans hshared.vars, rfl⟩, fun u E hu => ?_⟩
      rw [tally_sharedBlock hshared hu, tally_switchStmt]

theorem ownRedeclared_of_not_isSwitch (h : n.isSwitch = false) (E : Levels) :
    ownRedeclared E n = [] := by
  cases n <;> first | rfl | cases h

variable {base : Context}

theorem newNames_subset_of_grows {t v : Context} (h : base.Grows t) :
    t.newNames v ⊆ base.newNames v := by
  intro x hx
  rw [Context.mem_newNames] at hx ⊢
  exact ⟨hx.1, fun hmem => hx.2 (h.reserved hmem)⟩

/-- Whether the clauses of a `switch` can be moved does not change when they are lowered. -/
theorem fault_made {t : Context} {clauses clauses' : Node (.list .clause)}
    (hmade : MadeOf base t clauses clauses') :
    fault (clauses'.toList.map Case.ofClause) = .none ↔
      fault (clauses.toList.map Case.ofClause) = .none := by
  obtain ⟨v, -, -, rfl⟩ := hmade
  rw [fault_eq_none_iff, fault_eq_none_iff, isMovable_bottomUp]

theorem hasPlainFunctions_made {t : Context} {span : Span} {subject : Expr}
    {clauses clauses' : Node (.list .clause)}
    (hplain : hasPlainFunctions (.switchStmt span subject clauses) = true)
    (hmade : MadeOf base t clauses clauses') (hsurface : clauses'.surface = clauses.surface)
    (subject' : Expr) : hasPlainFunctions (.switchStmt span subject' clauses') = true := by
  cases hfault : fault (clauses'.toList.map Case.ofClause) with
  | some f => rw [hasPlainFunctions, hfault, Option.isSome_some, Bool.true_or]
  | none =>
    have hsame := plain_of_hasPlainFunctions hplain ((fault_made hmade).mp hfault)
    rw [hasPlainFunctions, hsurface, Bool.or_eq_true]
    exact .inr (by simpa using hsame)

theorem ownRedeclared_made {t : Context} (span : Span) (subject subject' : Expr)
    {clauses clauses' : Node (.list .clause)} (hmade : MadeOf base t clauses clauses')
    (hsurface : clauses'.surface = clauses.surface) (E : Levels) :
    ownRedeclared E (.switchStmt span subject' clauses') =
      ownRedeclared E (.switchStmt span subject clauses) := by
  simp only [ownRedeclared, fault_made hmade, bindings, lexicals, hsurface]

/-- A `switch` keeps what names refer to, if its parts do. -/
theorem rescoped_lowerSwitch {t : Context} {k k' : Stmt} (hbase : base.Grows t)
    (hplain : k.all hasPlainFunctions = true)
    (hparts : Parts (fun k k' => Rescoped (base.newNames t) @ownRedeclared k k' ∧ MadeOf base t k k')
      k k') :
    Rescoped (base.newNames ((lowerSwitch k').run t).2) @ownRedeclared k ((lowerSwitch k').run t).1 := by
  have hgrows : t.Grows ((lowerSwitch k').run t).2 := ((rewrites []).calm k' t).grows
  have hrescoped := hparts.imp fun _ hk => hk.1
  by_cases hswitch : k.isSwitch = true
  · cases k with
    | switchStmt span subject clauses =>
      obtain ⟨subject', hsubject, clauses', hclauses, rfl⟩ := hparts
      have hplain' := hasPlainFunctions_made (all_iff.mp hplain).1 hclauses.2 hclauses.1.surface
        subject'
      obtain ⟨hdecls, huses⟩ := rescoped_switch hplain' t
      have hsame : SameDecls (.switchStmt span subject clauses) (.switchStmt span subject' clauses') :=
        .of_parts (hrescoped.imp fun _ hk => hk.toSameDecls)
      refine ⟨hsame.trans hdecls, fun E u hu => (huses u E fun hmem => ?_).trans ?_⟩
      · exact hu (newNames_subset_of_grows hbase hmem)
      · have hcount := Rescoped.countParts hrescoped E fun hmem =>
          hu (Context.newNames_subset hgrows hmem)
        rw [ownRedeclared_made span subject subject' hclauses.2 hclauses.1.surface, uses, tally_eq,
          count_scan, count_scan, hcount, ownUses, occurrences_of_parts hrescoped, ← ownUses]
        omega
    | _ => cases hswitch
  · have hnot := Bool.eq_false_iff.mpr hswitch
    have hnot' := ((rewrites []).form_parts hparts).symm.trans hnot
    rw [(rewrites []).other k' hnot']
    exact .of_parts (ownRedeclared_of_not_isSwitch hnot) hrescoped

/-- The pass keeps what names refer to. -/
theorem rescoped_bottomUp (n : Node c) {s : Context} (hbase : base.Grows s)
    (hplain : n.all hasPlainFunctions = true) :
    let r := (Lower.bottomUp lowerSwitch n).run s
    Rescoped (base.newNames r.2) @ownRedeclared n r.1 := by
  have hmeets := meets_bottomUp (s := base) (f := lowerSwitch)
    (P := fun t {_} k k' => k.all hasPlainFunctions = true →
      Rescoped (base.newNames t) @ownRedeclared k k')
    (fun hgrows hk hplain => (hk hplain).mono (Context.newNames_subset hgrows)) ?_ ?_ n
  · exact (hmeets s hbase).2.rel hplain
  · intro t d k k' _ hparts hd hplain
    have hnot : k.isSwitch = false := by cases k <;> first | rfl | exact absurd rfl hd
    refine .of_parts (ownRedeclared_of_not_isSwitch hnot) ?_
    exact hparts.imp fun hk h => h (all_part hplain hk)
  · intro t k k' hbase hparts
    refine ⟨((rewrites []).calm k' t).grows, fun hplain => rescoped_lowerSwitch hbase hplain ?_⟩
    exact hparts.imp fun hk h => ⟨h.1.rel (all_part hplain hk), h.2⟩

theorem Shared.mono {T' : List String} {extra : Levels → ∀ {c : Cat}, Node c → List Use}
    {subject : Expr} {clauses : Node (.list .clause)} {head decls chain : List Stmt}
    (h : Shared T extra subject clauses head decls chain) (hT : T ⊆ T') :
    Shared T' extra subject clauses head decls chain :=
  { h with
    temps id hid := hT (h.temps id hid)
    subject u E hu := h.subject u E fun hmem => hu (hT hmem)
    clauses u E hu := h.clauses u E fun hmem => hu (hT hmem) }

/-- What holds of a `switch` with lowered parts, said of the parts before they were lowered. -/
theorem Shared.of_rescoped {extra : Levels → ∀ {c : Cat}, Node c → List Use}
    {subject subject' : Expr} {clauses clauses' : Node (.list .clause)} {head decls chain : List Stmt}
    (hsubject : Rescoped T extra subject subject') (hclauses : Rescoped T extra clauses clauses')
    (h : Shared T @noUses subject' clauses' head decls chain) :
    Shared T extra subject clauses head decls chain where
  temps := h.temps
  subject u E hu := by
    rw [h.subject u E hu, scan_noUses, List.count_nil, Nat.add_zero]
    exact hsubject.uses E u hu
  declared := hclauses.lexicals ▸ h.declared
  form := h.form
  bare := h.bare
  blocks := h.blocks
  vars := h.vars.trans hclauses.vars
  clauses u E hu := by
    have huses : tally u E clauses' = tally u E clauses + (clauses.scan extra E).count u :=
      hclauses.uses E u hu
    rw [h.clauses u E hu, scan_noUses, List.count_nil, huses, bindings, hclauses.surface, ← bindings]
    omega

theorem run_bottomUp_switchStmt (span : Span) (subject : Expr) (clauses : Node (.list .clause))
    (s : Context) : (Lower.bottomUp lowerSwitch (.switchStmt span subject clauses)).run s =
      let a := (Lower.bottomUp lowerSwitch subject).run s
      let b := (Lower.bottomUp lowerSwitch clauses).run a.2
      (lowerSwitch (.switchStmt span a.1 b.1)).run b.2 := by
  rw [Rewrites.run_bottomUp]
  rfl

/-- What the pass makes of a `switch` that it lowers. -/
theorem shared_made {t : Context} {span : Span} {subject : Expr} {clauses : Node (.list .clause)}
    {out : Stmt} (hplain : (Node.switchStmt span subject clauses).all hasPlainFunctions = true)
    (hfault : fault (clauses.toList.map Case.ofClause) = .none)
    (hmade : MadeOf base t (.switchStmt span subject clauses) out) :
    (clauses = .nil ∧ ∃ subject', MadeOf base t subject subject' ∧ out = Build.exprStmt subject') ∨
      ∃ label head decls chain, out = sharedBlock label span head decls chain ∧
        Shared (base.newNames t) @ownRedeclared subject clauses head decls chain := by
  obtain ⟨s, hs, hend, rfl⟩ := hmade
  rw [run_bottomUp_switchStmt] at hend ⊢
  let a := (Lower.bottomUp lowerSwitch subject).run s
  let b := (Lower.bottomUp lowerSwitch clauses).run a.2
  have ha : base.Grows a.2 := hs.trans ((rewrites []).calm_bottomUp subject s).grows
  have hab : a.2.Grows b.2 := ((rewrites []).calm_bottomUp clauses a.2).grows
  have hbt : b.2.Grows t := ((rewrites []).calm _ b.2).grows.trans hend
  have hsubject : Rescoped (base.newNames a.2) @ownRedeclared subject a.1 :=
    rescoped_bottomUp subject hs (all_part hplain (.head _))
  have hclauses : Rescoped (base.newNames b.2) @ownRedeclared clauses b.1 :=
    rescoped_bottomUp clauses ha (all_part hplain (.tail _ (.head _)))
  have hmade : MadeOf base b.2 clauses b.1 := ⟨a.2, ha, .refl b.2, rfl⟩
  have hfault' : fault (b.1.toList.map Case.ofClause) = .none := (fault_made hmade).mpr hfault
  have hplain' : ∀ d ∈ b.1.surface, d.1 ≠ .labeled :=
    hclauses.surface ▸ plain_of_hasPlainFunctions (all_iff.mp hplain).1 hfault
  obtain ⟨hnil, hout⟩ | ⟨label, head, decls, chain, hout, hshared⟩ :=
    shared_lowerSwitch span a.1 hfault' hplain' b.2
  · refine .inl ⟨?_, a.1, ⟨s, hs, hab.trans hbt, rfl⟩, hout⟩
    cases clauses with
    | nil => rfl
    | cons c l =>
      rw [show b = _ from Rewrites.run_bottomUp (.cons c l) a.2] at hnil
      cases hnil
  · refine .inr ⟨label, head, decls, chain, hout, ?_⟩
    refine .of_rescoped (hsubject.mono ?_) (hclauses.mono ?_) (hshared.mono ?_)
    · exact Context.newNames_subset (hab.trans hbt)
    · exact Context.newNames_subset hbt
    · exact List.Subset.trans (newNames_subset_of_grows (ha.trans hab)) (Context.newNames_subset hend)

/-- The pass makes something of every part of a tree. -/
theorem exists_made {k : Stmt} (hk : ⟨.stmt, k⟩ ∈ n.nodes) {s : Context} (hbase : base.Grows s) :
    ∃ k', MadeOf base ((Lower.bottomUp lowerSwitch n).run s).2 k k' := by
  obtain ⟨u, hu, hend⟩ := (rewrites []).exists_run hk s
  exact ⟨_, u, hbase.trans hu.grows, hend.grows, rfl⟩

theorem mem_names_of_redeclared (hu : u ∈ n.redeclared E) : u.1.name ∈ n.names := by
  refine mem_names_of_scan (fun E d k u hu => ?_) hu
  unfold ownRedeclared at hu
  split at hu
  · split at hu
    · obtain ⟨id, hid, rfl⟩ := List.mem_map.mp hu
      obtain ⟨d, hd, rfl⟩ := List.mem_map.mp hid
      have hname := mem_names_of_surface (List.mem_filter.mp hd).1
      exact mem_names.mpr (.inr ⟨_, _, .tail _ (.head _), hname⟩)
    · cases hu
  · cases hu

end Switches

open Switches in
/-- Lowering every `switch` of a program keeps what its names refer to: the identifiers of the program
are still there with their levels, and what the clauses of a `switch` declare, functions apart, is
declared once more before them. -/
theorem lowerSwitches_keeps_scopes (p : Program) (cx : Context)
    (hknown : p.names ⊆ cx.names.reserved) (hplain : p.all hasPlainFunctions = true) :
    let r := (lowerSwitches p).run cx
    ((r.1.uses .outside).filter (·.1.name ∉ cx.newNames r.2)).Perm
        (p.uses .outside ++ p.redeclared .outside) ∧
      ∀ {span : Span} {subject : Expr} {clauses : Node (.list .clause)},
        ⟨.stmt, .switchStmt span subject clauses⟩ ∈ p.nodes →
        fault (clauses.toList.map Case.ofClause) = .none →
          (∃ out, Lower.Made lowerSwitch cx r.2 (.switchStmt span subject clauses) out) ∧
          ∀ out, Lower.Made lowerSwitch cx r.2 (.switchStmt span subject clauses) out →
            (clauses = .nil ∧ ∃ subject', Lower.Made lowerSwitch cx r.2 subject subject' ∧
              out = Build.exprStmt subject') ∨
            ∃ label head decls chain, out = sharedBlock label span head decls chain ∧
              Shared (cx.newNames r.2) @ownRedeclared subject clauses head decls chain := by
  intro r
  refine ⟨List.perm_iff_count.mpr fun u => ?_,
    fun hswitch hfault => ⟨exists_made hswitch (.refl cx), ?_⟩⟩
  · have hrescoped : Rescoped (cx.newNames r.2) @ownRedeclared p r.1 :=
      rescoped_bottomUp p (.refl cx) hplain
    by_cases hu : u.1.name ∈ cx.newNames r.2
    · have hnames : u.1.name ∉ p.names := fun h => (Context.mem_newNames.mp hu).2 (hknown h)
      rw [List.count_eq_zero.mpr, List.count_eq_zero.mpr]
      · rw [List.mem_append]
        rintro (h | h)
        · exact hnames (mem_names_of_uses h)
        · exact hnames (mem_names_of_redeclared h)
      · intro h
        simp [hu] at h
    · rw [List.count_filter (by simpa using hu), List.count_append]
      exact hrescoped.uses .outside u hu
  · exact fun out hmade => shared_made (all_of_mem_nodes hplain hswitch) hfault hmade

/-- `switch (x) { case y: let y = x; class A extends y {} case A:
function f() { switch (y) { default: let x = f(y); } } default: f(y); }` -/
def sharedNames : Stmt :=
  let call (x : String) : Expr := Build.call (Build.name "f") [Build.name x]
  let clause (test : Option Expr) (body : List Stmt) : Clause :=
    .clause .none (.ofOption test) (.ofList body)
  let inner : Stmt := .switchStmt .none (Build.name "y") (.ofList [
    clause none [Build.declare .let (.ofName "x") (some (call "y"))]])
  .switchStmt .none (Build.name "x") (.ofList [
    clause (some (Build.name "y")) [
      Build.declare .let (.ofName "y") (some (Build.name "x")),
      .declStmt (.declClass false (.ofName "A") (.cls .none 0 .nil .nil (.some (Build.name "y"))))],
    clause (some (Build.name "A")) [
      .declStmt (.declFunc false (.ofName "f")
        (.func .none 0 false false .nil .nil (.some (Build.block [inner]))))],
    clause none [Build.exprStmt (call "y")]])

def sharingProgram : Program := .scriptProgram .none none (.ofList [sharedNames])

open Switches in
theorem lowerSwitches_keeps_scopes_sharingProgram :
    let cx := Context.start .default sharingProgram
    let r := (lowerSwitches sharingProgram).run cx
    sharingProgram.names ⊆ cx.names.reserved ∧ sharingProgram.all hasPlainFunctions = true ∧
      ((r.1.uses .outside).filter (·.1.name ∉ cx.newNames r.2)).Perm
        (sharingProgram.uses .outside ++ sharingProgram.redeclared .outside) ∧
      ∃ span subject clauses label head decls chain, sharedNames = .switchStmt span subject clauses ∧
        Lower.Made lowerSwitch cx r.2 sharedNames (sharedBlock label span head decls chain) ∧
        Shared (cx.newNames r.2) @ownRedeclared subject clauses head decls chain := by
  have hknown : sharingProgram.names ⊆
      (Context.start .default sharingProgram).names.reserved := by decide +kernel
  have hplain : sharingProgram.all hasPlainFunctions = true := by decide +kernel
  have hswitch : ⟨.stmt, sharedNames⟩ ∈ sharingProgram.nodes :=
    mem_nodes_of_part (.head _) (mem_nodes_of_part (.head _) mem_nodes_self)
  obtain ⟨hperm, hshared⟩ := lowerSwitches_keeps_scopes sharingProgram _ hknown hplain
  obtain ⟨⟨out, hmade⟩, hout⟩ := hshared hswitch (by decide +kernel)
  obtain ⟨hnil, -⟩ | ⟨label, head, decls, chain, rfl, h⟩ := hout out hmade
  · cases hnil
  · exact ⟨hknown, hplain, hperm, _, _, _, label, head, decls, chain, rfl, hmade, h⟩

/-- `class A { @(function () { switch (x) { case matched: let y = 1; } }) m() {} }` -/
def decoratedSwitch : Program :=
  let clause : Clause := .clause .none (.some (Build.name "matched"))
    (.ofList [Build.declare .let (.ofName "y") (some (Build.num 1))])
  let mark : Expr := .function none (.func .none 0 false false .nil .nil
    (.some (Build.block [.switchStmt .none (Build.name "x") (.ofList [clause])])))
  let method : Node .func :=
    .func .none 0 false false .nil (.ofList [.decorator .none mark]) (.some (Build.block []))
  .scriptProgram .none none (.ofList [.declStmt (.declClass false (.ofName "A")
    (.cls .none 0 .nil
      (.ofList [.methodMember .none .method false (.fixedKey .none (.name "m")) method])
      .none))])

/-- `switch (x) { case 0: L: function f() {} default: f(); }` -/
def labeledFunction : Program :=
  .scriptProgram .none none (.ofList [.switchStmt .none (Build.name "x") (.ofList [
    .clause .none (.some (Build.num 0)) (.ofList [.labeledStmt .none (.ofName "L")
      (.declStmt (.declFunc false (.ofName "f")
        (.func .none 0 false false .nil .nil (.some (Build.block [])))))]),
    .clause .none .none (.ofList [Build.exprStmt (Build.call (Build.name "f") [])])])])

/-- Some occurrence of a name is there less often when every `switch` of a program is lowered. -/
def LosesUses (p : Program) : Prop :=
  ∃ u ∈ p.uses .outside, (((lowerSwitches p).run (.start .default p)).1.uses .outside).count u <
    (p.uses .outside).count u

/-- The supply has to know the names: those in the decorators of functions are not noted, and the flag
gets one of them. A function behind a label is left in its clause, out of sight of the others. -/
theorem lowerSwitches_loses_scopes : LosesUses decoratedSwitch ∧ LosesUses labeledFunction := by
  unfold LosesUses
  decide +kernel

end PlainJs

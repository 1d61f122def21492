import PlainJs.Proofs.Declarations.Runs
import PlainJs.Proofs.Loops.Balance
import PlainJs.Proofs.Loops.Rounds

namespace PlainJs

open Run Interp

namespace Node

/-- Whether a declaration declares nothing but names. -/
def declaresNames (v : VarDecl) : Bool := v.declarators.all (·.declTarget.isBinder)

/-- Whether a tree is no declaration in the head of a loop, or one of names only. -/
def bindsNames : {c : Cat} → Node c → Bool
  | _, .initDecl v | _, .headDecl v => v.declaresNames
  | _, _ => true

theorem skeleton_varDecl (span : Span) (ctxt : Nat) (kind : VarKind) (declare : Bool)
    (ds : Node (.list .declarator)) :
    (varDecl span ctxt kind declare ds).skeleton = .varDecl span ctxt kind declare ds.skeleton :=
  skeleton_eq_mapParts nofun

theorem skeleton_declarator (span : Span) (definite : Bool) (p : Pat) (init : Node (.opt .expr)) :
    (declarator span definite p init).skeleton = .declarator span definite p.skeleton init.skeleton :=
  skeleton_eq_mapParts nofun

theorem skeleton_nil {c : Cat} : (nil : Node (.list c)).skeleton = .nil :=
  skeleton_eq_mapParts nofun

theorem skeleton_cons {c : Cat} (a : Node c) (l : Node (.list c)) :
    (cons a l).skeleton = .cons a.skeleton l.skeleton :=
  skeleton_eq_mapParts nofun

theorem skeleton_headDecl (v : VarDecl) : (headDecl v).skeleton = .headDecl v.skeleton :=
  skeleton_eq_mapParts nofun

theorem skeleton_headPat (p : Pat) : (headPat p).skeleton = .headPat p.skeleton :=
  skeleton_eq_mapParts nofun

theorem skeleton_binder (id : Ident) : (binder id).skeleton = .binder id :=
  skeleton_eq_mapParts nofun

theorem skeleton_exprPat (e : Expr) : (exprPat e).skeleton = .exprPat e.skeleton :=
  skeleton_eq_mapParts nofun

theorem skeleton_ref (id : Ident) : (ref id).skeleton = .ref id := skeleton_eq_mapParts nofun

theorem toList_skeleton {c : Cat} (l : Node (.list c)) :
    l.skeleton.toList = l.toList.map skeleton := by
  rw [← ofList_toList l]
  induction l.toList with
  | nil => rw [ofList, skeleton_nil, toList_nil, List.map_nil]
  | cons a l ih => rw [ofList, skeleton_cons, toList_cons, toList_cons, ih, List.map_cons]

theorem isBinder_skeleton (p : Pat) : p.skeleton.isBinder = p.isBinder := by
  rw [skeleton_eq_mapParts (c := .pat) nofun]
  cases p <;> rfl

theorem declaresNames_skeleton (v : VarDecl) : v.skeleton.declaresNames = v.declaresNames := by
  cases v with
  | varDecl span ctxt kind declare ds =>
    rw [skeleton_varDecl]
    change ds.skeleton.toList.all (·.declTarget.isBinder) = ds.toList.all (·.declTarget.isBinder)
    rw [toList_skeleton, List.all_map]
    congr 1
    funext d
    cases d with
    | declarator dspan definite p init =>
      rw [Function.comp_apply, skeleton_declarator]
      exact isBinder_skeleton p

theorem bindsNames_skeleton {c : Cat} (hc : c ≠ .block) (n : Node c) :
    n.skeleton.bindsNames = n.bindsNames := by
  rw [skeleton_eq_mapParts hc]
  cases n <;> first | rfl | exact declaresNames_skeleton _

end Node

namespace Loops

open Node

variable {U V : Type} {I : Interp U V} {temps : List String}

section

variable {span : Span} {ctxt : Nat} {kind : VarKind} {declare : Bool}

theorem run_splitNames {ds : List Declarator} (h : ∀ d ∈ ds, d.declTarget.isBinder = true)
    (t : Context) :
    (ds.mapM (Declarations.splitDeclarator span ctxt kind declare)).run t =
      (ds.map fun d => [Declarations.single span ctxt kind declare d], t) := by
  induction ds with
  | nil => rfl
  | cons d ds ih =>
    have hrun : (Declarations.splitDeclarator span ctxt kind declare d).run t =
        ([Declarations.single span ctxt kind declare d], t) := by
      cases d with
      | declarator dspan definite p init =>
        have hp : p.isBinder = true := h _ (.head _)
        simp only [Declarations.splitDeclarator, Declarations.declaratorFault, hp]
        cases init <;> rfl
    have hcons : ((d :: ds).mapM (Declarations.splitDeclarator span ctxt kind declare)).run t =
        let r := (Declarations.splitDeclarator span ctxt kind declare d).run t
        let rest := (ds.mapM (Declarations.splitDeclarator span ctxt kind declare)).run r.2
        (r.1 :: rest.1, rest.2) := by
      rw [List.mapM_cons]
      rfl
    rw [hcons, hrun]
    dsimp only
    rw [ih fun d hd => h d (.tail _ hd), List.map_cons]

theorem exec_single (d : Declarator) {labels : List String} :
    I.exec temps labels (Declarations.single span ctxt kind declare d) = I.declare temps kind d := by
  rw [Declarations.single, exec_declStmt, exec_declVar, exec_varDecl, declare_cons, declare_nil,
    seq_done]

theorem exec_singles (ds : List Declarator) :
    I.exec temps [] (.ofList (ds.map (Declarations.single span ctxt kind declare))) =
      I.declare temps kind (.ofList ds) := by
  induction ds with
  | nil => rw [List.map_nil, ofList, ofList, exec_nil, declare_nil]
  | cons d ds ih => rw [List.map_cons, ofList, ofList, exec_cons, declare_cons, exec_single, ih]

theorem functionMeanings_single (d : Declarator) :
    I.functionMeanings temps (Declarations.single span ctxt kind declare d) =
      I.functionMeanings temps d := by
  simp [Declarations.single]

variable (I temps) in
/-- A declaration of names becomes one declaration for each of them. -/
theorem run_splitIfNeeded {v : VarDecl} (h : v.declaresNames = true) (t : Context) :
    ∃ stmts, (Declarations.splitIfNeeded v).run t = (stmts, t) ∧
      I.exec temps [] (.ofList stmts) = I.exec temps [] v ∧
      I.functionMeanings temps (.ofList stmts) = I.functionMeanings temps v := by
  unfold Declarations.splitIfNeeded
  split
  · cases v with
    | varDecl span ctxt kind declare ds =>
      refine ⟨ds.toList.map (Declarations.single span ctxt kind declare), ?_, ?_, ?_⟩
      · have hsplit : (Declarations.split (.varDecl span ctxt kind declare ds)).run t =
            let r := (ds.toList.mapM (Declarations.splitDeclarator span ctxt kind declare)).run t
            (r.1.flatten, r.2) := rfl
        have hnames : ∀ d ∈ ds.toList, d.declTarget.isBinder = true := List.all_eq_true.mp h
        rw [hsplit, run_splitNames hnames]
        exact congrArg (·, t) (List.flatMap_def.symm.trans (List.flatMap_pure_eq_map _ _))
      · rw [exec_singles, ofList_toList, exec_varDecl]
      · rw [functionMeanings_ofList, List.flatMap_map, functionMeanings_varDecl,
          ← ofList_toList ds, functionMeanings_ofList, toList_ofList]
        simp only [functionMeanings_single]
  · exact ⟨_, rfl, by simp [ofList], by simp [ofList]⟩

end

variable (I temps) in
/-- The head of a `for` loop becomes statements that do the same. -/
theorem run_prelude {init : Node (.opt .forInit)} (h : ∀ i ∈ init.toOption, i.bindsNames = true)
    (t : Context) :
    ∃ before, (Loops.prelude init).run t = (before, t) ∧
      I.exec temps [] (.ofList before) = I.exec temps [] init ∧
      I.functionMeanings temps (.ofList before) = I.functionMeanings temps init := by
  cases init with
  | none => exact ⟨[], rfl, by rw [ofList, exec_nil, exec_none], by simp⟩
  | some i =>
    cases i with
    | initDecl v =>
      obtain ⟨stmts, hrun, hexec, hfunctions⟩ := run_splitIfNeeded I temps (h (.initDecl v) rfl) t
      have hinit : I.functionMeanings temps (.initDecl v) = I.functionMeanings temps v :=
        functionMeanings_one rfl rfl
      exact ⟨stmts, hrun, by rw [hexec, exec_some, exec_initDecl],
        by rw [hfunctions, functionMeanings_some, hinit]⟩
    | initExpr e =>
      have hinit : I.functionMeanings temps (.initExpr e) = I.functionMeanings temps e :=
        functionMeanings_one rfl rfl
      refine ⟨[Build.exprStmt e], rfl, ?_, by simp [hinit]⟩
      rw [ofList, ofList, exec_cons, exec_nil, seq_done, exec_buildExprStmt, exec_some,
        exec_initExpr]

/-- An assignment of a value from a temporary to what is none. -/
theorem eval_assign_temporary {p : Pat} {e : Expr} (hp : tempTarget? temps p = .none)
    (he : isTemporary temps e = true) (span : Span) (bs : List (Body U V)) :
    I.eval temps (.assign span .assign p e) bs = do
      let v ← I.eval temps e []
      lift (I.assign p bs v)
      return v := by
  conv_lhs => unfold eval
  rw [hp]
  exact if_pos he

/-- The left side of an assignment is a pattern as it stands, or a name. -/
theorem assignTarget_cases {p q : Pat} (h : p.assignTarget? = .some q) :
    p.skeleton.assignTarget? = .some p.skeleton ∧ q = p ∨
      ∃ id, p = .exprPat (.ref id) ∧ q = .binder id := by
  unfold assignTarget? at h
  split at h
  case h_4 id =>
    cases h
    exact .inr ⟨id, rfl, rfl⟩
  case h_8 => cases h
  all_goals
    cases h
    refine .inl ⟨?_, rfl⟩
    rw [skeleton_eq_mapParts (c := .pat) nofun]
    first
      | rfl
      | change (exprPat (skeleton _)).assignTarget? = .some (exprPat (skeleton _))
        rw [skeleton_eq_mapParts (c := .expr) nofun]
        rfl

theorem assignTarget_skeleton {p q : Pat} (h : p.assignTarget? = .some q) :
    p.skeleton.assignTarget? = .some q.skeleton := by
  rcases assignTarget_cases h with ⟨hp, rfl⟩ | ⟨id, rfl, rfl⟩
  · exact hp
  · rw [skeleton_exprPat, skeleton_ref, skeleton_binder]
    rfl

theorem meanings_assignTarget {p q : Pat} (h : p.assignTarget? = .some q) :
    I.meanings temps q = I.meanings temps p := by
  rcases assignTarget_cases h with ⟨-, rfl⟩ | ⟨id, rfl, rfl⟩
  · rfl
  · simp [meanings_eq_flatMap, children]

theorem functionMeanings_assignTarget {p q : Pat} (h : p.assignTarget? = .some q) :
    I.functionMeanings temps q = I.functionMeanings temps p := by
  rcases assignTarget_cases h with ⟨-, rfl⟩ | ⟨id, rfl, rfl⟩
  · rfl
  · rw [functionMeanings_binder, functionMeanings_one (n := exprPat (.ref id)) rfl rfl,
      functionMeanings_ref]

theorem tempTarget_assignTarget {p q : Pat} (h : p.assignTarget? = .some q)
    (hclear : p.skeleton.Clear temps) : tempTarget? temps q.skeleton = .none := by
  rcases assignTarget_cases h with ⟨-, rfl⟩ | ⟨id, rfl, rfl⟩
  · generalize q.skeleton = q at hclear
    cases q with
    | binder id => exact if_neg (hclear.own (.head _))
    | _ => rfl
  · rw [skeleton_exprPat, skeleton_ref] at hclear
    rw [skeleton_binder]
    exact if_neg ((hclear.part (.head _)).own (.head _))

/-- A declaration of a name with a value. -/
theorem declare_name (kind : VarKind) (span : Span) (definite : Bool) (id : Ident) (e : Expr) :
    I.declare temps kind (.declarator span definite (.binder id) (.some e)) =
      evaluating (I.value temps e) fun v =>
        evaluating (I.bindName temps kind id (.some v)) fun _ => done := by
  have h : codeOf I temps (.declarator span definite (.binder id) (.some e)) = _ :=
    codeOf_declarator span definite (.binder id) (.some e)
  rw [codeOf, Prod.mk.injEq] at h
  rw [declare_declarator, h.1, h.2, codeOf_binder, codeOf_some, bindDeclarator, List.nil_append,
    ← value_eq, evaluating_bind]

variable {step : Ident}

/-- A name that is declared with the value of a step. -/
theorem exec_declareStep (hstep : step.name ∈ temps) (span dspan : Span) (ctxt : Nat)
    (kind : VarKind) (declare definite : Bool) (id : Ident) (init : Node (.opt .expr)) :
    let head : Node .forHead := .headDecl (.varDecl span ctxt kind declare
      (.ofList [.declarator dspan definite (.binder id) init]))
    I.exec temps [] (Declarations.single span ctxt kind declare
        (.declarator dspan definite (.binder id)
          (.some (Build.member (.ref step) "value")))) =
      bindRun I step.name (I.bindStep temps (I.meanings temps head) · head.skeleton) := by
  intro head
  have hhead : head.skeleton = .headDecl (.varDecl span ctxt kind declare
      (.cons (.declarator dspan definite (.binder id) init.skeleton) .nil)) := by
    simp only [head, ofList, skeleton_headDecl, skeleton_varDecl, skeleton_cons, skeleton_nil,
      skeleton_declarator, skeleton_binder]
  rw [exec_single, declare_name, value_field hstep, evaluating_map, evaluating_readTemp, hhead]
  rfl

/-- A target that the value of a step is assigned to. -/
theorem exec_assignStep (hstep : step.name ∈ temps) {p q : Pat} (hq : p.assignTarget? = .some q)
    (hclear : p.skeleton.Clear temps) :
    I.exec temps [] (Build.exprStmt (Build.assign q (Build.member (.ref step) "value"))) =
      bindRun I step.name
        (I.bindStep temps (I.meanings temps (.headPat p)) · (headPat p).skeleton) := by
  have hassign : Build.assign q (Build.member (.ref step) "value") = .assign .none .assign q
      (.member .none (.ref step) (.fixedKey .none (.name "value"))) := rfl
  have hmeanings : I.meanings temps (.headPat p) = I.meanings temps q :=
    (meanings_eq_flatMap I temps (c := .forHead) nofun).trans
      ((List.flatMap_singleton ..).trans (meanings_assignTarget hq).symm)
  have htemp : isTemporary temps
      (.member .none (.ref step) (.fixedKey .none (.name "value"))) = true := isTemporary_ref hstep
  have htarget : tempTarget? temps (codeOf I temps q).1 = .none := tempTarget_assignTarget hq hclear
  rw [exec_buildExprStmt, hassign, value_eq, codeOf_assign, codeOf_member, codeOf_ref,
    codeOf_fixedKey, eval_assign_temporary htarget htemp, eval_field _ (isTemporary_ref hstep),
    eval_ref _ hstep, evaluating_bind, evaluating_map, evaluating_readTemp, skeleton_headPat,
    hmeanings]
  simp only [evaluating_bind, evaluating_pure, List.append_nil, bindRun, Interp.bindStep,
    assignTarget_skeleton hq, Option.getD_some, codeOf]

/-- The value of a step is bound by statements that do what the head does. -/
theorem run_bindStep {head : Node .forHead} {b : StepBinding} (hb : stepBinding head = .ok b)
    (hnames : head.bindsNames = true) (hclear : head.skeleton.Clear temps) (t : Context) :
    ∃ bound, (bindStep (Build.member (.ref step) "value") b).run t = (bound, t) ∧
      (step.name ∈ temps → I.exec temps [] (.ofList bound) =
        bindRun I step.name (I.bindStep temps (I.meanings temps head) · head.skeleton)) ∧
      (I.functionMeanings temps (.ofList bound)).Subperm (I.functionMeanings temps head) := by
  cases head with
  | headDecl v =>
    simp only [stepBinding] at hb
    split at hb
    next hlength =>
      cases hb
      cases v with
      | varDecl span ctxt kind declare ds =>
        obtain ⟨d, hd⟩ := List.length_eq_one_iff.mp hlength
        obtain rfl : ds = .ofList [d] := by rw [← ofList_toList ds]; exact congrArg ofList hd
        cases d with
        | declarator dspan definite p init =>
          cases p with
          | binder id =>
            refine ⟨[Declarations.single span ctxt kind declare (.declarator dspan definite
              (.binder id) (.some (Build.member (.ref step) "value")))], rfl, fun hstep => ?_, ?_⟩
            · rw [ofList, ofList, exec_cons, exec_nil, seq_done, exec_declareStep hstep]
            · have hnone : I.functionMeanings temps (Build.member (.ref step) "value") = [] := by
                simp [Build.member, Build.access]
              simp [ofList, functionMeanings_single, hnone]
          | _ => cases hnames
    next => cases hb
  | headUsing => cases hb
  | headPat p =>
    simp only [stepBinding] at hb
    split at hb
    next q hq =>
      cases hb
      rw [skeleton_headPat] at hclear
      have hp : p.skeleton.Clear temps := hclear.part (.head _)
      refine ⟨_, rfl, fun hstep => ?_, ?_⟩
      · rw [ofList, ofList, exec_cons, exec_nil, seq_done, exec_assignStep hstep hq hp]
      · have hhead : I.functionMeanings temps (.headPat p) = I.functionMeanings temps q :=
          (functionMeanings_one rfl rfl).trans (functionMeanings_assignTarget hq).symm
        rw [hhead]
        simpa [ofList, Build.assign, Build.member, Build.access] using List.Subperm.refl _
    next => cases hb

end Loops

end PlainJs

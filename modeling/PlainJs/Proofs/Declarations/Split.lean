import PlainJs.Proofs.Weight

namespace PlainJs

open Node Build Declarations

namespace Measure

variable {known : List Diagnostic} {w : Measure known} {fr : Frame} {T : Terms}

/-- Statements in front of those that a computation gives. -/
theorem Costs.prepend {c : Cat} {a : Nat} {x : Lower (List (Node c))}
    (h : w.Costs T (w.all fr) a x) (l : List (Node c)) :
    w.Costs T (w.all fr) (w.all fr l + a) (do return l ++ (← x)) := by
  rw [Nat.add_comm]
  exact h.bind fun l' => .pure (by rw [all_append, Nat.add_comm])

/-- The weight of the names that a pattern binds. -/
def marks (w : Measure known) {c : Cat} (p : Node c) : Nat :=
  (p.boundIdents.map fun id => w.mark id.name).sum

theorem marks_cons {c : Cat} (a : Node c) (l : Node (.list c)) :
    w.marks (.cons a l) = w.marks a + w.marks l := by
  simp [marks, boundIdents]

variable (fr)

theorem costs_temp (kind : VarKind) (value : Expr) :
    w.Costs T (fun r => w.of fr r.2) (w.of fr value) (temp kind value) := by
  rw [← Nat.zero_add (w.of fr value)]
  exact (Costs.fresh "tmp" (by decide)).bind fun t => .pure (by simp)

theorem costs_newSource (kind : VarKind) (value : Expr) :
    w.Costs T (fun r => w.all fr r.2) (w.of fr value) (do
      let (t, s) ← temp kind value
      return (t, [s])) :=
  (costs_temp fr kind value).bind (b := 0) fun r => .pure (by simp)

theorem costs_source (kind : VarKind) (value : Expr) :
    w.Costs T (fun r => w.all fr r.2) (w.of fr value) (source kind value) := by
  unfold source
  cases value with
  | ref id =>
    refine .look fun s => ?_
    split
    · exact .pure (of_ref id).symm
    · exact costs_newSource fr kind (.ref id)
  | _ => exact costs_newSource fr kind _

theorem costs_memberKey (kind : VarKind) (k : Key) :
    w.Costs T (fun r => w.all fr r.2) (w.of fr k) (memberKey kind k) := by
  unfold memberKey
  split
  all_goals
    first
      | exact .pure (by simp)
      | rw [← Nat.zero_add (w.of fr _)]
        exact (Costs.fresh "key" (by decide)).bind fun t => .pure (by simp)

theorem of_memberKey (kind : VarKind) (k : Key) (s : Context) :
    w.of fr ((memberKey kind k).run s).1.1 = 0 := by
  unfold memberKey
  split
  all_goals
    first
      | exact of_fixedKey _ _
      | exact (of_computedKey _ _).trans (of_atom _ _)
      | exact (of_computedKey _ _).trans (of_ref _)

theorem costs_bindName (kind : VarKind) (id : Ident) (default : Option Expr) (value : Expr) :
    w.Costs T (w.all fr) (w.of fr value + (w.mark id.name + w.all fr default.toList))
      (bindName kind id default value) := by
  cases default with
  | none => exact .pure (by simp; omega)
  | some e => exact (costs_temp fr kind value).bind fun r => .pure (by simp [orDefault])

variable {fr} in
theorem all_removals {seen : List Key} (h : ∀ k ∈ seen, w.of fr k = 0) (target : Ident) :
    w.all fr (removals target seen) = 0 := by
  induction seen with
  | nil => rfl
  | cons k seen ih =>
    obtain ⟨hk, hseen⟩ := List.forall_mem_cons.mp h
    have htail := ih hseen
    simp only [removals] at htail
    simp [removals, hk, htail]

theorem patternFault_cons {c : Cat} {a : Node c} {l : Node (.list c)}
    (h : (cons a l).patternFault = .none) : a.patternFault = .none ∧ l.patternFault = .none := by
  have hor : (a.patternFault <|> l.patternFault) = .none := h
  simpa using hor

theorem costs_pattern (kind : VarKind) :
    (∀ (p : Pat) value, p.patternFault = .none →
      w.Costs T (w.all fr) (w.of fr value + (w.marks p + w.of fr p))
        (Declarations.bind kind p value)) ∧
      (∀ (elems : Node (.list (.opt .pat))) src index, elems.patternFault = .none →
        w.Costs T (w.all fr) (w.marks elems + w.of fr elems) (bindElems kind src index elems)) ∧
      ∀ (props : Node (.list .patProp)) src seen, props.patternFault = .none →
        (∀ k ∈ seen, w.of fr k = 0) →
        w.Costs T (w.all fr) (w.marks props + w.of fr props) (bindProps kind src seen props) := by
  apply patternInduction
  case binder =>
    intro id value h
    rw [Declarations.bind]
    exact .pure (by simp [marks, boundIdents]; omega)
  case defaultPat =>
    intro span p e ih value h
    rw [Declarations.bind]
    refine (costs_temp fr kind value).bind fun r => ?_
    refine ((ih (orDefault r.1 e) h).prepend [r.2]).congr ?_
    simp only [orDefault, marks, boundIdents, of_defaultPat, of_buildCond, of_buildBinary, of_ref,
      of_undefined, all_cons, all_nil]
    omega
  case arrayPat =>
    intro span optional elems ih value h
    rw [Declarations.bind]
    refine (costs_source fr kind value).bind fun r => ?_
    rw [of_arrayPat]
    exact (ih r.1 0 h).prepend r.2
  case objectPat =>
    intro span optional props ih value h
    rw [Declarations.bind]
    refine (costs_source fr kind value).bind fun r => ?_
    rw [of_objectPat]
    exact (ih r.1 [] h (List.forall_mem_nil _)).prepend r.2
  case restPat =>
    intro span dots p ih value h
    rw [Declarations.bind, of_restPat]
    exact ih value h
  case exprPat | invalidPat =>
    intro _ value h
    cases h
  case noElems =>
    intro src index h
    rw [bindElems]
    exact .pure (by simp [marks, boundIdents])
  case hole =>
    intro rest ih src index h
    obtain ⟨-, hrest⟩ := patternFault_cons h
    rw [marks_cons, of_cons, bindElems, of_none, Nat.zero_add]
    exact (ih src (index + 1) hrest).congr (by simp [marks, boundIdents])
  case elem =>
    intro p rest hp ih src index h
    obtain ⟨ha, hrest⟩ := patternFault_cons h
    rw [marks_cons, of_cons, bindElems]
    have hvalue : w.of fr (if p.isRest then elemsFrom src index
        else computed (.ref src) (Build.num index)) = 0 := by
      split <;> simp [elemsFrom]
    refine ((hp _ ha).bind (b := w.marks rest + w.of fr rest) fun l => ?_).congr ?_
    · exact (ih src (index + 1) hrest).prepend l
    · rw [hvalue, of_some]
      simp only [marks, boundIdents]
      omega
  case noProps =>
    intro src seen h hseen
    rw [bindProps]
    exact .pure (by simp [marks, boundIdents])
  case keyedPat =>
    intro k p rest hp ih src seen h hseen
    obtain ⟨ha, hrest⟩ := patternFault_cons h
    rw [marks_cons, of_cons, bindProps, of_keyedPat]
    refine ((costs_memberKey fr kind k).bind_of (Q := fun r => w.of fr r.1 = 0)
      (b := w.marks p + w.of fr p + (w.marks rest + w.of fr rest))
      (fun s _ => of_memberKey fr kind k s) fun r hr => ?_).congr ?_
    · refine ((hp _ ha).bind (b := w.all fr r.2 + (w.marks rest + w.of fr rest))
        fun l => ?_).congr ?_
      · have hseen' : ∀ k ∈ seen ++ [r.1], w.of fr k = 0 := by
          simpa [or_imp, forall_and] using ⟨hseen, hr⟩
        refine ((ih src _ hrest hseen').prepend (r.2 ++ l)).congr ?_
        rw [all_append]
        omega
      · simp only [of_access, of_ref, hr]
        omega
    · simp only [marks, boundIdents]
      omega
  case shortPat =>
    intro span id default rest ih src seen h hseen
    obtain ⟨-, hrest⟩ := patternFault_cons h
    rw [marks_cons, of_cons, bindProps, of_shortPat]
    refine ((costs_bindName fr kind id _ _).bind (b := w.marks rest + w.of fr rest)
      fun l => ?_).congr ?_
    · have hseen' : ∀ k ∈ seen ++ [.fixedKey id.span (.name id.name)], w.of fr k = 0 := by
        simpa [or_imp, forall_and] using hseen
      exact (ih src _ hrest hseen').prepend l
    · have hdefault : w.all fr default.toOption.toList = w.of fr default := by
        rw [← of_ofOption, ofOption_toOption]
      simp only [of_access, of_ref, of_fixedKey, hdefault, marks, boundIdents, List.map_cons,
        List.map_nil, List.sum_cons, List.sum_nil]
      omega
  case restProp =>
    intro span dots p rest hp ih src seen h hseen
    obtain ⟨ha, hrest⟩ := patternFault_cons h
    rw [marks_cons, of_cons]
    cases p with
    | binder id =>
      rw [bindProps]
      refine ((hp (ownCopy src) rfl).bind (b := w.marks rest + w.of fr rest) fun l => ?_).congr ?_
      · refine ((ih src seen hrest hseen).prepend _).congr ?_
        have hremoved := all_removals hseen id
        simp only [binder?, Option.map_some, Option.getD_some, all_append, hremoved]
        rfl
      · simp only [ownCopy, of_buildCall, of_buildMember, of_name, all_cons, of_emptyObject,
          of_ref, all_nil, of_binder, of_restProp, marks, boundIdents]
        omega
    | _ => cases ha

/-- The statements that bind a pattern hold what the pattern and its value hold. -/
theorem costs_bind (kind : VarKind) (p : Pat) (value : Expr) (h : p.patternFault = .none) :
    w.Costs T (w.all fr) (w.of fr value + (w.marks p + w.of fr p))
      (Declarations.bind kind p value) :=
  (costs_pattern fr kind).1 p value h

theorem needsSplit_eq_false {v : VarDecl} (h : v.needsSplit = false) :
    isSettledShape known v.declShape = true := by
  cases v with
  | varDecl span ctxt kind declare decls =>
    cases decls with
    | nil => rfl
    | cons d rest =>
      cases rest with
      | nil =>
        cases d with
        | declarator dspan definite p init =>
          cases p with
          | binder id => rfl
          | _ => exact Bool.noConfusion h
      | cons d' rest => simp [needsSplit, declarators] at h

/-- Looking for a fault changes nothing, and a pattern without fault can be split. -/
theorem run_declaratorFault (span : Span) (p : Pat) (init : Option Expr) (s : Context) :
    ∃ fault, (declaratorFault span p init).run s = (fault, s) ∧
      (fault = .none → p.isBinder = true ∨ init.isSome = true ∧ p.patternFault = .none) := by
  by_cases hbinder : p.isBinder = true
  · exact ⟨.none, by simp [declaratorFault, hbinder]; rfl, fun _ => .inl hbinder⟩
  · cases init with
    | none => exact ⟨.some .noInitializer, by simp [declaratorFault, hbinder]; rfl, nofun⟩
    | some e =>
      cases hfault : p.patternFault with
      | some fault => exact ⟨.some fault, by simp [declaratorFault, hbinder, hfault]; rfl, nofun⟩
      | none =>
        refine ⟨if p.hasObjectRest && s.scopes.isBoundAt "Object" span then .some .objectBound
          else .none, ?_, fun _ => .inr ⟨rfl, rfl⟩⟩
        unfold declaratorFault
        simp only [hbinder, hfault]
        cases p.hasObjectRest with
        | false => rfl
        | true =>
          cases h : s.scopes.isBoundAt "Object" span <;>
            (simp [Lower.isBoundAt, h]; rfl)

theorem costs_splitDeclarator (span : Span) (ctxt : Nat) (kind : VarKind) (declare : Bool)
    (d : Declarator) :
    w.Costs T (w.all fr) (w.of fr d) (splitDeclarator span ctxt kind declare d) := by
  cases d with
  | declarator dspan definite p init =>
  intro s hs
  obtain ⟨fault, hrun, hfault⟩ := run_declaratorFault dspan p init.toOption s
  let whole : Stmt := .declStmt (.declVar (.varDecl span ctxt kind declare
    (.cons (.declarator dspan definite p init) .nil)))
  have hwhole (h : (p.isPlainTarget || isReported known dspan) = true) :
      w.all fr [whole] = w.of fr (.declarator dspan definite p init) := by
    simp only [whole, all_cons, all_nil, of_declStmt]
    rw [of_declVar, of_varDecl, of_cons, of_nil]
    · rfl
    · simpa [isSettledShape, declShape] using h
  cases fault with
  | some fault =>
    have hout : (splitDeclarator span ctxt kind declare (.declarator dspan definite p init)).run s =
        ([whole], s.record ⟨.unsupported, dspan, fault.message⟩) := by
      simp only [splitDeclarator, StateT.run_bind, hrun]
      rfl
    rw [hout]
    refine ⟨.record _ rfl .refl, fun hends _ => ?_⟩
    have hmem := hends.known (List.mem_append_right _ (.head _))
    rw [hwhole (by rw [isReported_of_mem hmem, Bool.or_true])]
    rfl
  | none =>
    by_cases hbinder : p.isBinder = true
    · have hout : (splitDeclarator span ctxt kind declare (.declarator dspan definite p init)).run s =
          ([whole], s) := by
        simp only [splitDeclarator, StateT.run_bind, hrun, hbinder]
        cases init <;> rfl
      rw [hout]
      refine ⟨.refl, fun _ _ => ?_⟩
      rw [hwhole (by rw [isPlainTarget_eq_isBinder, hbinder]; rfl)]
    · obtain ⟨hinit, hpat⟩ := (hfault rfl).resolve_left hbinder
      cases init with
      | none => cases hinit
      | some e =>
        have hout : (splitDeclarator span ctxt kind declare
            (.declarator dspan definite p (.some e))).run s = (Declarations.bind kind p e).run s := by
          rw [toOption] at hrun
          simp only [splitDeclarator, StateT.run_bind, toOption, hrun, if_neg hbinder]
          rfl
        rw [hout]
        refine (costs_bind fr kind p e hpat).congr ?_ s hs
        rw [of_declarator, of_some, marks]
        omega

theorem costs_split (v : VarDecl) : w.Costs T (w.all fr) (w.of fr v) (split v) := by
  cases v with
  | varDecl span ctxt kind declare decls =>
  rw [of_varDecl, ← all_toList]
  refine (Costs.mapM (fun d => costs_splitDeclarator fr span ctxt kind declare d) decls.toList).bind
    (b := 0) fun parts => .pure ?_
  rw [all_flatten, Nat.add_zero]

theorem costs_splitIfNeeded (v : VarDecl) :
    w.Costs T (w.all fr) (w.of fr v) (splitIfNeeded v) := by
  unfold splitIfNeeded
  split
  next => exact costs_split fr v
  next h =>
    refine .pure ?_
    rw [all_cons, of_declStmt, of_declVar (needsSplit_eq_false (by simpa using h)), all_nil,
      Nat.add_zero]

end Measure

end PlainJs

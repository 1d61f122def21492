import PlainJs.Proofs.Declarations.Split

namespace PlainJs

open Node Build

namespace Declarations

variable {kind : VarKind} {value : Expr} {src : Ident} {i : Nat} {seen : List Key} {s : Context}

/-- The next temporary. -/
def tempName (s : Context) : Ident := .ofName (s.names.pick "tmp")

/-- The next variable for a computed key. -/
def keyName (s : Context) : Ident := .ofName (s.names.pick "key")

/-- A pattern reads from a new temporary, or from a variable that is a temporary already. -/
theorem run_source (kind : VarKind) (value : Expr) (s : Context) :
    (source kind value).run s =
      ((tempName s, [declare kind (tempName s) (.some value)]), s.withFresh "tmp") ∨
    ∃ id, value = .ref id ∧ id.name ∈ s.names.made ∧ (source kind value).run s = ((id, []), s) := by
  cases value with
  | ref id =>
    cases hmade : s.names.isMade id.name with
    | false =>
      left
      simp only [source, StateT.run_bind]
      change StateT.run (if s.names.isMade id.name then _ else _ : Lower _) s = _
      rw [hmade]
      rfl
    | true =>
      right
      refine ⟨id, rfl, by simpa [NameSupply.isMade] using hmade, ?_⟩
      simp only [source, StateT.run_bind]
      change StateT.run (if s.names.isMade id.name then _ else _ : Lower _) s = _
      rw [hmade]
      rfl
  | _ => exact .inl rfl

/-- A key stands in a member access as it is, or its value is kept in a new variable. -/
theorem run_memberKey (kind : VarKind) (k : Key) (s : Context) :
    (∃ k', (memberKey kind k).run s = ((k', []), s)) ∨
    ∃ span e, k = .computedKey span e ∧ (memberKey kind k).run s =
      ((.computedKey .none (.ref (keyName s)), [declare kind (keyName s) (.some e)]),
        s.withFresh "key") := by
  unfold memberKey
  split
  case h_7 span e _ _ => exact .inr ⟨span, e, rfl, rfl⟩
  all_goals exact .inl ⟨_, rfl⟩

theorem run_bindName_none (id : Ident) : (bindName kind id .none value).run s =
    ([declarePat .none kind (.binder id) (.some value)], s) := rfl

theorem run_bindName_some (id : Ident) (e : Expr) : (bindName kind id (.some e) value).run s =
    ([declare kind (tempName s) (.some value),
      declarePat .none kind (.binder id) (.some (orDefault (tempName s) e))],
      s.withFresh "tmp") := rfl

theorem run_bind_binder (id : Ident) : (Declarations.bind kind (.binder id) value).run s =
    ([declarePat .none kind (.binder id) (.some value)], s) := by
  rw [Declarations.bind]
  rfl

theorem run_bind_defaultPat (span : Span) (p : Pat) (e : Expr) :
    (Declarations.bind kind (.defaultPat span p e) value).run s =
      let r := (Declarations.bind kind p (orDefault (tempName s) e)).run (s.withFresh "tmp")
      (declare kind (tempName s) (.some value) :: r.1, r.2) := by
  rw [Declarations.bind]
  rfl

theorem run_bind_arrayPat (span : Span) (optional : Bool) (elems : Node (.list (.opt .pat))) :
    (Declarations.bind kind (.arrayPat span optional elems) value).run s =
      let r := (source kind value).run s
      let r' := (bindElems kind r.1.1 0 elems).run r.2
      (r.1.2 ++ r'.1, r'.2) := by
  rw [Declarations.bind]
  rfl

theorem run_bind_objectPat (span : Span) (optional : Bool) (props : Node (.list .patProp)) :
    (Declarations.bind kind (.objectPat span optional props) value).run s =
      let r := (source kind value).run s
      let r' := (bindProps kind r.1.1 [] props).run r.2
      (r.1.2 ++ r'.1, r'.2) := by
  rw [Declarations.bind]
  rfl

theorem run_bind_restPat (span dots : Span) (p : Pat) :
    (Declarations.bind kind (.restPat span dots p) value).run s =
      (Declarations.bind kind p value).run s := by
  rw [Declarations.bind]

theorem run_bindElems_nil : (bindElems kind src i .nil).run s = ([], s) := by
  rw [bindElems]
  rfl

theorem run_bindElems_none (rest : Node (.list (.opt .pat))) :
    (bindElems kind src i (.cons .none rest)).run s = (bindElems kind src (i + 1) rest).run s := by
  rw [bindElems]

/-- What an element of an array pattern is bound to. -/
def elemValue (src : Ident) (i : Nat) (p : Pat) : Expr :=
  if p.isRest then elemsFrom src i else computed (.ref src) (Build.num i)

theorem run_bindElems_some (p : Pat) (rest : Node (.list (.opt .pat))) :
    (bindElems kind src i (.cons (.some p) rest)).run s =
      let r := (Declarations.bind kind p (elemValue src i p)).run s
      let r' := (bindElems kind src (i + 1) rest).run r.2
      (r.1 ++ r'.1, r'.2) := by
  rw [bindElems]
  rfl

theorem run_bindProps_nil : (bindProps kind src seen .nil).run s = ([], s) := by
  rw [bindProps]
  rfl

theorem run_bindProps_keyed (k : Key) (p : Pat) (rest : Node (.list .patProp)) :
    (bindProps kind src seen (.cons (.keyedPat k p) rest)).run s =
      let r := (memberKey kind k).run s
      let r' := (Declarations.bind kind p (access (.ref src) r.1.1)).run r.2
      let r'' := (bindProps kind src (seen ++ [r.1.1]) rest).run r'.2
      (r.1.2 ++ r'.1 ++ r''.1, r''.2) := by
  rw [bindProps]
  rfl

/-- The key of a property that has no key of its own. -/
def shortKey (id : Ident) : Key := .fixedKey id.span (.name id.name)

theorem run_bindProps_short (span : Span) (id : Ident) (default : Node (.opt .expr))
    (rest : Node (.list .patProp)) :
    (bindProps kind src seen (.cons (.shortPat span id default) rest)).run s =
      let r := (bindName kind id default.toOption (access (.ref src) (shortKey id))).run s
      let r' := (bindProps kind src (seen ++ [shortKey id]) rest).run r.2
      (r.1 ++ r'.1, r'.2) := by
  rw [bindProps]
  rfl

theorem run_bindProps_rest (span dots : Span) (p : Pat) (rest : Node (.list .patProp)) :
    (bindProps kind src seen (.cons (.restProp span dots p) rest)).run s =
      let r := (Declarations.bind kind p (ownCopy src)).run s
      let r' := (bindProps kind src seen rest).run r.2
      (r.1 ++ (p.binder?.map (removals · seen)).getD [] ++ r'.1, r'.2) := by
  rw [bindProps]
  rfl

/-- What comes after `s` by drawing names only. -/
structure Draws (s t : Context) : Prop where
  steps : s.Steps t
  diagnostics : t.diagnostics = s.diagnostics

namespace Draws

theorem refl (s : Context) : Draws s s := ⟨.refl, rfl⟩

theorem trans {s t u : Context} (h : Draws s t) (h' : Draws t u) : Draws s u :=
  ⟨h.steps.trans h'.steps, h'.diagnostics.trans h.diagnostics⟩

theorem fresh (s : Context) {hint : String} (stem : hint ∈ NameSupply.hints) :
    Draws s (s.withFresh hint) :=
  ⟨.fresh hint stem .refl, rfl⟩

theorem made {s t : Context} (h : Draws s t) : s.names.made ⊆ t.names.made := h.steps.made

theorem reserved {s t : Context} (h : Draws s t) : s.names.reserved ⊆ t.names.reserved :=
  h.steps.grows.reserved

end Draws

theorem draws_temp (s : Context) : Draws s (s.withFresh "tmp") := .fresh s (by decide)

theorem draws_source (kind : VarKind) (value : Expr) (s : Context) :
    Draws s ((source kind value).run s).2 := by
  rcases run_source kind value s with hrun | ⟨id, -, -, hrun⟩
  · rw [hrun]
    exact draws_temp s
  · rw [hrun]
    exact .refl _

theorem draws_memberKey (kind : VarKind) (k : Key) (s : Context) :
    Draws s ((memberKey kind k).run s).2 := by
  rcases run_memberKey kind k s with ⟨k', hrun⟩ | ⟨span, e, -, hrun⟩
  · rw [hrun]
    exact .refl _
  · rw [hrun]
    exact .fresh s (by decide)

theorem draws_bindName (kind : VarKind) (id : Ident) (default : Option Expr) (value : Expr)
    (s : Context) : Draws s ((bindName kind id default value).run s).2 := by
  cases default with
  | none => exact .refl _
  | some e => exact draws_temp s

theorem draws_pattern (kind : VarKind) :
    (∀ p value s, Draws s ((Declarations.bind kind p value).run s).2) ∧
      (∀ elems src i s, Draws s ((bindElems kind src i elems).run s).2) ∧
        ∀ props src seen s, Draws s ((bindProps kind src seen props).run s).2 := by
  apply patternInduction
  case defaultPat =>
    intro span p e ih value s
    rw [run_bind_defaultPat]
    exact (draws_temp s).trans (ih _ _)
  case arrayPat =>
    intro span optional elems ih value s
    rw [run_bind_arrayPat]
    exact (draws_source kind value s).trans (ih _ 0 _)
  case objectPat =>
    intro span optional props ih value s
    rw [run_bind_objectPat]
    exact (draws_source kind value s).trans (ih _ [] _)
  case restPat =>
    intro span dots p ih value s
    rw [run_bind_restPat]
    exact ih value s
  case noElems =>
    intro src i s
    rw [run_bindElems_nil]
    exact .refl _
  case hole =>
    intro rest ih src i s
    rw [run_bindElems_none]
    exact ih src (i + 1) s
  case elem =>
    intro p rest hp ih src i s
    rw [run_bindElems_some]
    exact (hp _ s).trans (ih src (i + 1) _)
  case noProps =>
    intro src seen s
    rw [run_bindProps_nil]
    exact .refl _
  case keyedPat =>
    intro k p rest hp ih src seen s
    rw [run_bindProps_keyed]
    exact (draws_memberKey kind k s).trans ((hp _ _).trans (ih src _ _))
  case shortPat =>
    intro span id default rest ih src seen s
    rw [run_bindProps_short]
    exact (draws_bindName kind id _ _ s).trans (ih src _ _)
  case restProp =>
    intro span dots p rest hp ih src seen s
    rw [run_bindProps_rest]
    exact (hp _ s).trans (ih src seen _)
  all_goals
    intro _ value s
    rw [Declarations.bind]
    exact .refl _

theorem draws_bind (kind : VarKind) (p : Pat) (value : Expr) (s : Context) :
    Draws s ((Declarations.bind kind p value).run s).2 :=
  (draws_pattern kind).1 p value s

theorem draws_bindElems (kind : VarKind) (src : Ident) (i : Nat)
    (elems : Node (.list (.opt .pat))) (s : Context) :
    Draws s ((bindElems kind src i elems).run s).2 :=
  (draws_pattern kind).2.1 elems src i s

theorem draws_bindProps (kind : VarKind) (src : Ident) (seen : List Key)
    (props : Node (.list .patProp)) (s : Context) :
    Draws s ((bindProps kind src seen props).run s).2 :=
  (draws_pattern kind).2.2 props src seen s

/-- A declaration of one declarator. -/
def single (span : Span) (ctxt : Nat) (kind : VarKind) (declare : Bool) (a : Declarator) : Stmt :=
  .declStmt (.declVar (.varDecl span ctxt kind declare (.cons a .nil)))

/-- A declarator is reported and stays, or it binds a name and stays, or its pattern is bound. -/
theorem run_splitDeclarator (span : Span) (ctxt : Nat) (kind : VarKind) (declare : Bool)
    (dspan : Span) (definite : Bool) (p : Pat) (o : Node (.opt .expr)) (s : Context) :
    let a : Declarator := .declarator dspan definite p o
    let r := (splitDeclarator span ctxt kind declare a).run s
    (∃ fault, (declaratorFault dspan p o.toOption).run s = (.some fault, s) ∧
        r = ([single span ctxt kind declare a],
          s.record ⟨.unsupported, dspan, fault.message⟩)) ∨
      p.isBinder = true ∧ r = ([single span ctxt kind declare a], s) ∨
        p.patternFault = .none ∧ ∃ e, o = .some e ∧ r = (Declarations.bind kind p e).run s := by
  intro a r
  obtain ⟨fault, hrun, hfault⟩ := Measure.run_declaratorFault dspan p o.toOption s
  cases fault with
  | some fault =>
    refine .inl ⟨fault, hrun, ?_⟩
    simp only [r, a, splitDeclarator, StateT.run_bind, hrun]
    rfl
  | none =>
    by_cases hbinder : p.isBinder = true
    · refine .inr (.inl ⟨hbinder, ?_⟩)
      simp only [r, a, splitDeclarator, StateT.run_bind, hrun, hbinder]
      cases o <;> rfl
    · obtain ⟨hinit, hpat⟩ := (hfault rfl).resolve_left hbinder
      cases o with
      | none => cases hinit
      | some e =>
        refine .inr (.inr ⟨hpat, e, rfl, ?_⟩)
        rw [toOption] at hrun
        simp only [r, a, splitDeclarator, StateT.run_bind, toOption, hrun, if_neg hbinder]
        rfl

theorem steps_splitDeclarator (span : Span) (ctxt : Nat) (kind : VarKind) (declare : Bool)
    (a : Declarator) (s : Context) :
    s.Steps ((splitDeclarator span ctxt kind declare a).run s).2 := by
  cases a with
  | declarator dspan definite p o =>
    rcases run_splitDeclarator span ctxt kind declare dspan definite p o s with
      ⟨fault, -, hrun⟩ | ⟨-, hrun⟩ | ⟨-, e, -, hrun⟩
    · rw [hrun]
      exact .record _ Bool.noConfusion .refl
    · rw [hrun]
      exact .refl
    · rw [hrun]
      exact (draws_bind kind p e s).steps

/-- The parts of a declaration, split one after the other. -/
theorem steps_splitDeclarators (span : Span) (ctxt : Nat) (kind : VarKind) (declare : Bool)
    (l : List Declarator) (s : Context) :
    s.Steps ((l.mapM (splitDeclarator span ctxt kind declare)).run s).2 := by
  induction l generalizing s with
  | nil => exact .refl
  | cons a l ih =>
    rw [List.mapM_cons]
    exact (steps_splitDeclarator span ctxt kind declare a s).trans (ih _)

theorem steps_split (v : VarDecl) (s : Context) : s.Steps ((split v).run s).2 := by
  cases v with
  | varDecl span ctxt kind declare decls =>
    exact steps_splitDeclarators span ctxt kind declare decls.toList s

end Declarations

end PlainJs

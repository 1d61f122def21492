import PlainJs.Proofs.Ledger

namespace PlainJs

open Node

namespace Node

/-- The name of a function or a class that is bound inside it. -/
def ownInner : {c : Cat} → Node c → List String
  | _, .function name _ | _, .classExpr name _ | _, .exportClass _ name _ =>
    name.toList.map (·.name)
  | _, .declClass _ name _ => [name.name]
  | _, _ => []

/-- The names that a node binds itself. -/
def ownBound {c : Cat} (n : Node c) : List String := n.ownDeclared ++ n.ownInner

/-- The names that are bound anywhere in a tree. -/
def bound {c : Cat} (n : Node c) : List String := n.gather ownBound

end Node

namespace Weight

variable {known : List Diagnostic} {x : String}

/-- Counts the bindings of one name, as long as it is not handed out. -/
def bindings (known : List Diagnostic) (x : String) : Weight known where
  own _ {_} n := n.ownBound.count x
  mark y := [y].count x
  held := NameSupply.unweighed
  admits y := y = x → ∀ hint ∈ NameSupply.hints, ¬NameSupply.Stems hint x
  markLabel _ := 0
  jump _ := 0
  sees := False
  own_glue {_ _ n} h := by
    have hown : n.ownDeclared = [] ∧ n.ownInner = [] := by
      cases n
      case function name _ => cases name <;> first | exact ⟨rfl, rfl⟩ | cases h
      case classExpr name _ => cases name <;> first | exact ⟨rfl, rfl⟩ | cases h
      all_goals first | exact ⟨rfl, rfl⟩ | cases h
    rw [ownBound, hown.1, hown.2]
    rfl
  own_declarator {fr span definite p init} := by
    change (p.boundIdents.map Ident.name ++ []).count x = _
    rw [List.append_nil]
    induction p.boundIdents with
    | nil => rfl
    | cons id ids ih =>
      rw [List.map_cons, List.map_cons, List.sum_cons, ← ih, count_singleton_append]
  own_parts h := by
    rw [ownBound, ownBound, ownDeclared_of_parts (h.imp fun _ hk => hk.1),
      h.form_eq ownInner fun m => by cases m <;> rfl]
  held_fresh s hint hhint hadmits := by
    have hne : s.pick hint ≠ x := fun heq => hadmits heq hint hhint (heq ▸ s.stems_pick hint)
    simp [hne, NameSupply.unweighed]
  own_handler {_ _ _ _} := congrArg (List.count x) (List.append_nil _)
  own_class := List.count_append
  own_labeled _ := rfl
  own_break _ := rfl
  own_leave _ := rfl
  own_frame _ := rfl
  held_freshLabel := NameSupply.unweighed_freshLabel

theorem bindings_eq {fr : Frame} {c : Cat} (n : Node c) :
    (bindings known x).of fr n = n.bound.count x := by
  induction n using partsInduction generalizing fr with
  | step n ih =>
    rw [Measure.of_eq, Measure.inner, List.map_congr_left fun k hk => ih hk, bound, count_gather]
    rfl

theorem ready_bindings {stage : Stage} {p : Program} {N : List String}
    (h : (bindings known x).of .top p = 0) :
    stage.Ready (bindings known x) (bindings known x) N p where
  turns := {
    held := rfl
    admits := rfl
    agree _ := rfl
    rewritten {fr c n} hn := by
      cases n <;> first | rfl | (cases stage <;> exact Bool.noConfusion hn)
    sees := rfl
    jump := rfl
    spares {fr c n} hn := by cases n <;> first | rfl | exact Bool.noConfusion hn }
  spread _ {fr c n} hn := by cases n <;> first | rfl | exact Bool.noConfusion hn
  tracks := False.elim
  clean _ _ := .inl ⟨fun _ _ => rfl, h⟩

end Weight

/-- What is neither declared in the program nor handed out is not declared in the lowered
program. -/
theorem Lowering.notMem_bound_stages {p : Program} {cx : Context} {x : String}
    (hfree : x ∉ p.bound) (hsafe : x ∈ ((stages p).run cx).2.names.made →
      ∀ hint ∈ NameSupply.hints, ¬NameSupply.Stems hint x) :
    x ∉ ((stages p).run cx).1.bound := by
  let r := (stages p).run cx
  let w := Weight.bindings r.2.diagnostics x
  have h : w.Ends r.2 → w.of .top r.1 = 0 := by
    refine stages_induction (I := fun _ q cx => w.Ends cx → w.of .top q = 0) (fun h _ => h) ?_ ?_
    · intro before after stage q cx _ h _ _ hends
      have hzero := h (hends.before (stage.steps_pass q cx))
      exact stage.of_pass_eq_zero (Weight.ready_bindings hzero) (fun _ _ => rfl)
        ⟨hends, fun _ _ => rfl, .inr fun _ _ _ => rfl⟩ hzero
    · intro _
      exact (Weight.bindings_eq p).trans (List.count_eq_zero_of_not_mem hfree)
  refine List.count_eq_zero.mp ((Weight.bindings_eq r.1).symm.trans (h ⟨?_, ?_⟩))
  · exact List.Subset.refl _
  · rintro y hy rfl
    exact hsafe hy

/-- If the name of the key helper occurs in the program, or if it is none that hints for variables
give, then no declaration of the lowered program captures the helper, provided that none of the
given program does. -/
theorem lowerProgram_spares_keyHelper (config : Config) (p : Program)
    (hvalid : config.validate = .ok ()) (hfree : config.keyHelper ∉ p.bound)
    (hsafe : config.keyHelper ∈ (Context.start config p).names.reserved ∨
      ∀ hint ∈ NameSupply.hints, ¬NameSupply.Stems hint config.keyHelper) :
    ∃ out, lowerProgram config p = .ok out ∧ config.keyHelper ∉ out.program.bound := by
  refine ⟨_, Lowering.lowerProgram_eq hvalid p, ?_⟩
  rw [Lowering.lowerWith_eq]
  refine Lowering.notMem_bound_stages hfree fun hmade => hsafe.resolve_left fun hknown => ?_
  have htidy := (Lowering.steps_stages p (.start config p)).tidy (NameSupply.tidy_avoiding _)
  exact htidy.apart _ hmade hknown

/-- `for (const k in o) f(k);` -/
def keyRounds : Program :=
  let head : VarDecl := .varDecl ⟨6, 13⟩ 0 .const false (.ofList [
    .declarator ⟨12, 13⟩ false (.binder (.ofName "k")) .none])
  .scriptProgram ⟨1, 25⟩ none (.ofList [
    .forInStmt ⟨1, 25⟩ (.headDecl head) (Build.name "o")
      (Build.exprStmt (Build.call (Build.name "f") [Build.name "k"]))])

theorem lowerProgram_spares_keyHelper_keyRounds :
    Config.default.validate = .ok () ∧ Config.default.keyHelper ∉ keyRounds.bound ∧
      ∃ out, lowerProgram .default keyRounds = .ok out ∧ "$forIn" ∉ out.program.bound := by
  have hvalid : Config.default.validate = .ok () := by decide +kernel
  have hfree : Config.default.keyHelper ∉ keyRounds.bound := by decide +kernel
  have hsafe : ∀ hint ∈ NameSupply.hints, ¬hint.toList <+: Config.default.keyHelper.toList := by
    decide +kernel
  exact ⟨hvalid, hfree, lowerProgram_spares_keyHelper .default keyRounds hvalid hfree
    (.inr fun hint hhint hstems => hsafe hint hhint hstems.isPrefix)⟩

/-- A helper with the name of a hint is captured by the variable that holds its result:
`let keys = keys(o);` -/
theorem lowerProgram_captures_keyHelper_keyRounds :
    let config : Config := { Config.default with keyHelper := "keys" }
    config.validate = .ok () ∧ "keys" ∉ keyRounds.bound ∧
      ∃ out, lowerProgram config keyRounds = .ok out ∧ "keys" ∈ out.program.bound := by
  intro config
  have hvalid : config.validate = .ok () := by decide +kernel
  have hfree : "keys" ∉ keyRounds.bound := by decide +kernel
  have hbound : "keys" ∈ (lowerWith config keyRounds).program.bound := by decide +kernel
  exact ⟨hvalid, hfree, _, Lowering.lowerProgram_eq hvalid keyRounds, hbound⟩

end PlainJs

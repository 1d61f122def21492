import PlainJs.Proofs.Carried

namespace PlainJs

/-- The forms of expression that have effects of their own. The chain around an optional call and the
call in it have a range each. -/
inductive EffectKind where
  | call | optChain | optCall | newCall | assign | update | awaitExpr | yieldExpr | tagged
deriving DecidableEq, Repr

namespace Node

/-- The effects of a node itself, with their ranges. -/
def ownEffects : {c : Cat} → Node c → List (EffectKind × Span)
  | _, .call span _ _ _ => [(.call, span)]
  | _, .optCall span _ baseSpan _ _ _ => [(.optChain, span), (.optCall, baseSpan)]
  | _, .newCall span _ _ _ => [(.newCall, span)]
  | _, .assign span _ _ _ => [(.assign, span)]
  | _, .update span _ _ _ => [(.update, span)]
  | _, .awaitExpr span _ => [(.awaitExpr, span)]
  | _, .yieldExpr span _ _ => [(.yieldExpr, span)]
  | _, .tagged span .. => [(.tagged, span)]
  | _, _ => []

/-- The effects in a tree that stand for source text, each as often as it is there. -/
def effects {c : Cat} (n : Node c) : List (EffectKind × Span) :=
  (n.gather ownEffects).filter fun e => !e.2.isDummy

variable {c : Cat} {n n' : Node c}

theorem count_effects (n : Node c) (e : EffectKind × Span) :
    n.effects.count e = if e.2.isDummy then 0 else (n.gather ownEffects).count e := by
  rw [effects]
  split
  next he => exact List.count_eq_zero_of_not_mem fun hmem => by simp [he] at hmem
  next he => exact List.count_filter (by rw [Bool.eq_false_iff.mpr he]; rfl)

/-- Generated calls and assignments stand for no source text. -/
theorem count_ownEffects_of_isGlue {known : List Diagnostic} {e : EffectKind × Span}
    (he : e.2.isDummy = false) (h : n.isGlue known = true) : n.ownEffects.count e = 0 := by
  have hgenerated {kind : EffectKind} {span : Span} (hspan : (span == .none) = true) :
      [(kind, span)].count e = 0 := by
    refine List.count_eq_zero_of_not_mem fun hmem => ?_
    obtain rfl := List.mem_singleton.mp hmem
    rw [beq_iff_eq.mp hspan, Span.isDummy_none] at he
    cases he
  cases n <;> first | rfl | exact hgenerated h | cases h

end Node

open Node

namespace Weight

variable {known : List Diagnostic} {e : EffectKind × Span}

/-- Counts the effects of one kind and range. -/
def occurrences (known : List Diagnostic) {e : EffectKind × Span} (he : e.2.isDummy = false) :
    Weight known where
  own _ {_} n := n.ownEffects.count e
  mark _ := 0
  held := NameSupply.unweighed
  markLabel _ := 0
  jump _ := 0
  sees := False
  own_glue h := count_ownEffects_of_isGlue he h
  own_declarator := @Node.unweighed_declarator
  own_parts h := by rw [h.form_eq ownEffects fun m => by cases m <;> rfl]
  held_fresh := NameSupply.unweighed_fresh
  own_handler := rfl
  own_class := rfl
  own_labeled _ := rfl
  own_break _ := rfl
  own_leave _ := rfl
  own_frame _ := rfl
  held_freshLabel := NameSupply.unweighed_freshLabel

theorem occurrences_eq (he : e.2.isDummy = false) {fr : Frame} {c : Cat} (n : Node c) :
    (occurrences known he).of fr n = (n.gather ownEffects).count e := by
  induction n using partsInduction generalizing fr with
  | step n ih =>
    rw [Measure.of_eq, Measure.inner, List.map_congr_left fun k hk => ih hk, count_gather]
    rfl

theorem carried_occurrences (known : List Diagnostic) (he : e.2.isDummy = false) :
    (occurrences known he).Carried where
  own_form stage {fr c n} h := by
    have hown : n.ownEffects = [] := by
      cases n <;> first | rfl | (cases stage <;> exact Bool.noConfusion h)
    simp [occurrences, hown]
  blind := id
  jump _ := rfl
  admits _ := trivial

end Weight

/-- No effect of the program is lost, doubled or changed, whatever has been reported. -/
theorem lowerProgram_conserves_effects (config : Config) (p : Program)
    (hvalid : config.validate = .ok ()) (hheads : p.all hasPlainHead = true) :
    ∃ out, lowerProgram config p = .ok out ∧ out.program.effects.Perm p.effects := by
  refine ⟨_, Lowering.lowerProgram_eq hvalid p, List.perm_iff_count.mpr fun e => ?_⟩
  rw [Lowering.lowerWith_eq, count_effects, count_effects]
  split
  · rfl
  next he =>
    have hweight := Lowering.carried_stages (.start config p) hheads _
      (Weight.carried_occurrences _ (Bool.eq_false_iff.mpr he))
    rwa [Weight.occurrences_eq, Weight.occurrences_eq] at hweight

/-- `for (const x of f()) { new g(await x); }` -/
def awaitedCalls : Program :=
  .scriptProgram ⟨1, 41⟩ none (.ofList [
    .forOfStmt ⟨1, 41⟩ false
      (.headDecl (.varDecl ⟨6, 13⟩ 0 .const false
        (.ofList [.declarator ⟨12, 13⟩ false (.binder (.ofName "x")) .none])))
      (.call ⟨17, 20⟩ 0 (.exprCallee (Build.name "f")) .nil)
      (.blockStmt (.block ⟨22, 41⟩ 0 (.ofList [.exprStmt ⟨24, 39⟩
        (.newCall ⟨24, 38⟩ 0 (Build.name "g") (.some (.ofList [
          .plainArg (.awaitExpr ⟨30, 37⟩ (Build.name "x"))])))])))])

theorem lowerProgram_conserves_effects_awaitedCalls :
    Config.default.validate = .ok () ∧ awaitedCalls.all hasPlainHead = true ∧
      awaitedCalls.effects = [(.call, ⟨17, 20⟩), (.newCall, ⟨24, 38⟩), (.awaitExpr, ⟨30, 37⟩)] ∧
        ∃ out, lowerProgram .default awaitedCalls = .ok out ∧
          out.program.effects.Perm awaitedCalls.effects := by
  have hvalid : Config.default.validate = .ok () := by decide +kernel
  have hheads : awaitedCalls.all hasPlainHead = true := by decide +kernel
  have heffects : awaitedCalls.effects =
      [(.call, ⟨17, 20⟩), (.newCall, ⟨24, 38⟩), (.awaitExpr, ⟨30, 37⟩)] := by decide +kernel
  exact ⟨hvalid, hheads, heffects,
    lowerProgram_conserves_effects .default awaitedCalls hvalid hheads⟩

end PlainJs

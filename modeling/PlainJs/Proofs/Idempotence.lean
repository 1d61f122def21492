import PlainJs.Proofs.Settled

namespace PlainJs

open Node Declarations

variable {c : Cat} {n : Node c}

theorem needsSplit_of_settled {v : VarDecl} (h : isSettledShape [] v.declShape = true) :
    v.needsSplit = false := by
  cases v with
  | varDecl span ctxt kind declare decls =>
    cases decls with
    | nil => rfl
    | cons d rest =>
      cases rest with
      | nil =>
        cases d with
        | declarator dspan definite p init =>
          cases p <;> first | rfl | cases h
      | cons d' rest =>
        cases d with
        | declarator =>
          cases d' with
          | declarator => simp [isSettledShape, declShape] at h

theorem splitDeclarations_of_settled
    (h : n.all (Stage.declarations.isSettled []) = true) : splitDeclarations n = pure n := by
  induction c, n using splitDeclarations.induct with
  | case1 v rest ihv ihrest =>
    have hdecl := all_part (all_part h (.head _)) (.head _)
    have hsplit := needsSplit_of_settled (all_iff.mp hdecl).1
    rw [splitDeclarations, ihv (all_part hdecl (.head _)), pure_bind, splitIfNeeded,
      if_neg (by simp [hsplit]), pure_bind, ihrest (all_part h (.tail _ (.head _))), pure_bind]
    simp [prepend, ofList]
  | case2 v rest ihv ihrest =>
    have hdecl := all_part (all_part (all_part h (.head _)) (.head _)) (.head _)
    have hsplit := needsSplit_of_settled (all_iff.mp hdecl).1
    rw [splitDeclarations, ihv (all_part hdecl (.head _)), pure_bind, splitIfNeeded,
      if_neg (by simp [hsplit]), pure_bind, ihrest (all_part h (.tail _ (.head _))), pure_bind]
    simp [prepend, ofList]
  | case3 span v rest ihv ihrest =>
    have hdecl := all_part (all_part h (.head _)) (.head _)
    have hsplit := needsSplit_of_settled (all_iff.mp hdecl).1
    rw [splitDeclarations, ihv (all_part hdecl (.head _)), pure_bind, if_neg (by simp [hsplit]),
      ihrest (all_part h (.tail _ (.head _))), pure_bind]
  | case4 v ihv =>
    have hdecl := all_part h (.head _)
    have hsplit := needsSplit_of_settled (all_iff.mp hdecl).1
    rw [splitDeclarations, ihv (all_part hdecl (.head _)), pure_bind, if_neg (by simp [hsplit])]
  | case5 c n h₁ h₂ h₃ h₄ ih =>
    rw [splitDeclarations.eq_5 n h₁ h₂ h₃ h₄]
    exact traverse_eq_pure fun k hk => ih k hk (all_part h hk)

theorem inside_pure {α : Type} (target : JumpTarget) (a : α) :
    Continues.inside target (pure a) = (pure (a, target) : LowerIn _) := rfl

theorem isolated_pure {α : Type} (a : α) : Continues.isolated (pure a) = (pure a : LowerIn α) := rfl

theorem replaceContinuesIn_of_settled
    (h : n.all (Stage.continues.isSettled []) = true) : replaceContinuesIn n = pure n := by
  induction c, n using replaceContinuesIn.induct with
  | case1 span label body ih =>
    rw [replaceContinuesIn, ih (all_part h (.head _)), inside_pure]
    rfl
  | case2 span label => cases (all_iff.mp h).1
  | case3 c n hlabel hcontinue hloop ih =>
    rw [replaceContinuesIn.eq_3 n hlabel hcontinue, if_pos hloop,
      traverse_eq_pure fun k hk => ih k hk (all_part h hk), inside_pure]
    rfl
  | case4 c n hlabel hcontinue hloop hfun ih =>
    rw [replaceContinuesIn.eq_3 n hlabel hcontinue, if_neg hloop, if_pos hfun,
      traverse_eq_pure fun k hk => ih k hk (all_part h hk), isolated_pure]
  | case5 c n hlabel hcontinue hloop hfun ih =>
    rw [replaceContinuesIn.eq_3 n hlabel hcontinue, if_neg hloop, if_neg hfun]
    exact traverse_eq_pure fun k hk => ih k hk (all_part h hk)

theorem Stage.pass_of_settled (stage : Stage) {p : Program}
    (h : p.all (stage.isSettled []) = true) : stage.pass p = pure p := by
  cases stage with
  | declarations => exact splitDeclarations_of_settled h
  | continues =>
    change (do let r ← (replaceContinuesIn p).run []; pure r.1) = pure p
    rw [replaceContinuesIn_of_settled h]
    rfl
  | loops =>
    refine Lower.bottomUp_eq_pure (fun k hk => ?_) h
    cases k <;> first | rfl | cases hk
  | switches =>
    refine Lower.bottomUp_eq_pure (fun k hk => ?_) h
    cases k with
    | switchStmt span subject clauses =>
      have hreported : clauses.declSpans.any (isReported []) = true := hk
      simp [isReported] at hreported
    | _ => rfl
  | finallys =>
    refine Lower.bottomUp_eq_pure (fun k hk => ?_) h
    cases k with
    | tryStmt span b handler f => cases f <;> first | rfl | cases hk
    | _ => rfl

namespace Lowering

/-- Stages whose constructs are all gone give a program back as it is. -/
theorem stages_of_settled {p : Program} {cx : Context} (h : ∀ stage : Stage,
      stage.isEnabled cx.config = true → p.all (stage.isSettled []) = true) :
    (stages p).run cx = (p, cx) := by
  let I (_ : List Stage) (p' : Program) (cx' : Context) : Prop := (p', cx') = (p, cx)
  have hsame : I Stage.all ((stages p).run cx).1 ((stages p).run cx).2 := by
    refine stages_induction (fun h _ => h) ?_ rfl
    rintro _ _ stage p' cx' - heq henabled -
    cases heq
    rw [stage.pass_of_settled (h stage henabled)]
    rfl
  exact hsame

end Lowering

namespace Lowering

variable {config : Config} {p : Program}

/-- The labels of a program that has been lowered without a violation are right. -/
theorem validateLabels_lowerWith
    (h : (lowerWith config p).diagnostics.any Diagnostic.isFatal = false) :
    validateLabels (lowerWith config p).program = [] := by
  obtain ⟨heq, hfatal⟩ := lowerWith_of_hasFatal h
  rw [lowerWith_eq, Lowered.mk.injEq, run_finish, if_neg (by simp [hfatal])] at heq
  rw [lowerWith_eq]
  generalize (stages p).run (.start config p) = r at heq
  dsimp only at heq ⊢
  cases hlabels : validateLabels r.1 with
  | nil => rfl
  | cons d rest =>
    rw [hlabels] at heq
    exact absurd heq.2 (by simp [Context.record])

theorem lowerWith_of_settled (h : ∀ stage : Stage, stage.isEnabled config = true →
      p.all (stage.isSettled []) = true) (hlabels : validateLabels p = []) :
    lowerWith config p = ⟨p, []⟩ := by
  have hstages : (stages p).run (.start config p) = (p, .start config p) := stages_of_settled h
  rw [lowerWith_eq, hstages, run_finish, hlabels]
  rfl

end Lowering

/-- A program that has been lowered without an error is lowered to itself, with nothing to report. -/
theorem lowerProgram_idempotent {config : Config} {p : Program} {r : Lowered}
    (h : lowerProgram config p = .ok r) (herror : r.hadError = false) :
    lowerProgram config r.program = .ok ⟨r.program, []⟩ ∧
      Lowered.hadError ⟨r.program, []⟩ = false := by
  have hvalid : config.validate = .ok () := by
    rw [lowerProgram] at h
    cases hv : config.validate with
    | error fault => rw [hv] at h; cases h
    | ok u => rfl
  obtain rfl : lowerWith config p = r :=
    Except.ok.inj ((Lowering.lowerProgram_eq hvalid p).symm.trans h)
  rw [Lowering.lowerProgram_eq hvalid, Lowering.lowerWith_of_settled
    (Lowering.settled_of_hadError herror)
    (Lowering.validateLabels_lowerWith (Lowering.hasFatal_of_hadError herror))]
  exact ⟨rfl, rfl⟩

/-- `for (const [k, v] of xs) try { if (k) continue; f(v); } finally { g(); }` -/
def guardedRounds : Program :=
  let names : Pat := .arrayPat .none false
    (.ofList [.some (.binder (.ofName "k")), .some (.binder (.ofName "v"))])
  .scriptProgram .none none (.ofList [
    .forOfStmt .none false
      (.headDecl (.varDecl .none 0 .const false (.ofList [.declarator .none false names .none])))
      (Build.name "xs")
      (.tryStmt .none
        (Build.block [Build.ifElse (Build.name "k") (.continueStmt .none none) none,
          Build.exprStmt (Build.call (Build.name "f") [Build.name "v"])])
        .none (.some (Build.block [Build.exprStmt (Build.call (Build.name "g") [])])))])

theorem lowerProgram_idempotent_guardedRounds :
    ∃ r, lowerProgram .default guardedRounds = .ok r ∧ r.hadError = false ∧
      lowerProgram .default r.program = .ok ⟨r.program, []⟩ := by
  have hvalid : Config.default.validate = .ok () := by decide +kernel
  have herror : (lowerWith .default guardedRounds).hadError = false := by decide +kernel
  have hrun := Lowering.lowerProgram_eq hvalid guardedRounds
  exact ⟨_, hrun, herror, (lowerProgram_idempotent hrun herror).1⟩

end PlainJs

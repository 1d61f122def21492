import PlainJs.Proofs.Stages

namespace PlainJs

open Node

theorem Node.all_mono {test test' : ∀ {d : Cat}, Node d → Bool} {c : Cat} {n : Node c}
    (h : ∀ {d : Cat} (k : Node d), test k = true → test' k = true) (hn : n.all test = true) :
    n.all test' = true := by
  induction n using partsInduction with
  | step n ih =>
    obtain ⟨hnode, hparts⟩ := all_iff.mp hn
    exact all_iff.mpr ⟨h n hnode, fun hk => ih hk (hparts hk)⟩

namespace Stage

/-- Whether a node is none of the constructs that a stage removes, or one that has been reported. -/
def isSettled (ds : List Diagnostic) : Stage → {c : Cat} → Node c → Bool
  | declarations, _, .declVar v => isSettledShape ds v.declShape
  | continues, _, .continueStmt .. => false
  | loops, _, .forStmt .. | loops, _, .doWhileStmt .. => false
  | loops, _, .forInStmt span _ _ _ | loops, _, .forOfStmt span _ _ _ _ => isReported ds span
  | switches, _, .switchStmt _ _ clauses => clauses.declSpans.any (isReported ds)
  | finallys, _, .tryStmt _ _ _ (.some _) => false
  | _, _, _ => true

variable {known : List Diagnostic} {c : Cat} {n n' : Node c}

theorem isSettled_of_form (stage : Stage) (h : stage.form n = false) :
    stage.isSettled known n = true := by
  unfold isSettled
  split <;> first | rfl | cases h

theorem isSettled_of_isGlue (stage : Stage) (h : n.isGlue known = true) :
    stage.isSettled known n = true := by
  cases hform : stage.form n with
  | false => exact isSettled_of_form stage hform
  | true =>
    cases n with
    | declVar v => cases stage <;> first | rfl | exact h
    | whileStmt => cases stage <;> rfl
    | tryStmt span b handler f =>
      cases f with
      | none => cases stage <;> rfl
      | some f => cases h
    | _ => first | exact Bool.noConfusion h | (cases stage <;> cases hform)

theorem isSettled_of_isLeft (stage : Stage) (h : n.isLeft known = true) :
    stage.isSettled known n = true := by
  cases n with
  | forInStmt | forOfStmt | switchStmt => cases stage <;> first | rfl | exact h
  | _ => cases h

theorem isSettled_congr {ds ds' : List Diagnostic} (h : isReported ds = isReported ds')
    (stage : Stage) : stage.isSettled ds n = stage.isSettled ds' n := by
  unfold isSettled
  split <;> first | rfl | simp only [isSettledShape, h]

/-- No node belongs to two stages. -/
theorem eq_of_form {stage other : Stage} (h : stage.form n = true) (h' : other.form n = true) :
    stage = other := by
  cases n
  all_goals
    first
      | cases stage <;> exact Bool.noConfusion h
      | cases stage <;> cases other <;>
          first | rfl | exact Bool.noConfusion h | exact Bool.noConfusion h'

/-- Whether a node is settled can be told from its form and the outline of its parts. -/
theorem isSettled_of_parts (stage : Stage) (h : Parts (fun k k' =>
      SameOutline k k' ∧ (n.isSwitch = true → k.declSpans = k'.declSpans)) n n') :
    stage.isSettled known n = stage.isSettled known n' := by
  have hform : stage.form n = stage.form n' := stage.form_eq h
  cases hn : stage.form n with
  | false =>
    rw [isSettled_of_form stage hn, isSettled_of_form stage (hform ▸ hn)]
  | true =>
    cases n with
    | declVar v =>
      obtain ⟨v', hv, rfl⟩ := h
      cases stage <;> first | rfl | exact congrArg (isSettledShape known) hv.1.decls
    | continueStmt => cases h; rfl
    | switchStmt span subject clauses =>
      obtain ⟨_, _, clauses', hc, rfl⟩ := h
      cases stage <;>
        first | rfl | exact congrArg (List.any · (isReported known)) (hc.2 rfl)
    | tryStmt span b handler f =>
      obtain ⟨_, _, _, _, f', hf, rfl⟩ := h
      have hpresent := hf.1.present
      cases stage <;> first | rfl | (cases f <;> cases f' <;> first | rfl | cases hpresent)
    | whileStmt | doWhileStmt =>
      obtain ⟨_, _, _, _, rfl⟩ := h
      cases stage <;> rfl
    | forInStmt | forOfStmt =>
      obtain ⟨_, _, _, _, _, _, rfl⟩ := h
      cases stage <;> rfl
    | forStmt =>
      obtain ⟨_, _, _, _, _, _, _, _, rfl⟩ := h
      cases stage <;> rfl
    | _ => cases stage <;> cases hn

end Stage

namespace Weight

variable {known : List Diagnostic} {σ : List Stage} {c : Cat} {n : Node c} {fr : Frame}

theorem lenient_isSettled (known : List Diagnostic) (σ : List Stage) :
    Lenient known fun n => σ.all (·.isSettled known n) where
  glue h := List.all_eq_true.mpr fun stage _ => stage.isSettled_of_isGlue h
  placing {c n} h := by
    refine List.all_eq_true.mpr fun stage _ => stage.isSettled_of_form ?_
    cases n <;> first | exact Bool.noConfusion h | (cases stage <;> rfl)
  parts {c n n'} h := by
    have heq : (fun stage : Stage => stage.isSettled known n) =
        fun stage => stage.isSettled known n' := funext fun stage => stage.isSettled_of_parts h
    rw [heq]

/-- Counts the nodes that are not settled for all of the given stages. -/
def offences (known : List Diagnostic) (σ : List Stage) : Weight known :=
  failures (lenient_isSettled known σ)

theorem offences_eq_zero : (offences known σ).of fr n = 0 ↔
    ∀ stage ∈ σ, n.all (stage.isSettled known) = true := by
  rw [offences, failures_eq_zero]
  induction n using partsInduction with
  | step n ih =>
    rw [all_iff, List.all_eq_true]
    refine ⟨fun ⟨h₁, h₂⟩ stage hs => ?_, fun h => ⟨fun stage hs => ?_, fun hk => ?_⟩⟩
    · exact all_iff.mpr ⟨h₁ stage hs, fun hk => (ih hk).mp (h₂ hk) stage hs⟩
    · exact (all_iff.mp (h stage hs)).1
    · exact (ih hk).mpr fun stage hs => all_part (h stage hs) hk

/-- A stage adds its own constructs to those that are settled. -/
theorem turns_offences {stage : Stage} (h : stage ∉ σ) :
    (offences known σ).Turns (offences known (σ ++ [stage])) stage.form where
  held := rfl
  admits := rfl
  agree {fr c n} hn := by simp [offences, failures, stage.isSettled_of_form hn]
  rewritten {fr c n} hn := by
    refine if_pos (List.all_eq_true.mpr fun other hother => other.isSettled_of_form ?_)
    exact Bool.eq_false_iff.mpr fun hn' => h (Stage.eq_of_form hn' hn ▸ hother)
  sees := rfl
  jump := rfl
  spares hn := if_pos (List.all_eq_true.mpr fun stage _ => stage.isSettled_of_isLeft hn)

theorem ready_offences {stage : Stage} {p : Program} (h : stage ∉ σ)
    (hfirst : stage = .declarations → σ = []) (hzero : (offences known σ).of .top p = 0) :
    stage.Ready (offences known σ) (offences known (σ ++ [stage])) [] p where
  turns := turns_offences h
  spread hstage := by
    obtain rfl := hfirst hstage
    subst hstage
    intro fr c n hn
    have hdecl : n.isDeclVar = false := by cases n <;> first | rfl | cases hn
    simp [offences, failures, Stage.isSettled_of_form .declarations hdecl]
  tracks := False.elim
  clean _ _ := .inl ⟨fun _ _ => rfl, hzero⟩

end Weight

/-- How the context changes in a stage. -/
theorem Stage.steps_and_calm_pass (stage : Stage) (p : Program) (cx : Context) :
    cx.Steps ((stage.pass p).run cx).2 ∧
      (stage ≠ .continues → cx.Calm ((stage.pass p).run cx).2) := by
  have hzero : (Weight.offences [] []).of .top p = 0 := Weight.offences_eq_zero.mpr nofun
  exact (stage.balance (Weight.ready_offences List.not_mem_nil (fun _ => rfl) hzero) False.elim).1

theorem Stage.steps_pass (stage : Stage) (p : Program) (cx : Context) :
    cx.Steps ((stage.pass p).run cx).2 :=
  (stage.steps_and_calm_pass p cx).1

theorem Stage.steps_run (stage : Stage) (p : Program) (cx : Context) :
    cx.Steps ((stage.run p).run cx).2 := by
  rw [stage.run_eq]
  split
  · exact stage.steps_pass p cx
  · exact .refl

namespace Lowering

/-- Every stage that runs settles its constructs for good. -/
theorem settled_stages (config : Config) (p : Program) :
    let r := (stages p).run (.start config p)
    r.2.hasFatal = false → ∀ stage : Stage, stage.isEnabled config = true →
      r.1.all (stage.isSettled r.2.diagnostics) = true := by
  intro r hfatal stage henabled
  -- the stages that have run so far have left nothing that the last diagnostics do not report
  let I (before : List Stage) (p : Program) (cx : Context) : Prop :=
    cx.config = config ∧ (cx.diagnostics ⊆ r.2.diagnostics → cx.hasFatal = false →
      (Weight.offences r.2.diagnostics (before.filter (·.isEnabled config))).of .top p = 0)
  have h : I Stage.all r.1 r.2 := by
    refine stages_induction ?_ ?_ ⟨rfl, fun _ _ => Weight.offences_eq_zero.mpr nofun⟩
    · rintro before stage p cx ⟨rfl, hzero⟩ hskip
      refine ⟨rfl, fun hsub hfatal => ?_⟩
      have hdisabled := hskip.resolve_right (by simp [hfatal])
      rw [List.filter_append, List.filter_singleton, hdisabled]
      simpa using hzero hsub hfatal
    · rintro before after stage p cx hall ⟨rfl, hzero⟩ henabled hfatal
      have hnot : stage ∉ before.filter (·.isEnabled cx.config) :=
        fun hmem => Stage.notMem_of_all hall (List.mem_of_mem_filter hmem)
      have hfirst : stage = .declarations → before.filter (·.isEnabled cx.config) = [] := by
        rintro rfl
        rw [Stage.eq_takeWhile_of_all hall]
        rfl
      have hsteps := stage.steps_pass p cx
      refine ⟨hsteps.grows.config, fun hsub hfatal' => ?_⟩
      have hzero := hzero (List.Subset.trans hsteps.grows.subset hsub) hfatal
      have hbalance := (stage.balance (Weight.ready_offences hnot hfirst hzero) False.elim).2
        ⟨⟨hsub, fun _ _ => trivial⟩, fun _ _ => rfl, .inl hfatal'⟩
      rw [hzero] at hbalance
      rw [List.filter_append, List.filter_singleton, henabled]
      exact hbalance
  refine Weight.offences_eq_zero.mp (h.2 (List.Subset.refl _) hfatal) stage ?_
  rw [List.mem_filter]
  exact ⟨by cases stage <;> decide, henabled⟩

variable {config : Config} {p : Program}

theorem settled_lowerWith (h : (lowerWith config p).diagnostics.any Diagnostic.isFatal = false)
    (stage : Stage) (henabled : stage.isEnabled config = true) :
    (lowerWith config p).program.all (stage.isSettled (lowerWith config p).diagnostics) = true := by
  obtain ⟨heq, hfatal⟩ := lowerWith_of_hasFatal h
  rw [heq]
  exact settled_stages config p hfatal stage henabled

theorem hasFatal_of_hadError (h : (lowerWith config p).hadError = false) :
    (lowerWith config p).diagnostics.any Diagnostic.isFatal = false :=
  List.any_eq_false.mpr fun d hd hfatal =>
    List.any_eq_false.mp h d hd (Diagnostic.isError_of_isFatal hfatal)

/-- Where nothing has been reported, nothing is left of the constructs. -/
theorem settled_of_hadError (h : (lowerWith config p).hadError = false) (stage : Stage)
    (henabled : stage.isEnabled config = true) :
    (lowerWith config p).program.all (stage.isSettled []) = true := by
  have hreported : isReported (lowerWith config p).diagnostics = isReported [] :=
    funext (isReported_eq_false h)
  refine all_mono (fun k hk => ?_) (settled_lowerWith (hasFatal_of_hadError h) stage henabled)
  rwa [Stage.isSettled_congr hreported] at hk

end Lowering

/-- Lowering settles the constructs of every enabled stage, at every depth of the program, unless it
ends with a violation. Without an error nothing has been reported, so none of them is left. -/
theorem lowerProgram_settles (config : Config) (p : Program) (hvalid : config.validate = .ok ()) :
    ∃ r, lowerProgram config p = .ok r ∧ (r.diagnostics.any Diagnostic.isFatal = false →
      (∀ stage : Stage, stage.isEnabled config = true →
        r.program.all (stage.isSettled r.diagnostics) = true) ∧
      (r.hadError = false → ∀ stage : Stage, stage.isEnabled config = true →
        r.program.all (stage.isSettled []) = true)) := by
  refine ⟨lowerWith config p, Lowering.lowerProgram_eq hvalid p, fun hfatal => ?_⟩
  exact ⟨Lowering.settled_lowerWith hfatal, Lowering.settled_of_hadError⟩

/-- `for await (const x of xs) { const [y, z] = x; continue; }` -/
def awaitingRounds : Program :=
  let names : Pat := .arrayPat .none false
    (.ofList [.some (.binder (.ofName "y")), .some (.binder (.ofName "z"))])
  .scriptProgram .none none (.ofList [
    .forOfStmt .none true
      (.headDecl (.varDecl .none 0 .const false
        (.ofList [.declarator .none false (.binder (.ofName "x")) .none])))
      (Build.name "xs")
      (Build.blockStmt .none [Build.declarePat .none .const names (some (Build.name "x")),
        .continueStmt .none none])])

theorem lowerProgram_settles_awaitingRounds :
    Config.default.validate = .ok () ∧ ∃ r, lowerProgram .default awaitingRounds = .ok r ∧
      r.diagnostics.any Diagnostic.isFatal = false ∧
        ∀ stage : Stage, r.program.all (stage.isSettled r.diagnostics) = true := by
  have hvalid : Config.default.validate = .ok () := by decide +kernel
  obtain ⟨r, hr, h⟩ := lowerProgram_settles .default awaitingRounds hvalid
  obtain rfl : lowerWith .default awaitingRounds = r :=
    Except.ok.inj ((Lowering.lowerProgram_eq hvalid _).symm.trans hr)
  have hfatal : (lowerWith .default awaitingRounds).diagnostics.any Diagnostic.isFatal = false := by
    decide +kernel
  exact ⟨hvalid, _, hr, hfatal, fun stage => (h hfatal).1 stage (by cases stage <;> rfl)⟩

end PlainJs

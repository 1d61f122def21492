import PlainJs.Proofs.Continues.Leftovers

namespace PlainJs

open Node

namespace Measure

variable {known : List Diagnostic} {x : Span × Option Ident}

/-- Counts one `continue` where it has no loop to go to. -/
def orphansAt (known : List Diagnostic) (x : Span × Option Ident) : Measure known where
  own fr {_} n := (n.ownContinues.filter fun y => !fr.hasLoop y.2).count x
  mark _ := 0
  held := NameSupply.unweighed
  own_glue {_ _ n} h := by
    rw [ownContinues_eq_nil (by cases n <;> first | rfl | cases h)]
    rfl
  own_declarator := @Node.unweighed_declarator
  own_parts h := by rw [h.form_eq ownContinues fun m => by cases m <;> rfl]
  held_fresh := NameSupply.unweighed_fresh

theorem orphansAt_eq {fr : Frame} {c : Cat} (n : Node c) :
    (orphansAt known x).of fr n = (n.orphans fr).count x := by
  induction n using partsInduction generalizing fr with
  | step n ih =>
    rw [of_eq, inner, List.map_congr_left fun k hk => ih hk, orphans_eq, List.count_append,
      List.count_flatMap]
    rfl

end Measure

theorem perm_orphans_splitDeclarations (p : Program) (cx : Context) :
    (((splitDeclarations p).run cx).1.orphans .top).Perm (p.orphans .top) := by
  refine List.perm_iff_count.mpr fun x => ?_
  let w := Measure.orphansAt ((splitDeclarations p).run cx).2.diagnostics x
  have hown {fr : Frame} {c : Cat} {n : Node c} (hn : n.isContinue = false) : w.own fr n = 0 := by
    simp [w, Measure.orphansAt, ownContinues_eq_nil hn]
  have hturn : w.Turns w isDeclVar :=
    ⟨rfl, rfl, fun _ => rfl, fun {fr c n} hn => hown (by cases n <;> first | rfl | cases hn)⟩
  have hcosts := costs_splitDeclarations (T := .free) hturn
    (fun {fr c n} hn => hown (by cases n <;> first | rfl | cases hn)) p
    (.inl (isLoose_of_isClosed rfl)) .top cx trivial
  have hweight := hcosts.2 ⟨List.Subset.refl _, fun _ _ => trivial⟩ trivial
  change w.of .top _ + 0 = w.of .top p + 0 at hweight
  rwa [Nat.add_zero, Nat.add_zero, Measure.orphansAt_eq, Measure.orphansAt_eq] at hweight

namespace Stage

variable {stage : Stage} {p : Program} {cx : Context}

theorem run_of_hasFatal (h : cx.hasFatal = true) : (stage.run p).run cx = (p, cx) := by
  rw [run_eq, h, Bool.not_true, Bool.and_false]
  rfl

/-- Only the stage that replaces each `continue` records violations. -/
theorem hasFatal_run (h : stage ≠ continues) :
    ((stage.run p).run cx).2.hasFatal = cx.hasFatal := by
  rw [run_eq]
  split
  · exact ((stage.steps_and_calm_pass p cx).2 h).hasFatal
  · rfl

end Stage

namespace Lowering

variable {config : Config} {p : Program} {k : Nat}

/-- The program and the context when the first `k` stages are over. -/
def after (config : Config) (p : Program) (k : Nat) : Program × Context :=
  ((Stage.all.take k).foldlM (fun p s => s.run p) p : Lower Program).run (.start config p)

theorem after_succ (stage : Stage) (h : Stage.all[k]? = .some stage) :
    after config p (k + 1) = (stage.run (after config p k).1).run (after config p k).2 := by
  rw [after, List.take_add_one, h, List.foldlM_append]
  simp only [Option.toList_some, List.foldlM_cons, List.foldlM_nil, bind_pure]
  rfl

theorem after_of_length_le (h : Stage.all.length ≤ k) :
    after config p k = (stages p).run (.start config p) := by
  rw [after, List.take_of_length_le h]
  rfl

/-- A stage follows on the first `k` ones, or there is none left. -/
theorem after_cases (config : Config) (p : Program) (k : Nat) :
    (∃ stage, Stage.all[k]? = .some stage ∧
      after config p (k + 1) = (stage.run (after config p k).1).run (after config p k).2) ∨
        after config p (k + 1) = after config p k := by
  cases h : Stage.all[k]? with
  | some stage => exact .inl ⟨stage, rfl, after_succ stage h⟩
  | none =>
    have hlength := List.getElem?_eq_none_iff.mp h
    exact .inr (by rw [after_of_length_le hlength, after_of_length_le (Nat.le_succ_of_le hlength)])

theorem steps_after (config : Config) (p : Program) (k : Nat) :
    (after config p k).2.Steps (after config p (k + 1)).2 := by
  rcases after_cases config p k with ⟨stage, -, h⟩ | h
  · exact h ▸ stage.steps_run _ _
  · exact h ▸ .refl

/-- After something fatal no stage changes anything. -/
theorem after_eq_of_hasFatal {j : Nat} (hjk : j ≤ k) (h : (after config p j).2.hasFatal = true) :
    after config p k = after config p j := by
  induction k, hjk using Nat.le_induction with
  | base => rfl
  | succ k _ ih =>
    rcases after_cases config p k with ⟨stage, -, hrun⟩ | hsame
    · rw [hrun, ih, Stage.run_of_hasFatal h]
    · exact hsame.trans ih

/-- Behind the stage that replaces each `continue` nothing fatal is recorded. -/
theorem hasFatal_after (hk : 2 ≤ k) :
    (after config p k).2.hasFatal = (after config p 2).2.hasFatal := by
  induction k, hk using Nat.le_induction with
  | base => rfl
  | succ k hk ih =>
    rcases after_cases config p k with ⟨stage, hstage, hrun⟩ | hsame
    · have hne : stage ≠ .continues := by
        rintro rfl
        have hnodup : Stage.all.Nodup := by decide
        obtain ⟨hlt, hget⟩ := List.getElem?_eq_some_iff.mp hstage
        have hone : Stage.all[k] = Stage.all[1] := hget
        have := (List.Nodup.getElem_inj_iff hnodup).mp hone
        omega
      rw [hrun, Stage.hasFatal_run hne, ih]
    · rw [hsame, ih]

theorem hasFatal_after_one : (after config p 1).2.hasFatal = false := by
  rw [after_succ .declarations rfl, Stage.hasFatal_run (by decide)]
  rfl

theorem perm_orphans_after_one :
    ((after config p 1).1.orphans .top).Perm (p.orphans .top) := by
  rw [after_succ .declarations rfl, Stage.run_eq]
  split
  · exact perm_orphans_splitDeclarations _ _
  · exact .refl _

theorem config_after_one : (after config p 1).2.config = config :=
  (steps_after config p 0).grows.config

/-- What the second stage does, if it runs. -/
theorem after_two : after config p 2 =
    if config.continues then (replaceContinues (after config p 1).1).run (after config p 1).2
    else after config p 1 := by
  rw [after_succ .continues rfl, Stage.run_eq, hasFatal_after_one, config_after_one,
    Bool.not_false, Bool.and_true]
  rfl

theorem halts_after_two : (after config p 1).2.Halts (after config p 2).2 := by
  rw [after_two]
  split
  · exact (left_replaceContinues _ _).2.1
  · exact .refl _

/-- A violation comes from the stage that replaces each `continue` if one of them has no loop. -/
theorem hasFatal_after_two : (after config p 2).2.hasFatal = true ↔
    config.continues = true ∧ p.orphans .top ≠ [] := by
  have hperm : ((after config p 1).1.orphans .top).Perm (p.orphans .top) := perm_orphans_after_one
  rw [after_two]
  split
  next hcontinues =>
    obtain ⟨-, -, hfatal, hquiet⟩ :=
      left_replaceContinues (after config p 1).1 (after config p 1).2
    refine ⟨fun h => ⟨hcontinues, fun hnil => ?_⟩, fun ⟨_, hne⟩ => hfatal fun hnil => hne ?_⟩
    · have hsame := Context.Halts.hasFatal_eq (hquiet (List.perm_nil.mp (hnil ▸ hperm)))
      exact Bool.noConfusion ((hsame.trans hasFatal_after_one).symm.trans h)
    · exact List.nil_perm.mp (hnil ▸ hperm)
  next hcontinues =>
    rw [hasFatal_after_one]
    exact ⟨nofun, fun h => absurd h.1 hcontinues⟩

/-- If there is a violation then every `continue` with a loop to go to has been replaced. -/
theorem perm_continues_after_two (h : (after config p 2).2.hasFatal = true) :
    (after config p 2).1.continues.Perm (p.orphans .top) := by
  rw [after_two, if_pos (hasFatal_after_two.mp h).1]
  have hleft := (left_replaceContinues (after config p 1).1 (after config p 1).2).1
  exact hleft ▸ perm_orphans_after_one

/-- The last check adds one violation at most, and only where there is none yet. -/
theorem halts_finish (p : Program) (cx : Context) : cx.Halts ((finish p).run cx).2 := by
  rw [run_finish]
  split
  · exact .refl cx
  next hfatal =>
    split
    · exact .refl cx
    next d rest hd =>
      exact .inr ⟨by simpa using hfatal, d,
        isFatal_of_mem_validateLabels (hd ▸ List.mem_cons_self), rfl⟩

theorem finish_of_hasFatal {cx : Context} (h : cx.hasFatal = true) :
    ((finish p).run cx).2 = cx := by
  rw [run_finish, if_pos h]

theorem lowerWith_eq_after (config : Config) (p : Program) :
    let r := after config p Stage.all.length
    lowerWith config p = ⟨r.1, ((finish r.1).run r.2).2.diagnostics⟩ := lowerWith_eq config p

end Lowering

theorem Context.Halts.dropLast {s t : Context} (h : s.Halts t)
    (hs : s.diagnostics.dropLast.any Diagnostic.isFatal = false) :
    t.diagnostics.dropLast.any Diagnostic.isFatal = false := by
  rcases h with h | ⟨hfatal, d, -, h⟩
  · rw [h, hs]
  · rw [h, List.dropLast_concat]
    exact hfatal

theorem Context.dropLast_of_hasFatal {s : Context} (h : s.hasFatal = false) :
    s.diagnostics.dropLast.any Diagnostic.isFatal = false := by
  rw [List.any_eq_false]
  exact fun d hd => List.any_eq_false.mp h d ((List.dropLast_subset _) hd)

open Lowering in
/-- A violation ends the lowering. From stage to stage diagnostics are only added, and the only
violation is the last diagnostic. If one comes up while each `continue` is replaced, that is if one
has no loop to go to, then the result is what this stage has left: a program in which exactly these
`continue` statements remain. Lowering counts as failed if some diagnostic is an error. -/
theorem lowerProgram_ends_with_violation (config : Config) (p : Program)
    (hvalid : config.validate = .ok ()) :
    ∃ out, lowerProgram config p = .ok out ∧
      (∀ k, (after config p k).2.diagnostics <+: (after config p (k + 1)).2.diagnostics) ∧
      (∀ k, (after config p k).2.diagnostics <+: out.diagnostics) ∧
      out.diagnostics.dropLast.any Diagnostic.isFatal = false ∧
      (after config p 1).2.hasFatal = false ∧
      ((after config p 2).2.hasFatal = true ↔ config.continues = true ∧ p.orphans .top ≠ []) ∧
      ((after config p 2).2.hasFatal = true →
        (∀ k, 2 ≤ k → after config p k = after config p 2) ∧
        out = ⟨(after config p 2).1, (after config p 2).2.diagnostics⟩ ∧
        out.program.continues.Perm (p.orphans .top)) ∧
      (out.hadError = true ↔ ∃ d ∈ out.diagnostics, d.severity = .error) ∧
      ((∀ d ∈ out.diagnostics, d.concern = .limitation) → out.hadError = false) := by
  obtain ⟨last, hdef⟩ : ∃ last, after config p Stage.all.length = last := ⟨_, rfl⟩
  have hout : lowerWith config p = ⟨last.1, ((finish last.1).run last.2).2.diagnostics⟩ :=
    hdef ▸ lowerWith_eq_after config p
  have hgrows (k : Nat) :
      (after config p k).2.diagnostics <+: (after config p (k + 1)).2.diagnostics := by
    obtain ⟨new, hnew⟩ := (steps_after config p k).grows.diagnostics
    exact ⟨new, hnew.symm⟩
  have hlast (k : Nat) : (after config p k).2.diagnostics <+: last.2.diagnostics := by
    rw [← hdef]
    rcases Nat.le_total k Stage.all.length with hk | hk
    · induction hk using Nat.decreasingInduction with
      | of_succ k _ ih => exact (hgrows k).trans ih
      | self => exact List.prefix_rfl
    · have hsame : after config p k = after config p Stage.all.length :=
        (after_of_length_le hk).trans (after_of_length_le (Nat.le_refl _)).symm
      exact hsame ▸ List.prefix_rfl
  have hfinish : last.2.diagnostics <+: ((finish last.1).run last.2).2.diagnostics := by
    rcases halts_finish last.1 last.2 with h | ⟨-, d, -, h⟩
    · exact h ▸ List.prefix_rfl
    · exact ⟨[d], h.symm⟩
  have hstop (hfatal : (after config p 2).2.hasFatal = true) : last = after config p 2 :=
    hdef.symm.trans (after_eq_of_hasFatal (by decide) hfatal)
  have hdrop : last.2.diagnostics.dropLast.any Diagnostic.isFatal = false := by
    cases hfatal : (after config p 2).2.hasFatal with
    | false =>
      have hcalm : (after config p Stage.all.length).2.hasFatal = false :=
        (hasFatal_after (by decide)).trans hfatal
      exact Context.dropLast_of_hasFatal (hdef ▸ hcalm)
    | true =>
      rw [hstop hfatal]
      exact halts_after_two.dropLast (Context.dropLast_of_hasFatal hasFatal_after_one)
  refine ⟨_, lowerProgram_eq hvalid p, hgrows, fun k => ?_, ?_, hasFatal_after_one,
    hasFatal_after_two, fun hfatal => ⟨fun k hk => after_eq_of_hasFatal hk hfatal, ?_⟩, ?_, ?_⟩
  · rw [hout]
    exact (hlast k).trans hfinish
  · rw [hout]
    exact (halts_finish last.1 last.2).dropLast hdrop
  · rw [hout, hstop hfatal, finish_of_hasFatal hfatal]
    exact ⟨rfl, perm_continues_after_two hfatal⟩
  · simp [Lowered.hadError, Diagnostic.isError]
  · intro hlimits
    refine List.any_eq_false.mpr fun d hd => ?_
    simp [Diagnostic.isError, Diagnostic.severity, hlimits d hd, Concern.severity]

/-- `while (a) { continue; } continue L;` -/
def strayContinue : Program :=
  .scriptProgram ⟨1, 36⟩ none (.ofList [
    .whileStmt ⟨1, 24⟩ (Build.name "a") (.blockStmt (.block ⟨11, 24⟩ 0 (.ofList [
      .continueStmt ⟨13, 22⟩ none]))),
    .continueStmt ⟨25, 36⟩ (some (.ofName "L"))])

theorem lowerProgram_ends_with_violation_strayContinue :
    Config.default.validate = .ok () ∧
      strayContinue.orphans .top = [(⟨25, 36⟩, some (.ofName "L"))] ∧
        ∃ out, lowerProgram .default strayContinue = .ok out ∧
          out.program.continues.Perm [(⟨25, 36⟩, some (.ofName "L"))] := by
  have hvalid : Config.default.validate = .ok () := by decide +kernel
  have horphans : strayContinue.orphans .top = [(⟨25, 36⟩, some (.ofName "L"))] := by
    decide +kernel
  obtain ⟨out, hout, -, -, -, -, hfatal, hleft, -, -⟩ :=
    lowerProgram_ends_with_violation .default strayContinue hvalid
  have hraised := hfatal.mpr ⟨rfl, by rw [horphans]; exact List.cons_ne_nil _ _⟩
  exact ⟨hvalid, horphans, out, hout, horphans ▸ (hleft hraised).2.2⟩

end PlainJs

import PlainJs.Lowering.Pipeline
import PlainJs.Proofs.Continues.Balance
import PlainJs.Proofs.Declarations.Pass
import PlainJs.Proofs.Finallys.Balance
import PlainJs.Proofs.Loops.Balance
import PlainJs.Proofs.Switches.Balance

namespace PlainJs

open Node

namespace Stage

/-- The nodes that a stage rewrites. -/
def form : Stage → {c : Cat} → Node c → Bool
  | declarations => isDeclVar
  | continues => isContinue
  | loops => isLoop
  | switches => isSwitch
  | finallys => isTry

theorem form_eq (stage : Stage) {P : ∀ {d : Cat}, Node d → Node d → Prop} {c : Cat} {n n' : Node c}
    (h : Parts P n n') : stage.form n = stage.form n' := by
  cases stage with
  | declarations => exact h.form_eq isDeclVar fun m => by cases m <;> rfl
  | continues => exact h.isContinue_eq
  | loops => exact (Loops.rewrites []).form_parts h
  | switches => exact (Switches.rewrites []).form_parts h
  | finallys => exact (Finallys.rewrites []).form_parts h

variable {known : List Diagnostic} {w w' : Weight known} {N : List String}

/-- What a stage needs to know of a weight and a program to keep the weight. -/
structure Ready (stage : Stage) (w w' : Weight known) (N : List String) (p : Program) : Prop where
  turns : w.Turns w' stage.form
  /-- Splitting declarations changes what stands in the clauses of a `switch`. -/
  spread : stage = declarations →
    ∀ {fr : Frame} {c : Cat} {n : Node c}, n.isSwitch = true → w'.own fr n = 0
  tracks : w.Tracks N .top p
  clean : stage ≠ declarations → stage ≠ continues → w.Clean stage.form .top p

/-- A stage keeps what a program weighs together with the supply. Only the stage that replaces each
`continue` may record something fatal. -/
theorem balance (stage : Stage) {p : Program} {cx : Context} (h : stage.Ready w w' N p)
    (hN : w.sees → N ⊆ cx.names.reserved) :
    let r := (stage.pass p).run cx
    (cx.Steps r.2 ∧ (stage ≠ continues → cx.Calm r.2)) ∧ (Closing w' ([], r.2) →
      w'.of .top r.1 + w.held cx.names = w.of .top p + w.held r.2.names) := by
  have hrewrites {f : Stmt → Lower Stmt} (hf : Rewrites known f stage.form)
      (hclean : w.Clean stage.form .top p) :
      let r := (Lower.bottomUp f p).run cx
      (cx.Steps r.2 ∧ (stage ≠ continues → cx.Calm r.2)) ∧ (Closing w' ([], r.2) →
        w'.of .top r.1 + w.held cx.names = w.of .top p + w.held r.2.names) := by
    obtain ⟨hcalm, hbalance⟩ := hf.costs_bottomUp p h.turns ⟨h.tracks, hclean⟩ cx hN
    refine ⟨⟨hcalm.steps, fun _ => hcalm⟩, fun hclose => hbalance (hclose.ends.of_admits h.turns.admits) fun x hx => ?_⟩
    rw [← h.turns.jump]
    exact hclose.jump x hx
  cases stage with
  | declarations =>
    obtain ⟨hcalm, hbalance⟩ := costs_splitDeclarations (T := .free) h.turns.toTurns
      (h.spread rfl) p (.inl (isLoose_of_isClosed rfl)) .top cx trivial
    exact ⟨⟨hcalm.steps, fun _ => hcalm⟩, fun hclose =>
      hbalance (hclose.ends.of_admits h.turns.admits) trivial⟩
  | continues =>
    by_cases hs : w'.sees
    · have hs' : w.sees := h.turns.sees ▸ hs
      obtain ⟨hsteps, -, -, hbalance⟩ := weighed_replaceContinues h.turns.toTurns (hN hs')
        fun _ => (h.tracks hs').1
      exact ⟨⟨hsteps, fun hne => absurd rfl hne⟩, hbalance⟩
    · have hempty : [] ⊆ cx.names.reserved := List.nil_subset _
      obtain ⟨hsteps, -, -, hbalance⟩ := weighed_replaceContinues (p := p) h.turns.toTurns hempty
        fun h => absurd h hs
      exact ⟨⟨hsteps, fun hne => absurd rfl hne⟩, hbalance⟩
  | loops => exact hrewrites (Loops.rewrites known) (h.clean nofun nofun)
  | switches => exact hrewrites (Switches.rewrites known) (h.clean nofun nofun)
  | finallys => exact hrewrites (Finallys.rewrites known) (h.clean nofun nofun)

/-- A stage leaves nothing to count where nothing has been to count. -/
theorem of_pass_eq_zero {stage : Stage} {p : Program} {cx : Context}
    (h : stage.Ready w w' cx.names.reserved p) (hidle : w.Idle)
    (hclose : Closing w' ([], ((stage.pass p).run cx).2)) (hzero : w.of .top p = 0) :
    w'.of .top ((stage.pass p).run cx).1 = 0 := by
  obtain ⟨⟨hsteps, -⟩, hbalance⟩ := stage.balance h fun _ => List.Subset.refl _
  have hheld := hidle hsteps fun x hx => h.turns.jump ▸ hclose.jump x hx
  have := hbalance hclose
  omega

theorem run_eq (stage : Stage) (p : Program) (cx : Context) : (stage.run p).run cx =
    if stage.isEnabled cx.config && !cx.hasFatal then (stage.pass p).run cx else (p, cx) := by
  unfold run
  simp only [StateT.run_bind]
  cases h : stage.isEnabled cx.config && !cx.hasFatal with
  | true => exact congrArg (fun x : Lower Program => x.run cx) (if_pos h)
  | false => exact congrArg (fun x : Lower Program => x.run cx) (if_neg (Bool.eq_false_iff.mp h))

theorem notMem_of_all {stage : Stage} {before after : List Stage}
    (h : all = before ++ stage :: after) : stage ∉ before := by
  have hnodup : all.Nodup := by decide
  rw [h] at hnodup
  exact fun hmem => (List.nodup_append.mp hnodup).2.2 _ hmem _ (.head _) rfl

/-- What runs before a stage. -/
theorem eq_takeWhile_of_all {stage : Stage} {before after : List Stage}
    (h : all = before ++ stage :: after) : before = all.takeWhile (· != stage) := by
  have hpos : ∀ s ∈ before, (s != stage) = true := fun s hs =>
    bne_iff_ne.mpr fun heq => notMem_of_all h (heq ▸ hs)
  rw [h, List.takeWhile_append_of_pos hpos, List.takeWhile_cons_of_neg (by simp), List.append_nil]

end Stage

namespace Lowering

variable {I : List Stage → Program → Context → Prop}

/-- What holds before the first stage and is kept by every stage, run or not, holds after the last
stage. -/
theorem stages_induction
    (skip : ∀ {before : List Stage} {stage : Stage} {p : Program} {cx : Context},
      I before p cx → (stage.isEnabled cx.config = false ∨ cx.hasFatal = true) →
        I (before ++ [stage]) p cx)
    (pass : ∀ {before after : List Stage} {stage : Stage} {p : Program} {cx : Context},
      Stage.all = before ++ stage :: after → I before p cx → stage.isEnabled cx.config = true →
        cx.hasFatal = false →
          I (before ++ [stage]) ((stage.pass p).run cx).1 ((stage.pass p).run cx).2)
    {p : Program} {cx : Context} (h : I [] p cx) :
    I Stage.all ((stages p).run cx).1 ((stages p).run cx).2 := by
  have hrun (stages before : List Stage) (p : Program) (cx : Context)
      (hall : Stage.all = before ++ stages) (h : I before p cx) :
      let r := (stages.foldlM (fun p s => s.run p) p : Lower Program).run cx
      I Stage.all r.1 r.2 := by
    induction stages generalizing before p cx with
    | nil =>
      rw [List.append_nil] at hall
      exact hall ▸ h
    | cons stage rest ih =>
      have hall' : Stage.all = (before ++ [stage]) ++ rest := by
        rw [hall, List.append_assoc]
        rfl
      have hstep : I (before ++ [stage]) ((stage.run p).run cx).1 ((stage.run p).run cx).2 := by
        rw [stage.run_eq]
        split
        next hcond =>
          obtain ⟨henabled, hfatal⟩ := Bool.and_eq_true_iff.mp hcond
          exact pass hall h henabled (by simpa using hfatal)
        next hcond =>
          refine skip h ?_
          simp only [Bool.and_eq_true, Bool.not_eq_true', not_and, Bool.not_eq_false] at hcond
          cases henabled : stage.isEnabled cx.config with
          | false => exact .inl rfl
          | true => exact .inr (hcond henabled)
      exact ih (before ++ [stage]) _ _ hall' hstep
  exact hrun Stage.all [] p cx rfl h

theorem run_finish (p : Program) (cx : Context) : ((finish p).run cx).2 =
    if cx.hasFatal then cx
    else
      match validateLabels p with
      | [] => cx
      | d :: _ => cx.record d := rfl

theorem isFatal_of_mem_validateLabels {p : Program} {d : Diagnostic} (h : d ∈ validateLabels p) :
    d.isFatal = true := by
  obtain ⟨r, -, rfl⟩ := List.mem_map.mp h
  rfl

/-- The last check only records something fatal. -/
theorem finish_eq_of_hasFatal {p : Program} {cx : Context}
    (h : ((finish p).run cx).2.hasFatal = false) : ((finish p).run cx).2 = cx := by
  rw [run_finish] at h ⊢
  split
  · rfl
  · rw [if_neg ‹_›] at h
    split at h
    · rfl
    next d rest hd =>
      have hfatal := isFatal_of_mem_validateLabels (hd ▸ List.mem_cons_self)
      simp [Context.hasFatal, Context.record, hfatal] at h

theorem lowerWith_eq (config : Config) (p : Program) :
    let r := (stages p).run (.start config p)
    lowerWith config p = ⟨r.1, ((finish r.1).run r.2).2.diagnostics⟩ := rfl

theorem lowerProgram_eq {config : Config} (h : config.validate = .ok ()) (p : Program) :
    lowerProgram config p = .ok (lowerWith config p) := by
  rw [lowerProgram, h]
  rfl

/-- Lowering that ends without a violation ends with the last stage. -/
theorem lowerWith_of_hasFatal {config : Config} {p : Program}
    (h : (lowerWith config p).diagnostics.any Diagnostic.isFatal = false) :
    let r := (stages p).run (.start config p)
    lowerWith config p = ⟨r.1, r.2.diagnostics⟩ ∧ r.2.hasFatal = false := by
  intro r
  have hfinish : ((finish r.1).run r.2).2 = r.2 := finish_eq_of_hasFatal h
  rw [lowerWith_eq, hfinish] at h ⊢
  exact ⟨rfl, h⟩

end Lowering

end PlainJs

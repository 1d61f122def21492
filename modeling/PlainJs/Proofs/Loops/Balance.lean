import PlainJs.Lowering.Loops
import PlainJs.Proofs.Declarations.Split
import PlainJs.Proofs.Rewriting

namespace PlainJs

open Node Build

namespace Loops

variable {known : List Diagnostic} {w : Weight known} {fr : Frame} {N : List String} {T : Terms}

theorem costs_labeledBody {body : Stmt} (h : w.sees → body.labelNames ⊆ N ∧ fr.labels ⊆ N) :
    w.Costs (w.terms N) (w.of fr) (w.of fr body) (labeledBody body) := by
  have hfresh : w.Costs (w.terms N) (w.of fr) (w.of fr body) (do
      let label ← Lower.freshLabel "L"
      return labeled label (.blockStmt (intoBlock body))) := by
    rw [← Nat.zero_add (w.of fr body)]
    refine (w.costs_freshLabel "L" (by decide)).bind_of (Q := fun label => w.sees → label.name ∉ N)
      (w.freshLabel_notMem "L") fun label hlabel => .pure ?_
    rw [Weight.of_labeled _ fun hs hmem => hlabel hs ((h hs).2 hmem), Measure.of_blockStmt,
      Measure.of_intoBlock, Weight.of_label _ fun hs hmem => hlabel hs ((h hs).1 hmem)]
  unfold labeledBody
  split
  · refine .look fun s => ?_
    split
    · exact .pure rfl
    · exact hfresh
  · exact hfresh

theorem costs_prelude (init : Node (.opt .forInit)) :
    w.Costs T (w.all fr) (w.of fr init) (Loops.prelude init) := by
  cases init with
  | none => exact .pure Measure.of_none.symm
  | some i =>
    rw [Measure.of_some]
    cases i with
    | initDecl v =>
      have hv : w.of fr (.initDecl v) = w.of fr v := Measure.of_one rfl rfl rfl
      rw [hv]
      exact Measure.costs_splitIfNeeded fr v
    | initExpr e =>
      have he : w.of fr (.initExpr e) = w.of fr e := Measure.of_one rfl rfl rfl
      exact .pure (by simp [he])

theorem of_toOption (o : Node (.opt .expr)) {e : Expr} (he : w.of fr e = 0) :
    w.of fr (o.toOption.getD e) = w.of fr o := by
  cases o with
  | none => simp [toOption, he]
  | some a => simp [toOption]

theorem all_update (o : Node (.opt .expr)) :
    w.all fr (o.toOption.map Build.exprStmt).toList = w.of fr o := by
  cases o with
  | none => simp [toOption]
  | some a => simp [toOption]

theorem costs_lowerFor {span : Span} {init : Node (.opt .forInit)} {test update : Node (.opt .expr)}
    {body : Stmt} (h : w.sees → body.labelNames ⊆ N ∧ fr.labels ⊆ N) :
    w.Costs (w.terms N) (w.of fr)
      (w.of fr init + (w.of fr.loop body + (w.of fr.loop test + w.of fr.loop update)))
      (lowerFor span init test update body) := by
  have hrest : w.Costs (w.terms N) (w.of fr)
      (w.of fr init + (w.of fr.loop body + (w.of fr.loop test + w.of fr.loop update))) (do
        let before ← Loops.prelude init
        let body ← labeledBody body
        let body := body :: (update.toOption.map Build.exprStmt).toList
        let test := test.toOption.getD (Build.bool true)
        if before.isEmpty then return whileDo span test body
        return Build.blockStmt span (before ++ [whileDo .none test body])) := by
    refine (costs_prelude init).bind fun before => ?_
    have hbody : w.Costs (w.terms N) (w.of fr.loop) (w.of fr.loop body) (labeledBody body) :=
      costs_labeledBody h
    refine (hbody.bind (b := w.all fr before + (w.of fr.loop test + w.of fr.loop update))
      fun body' => ?_).congr (by omega)
    have htest : w.of fr.loop (test.toOption.getD (Build.bool true)) = w.of fr.loop test :=
      of_toOption test (by simp)
    split
    next hempty =>
      refine .pure ?_
      rw [List.isEmpty_iff.mp hempty]
      simp only [Measure.of_whileDo, Measure.all_cons, Measure.all_nil, all_update, htest]
      omega
    next =>
      refine .pure ?_
      simp only [Measure.of_buildBlockStmt, Measure.all_append, Measure.of_whileDo,
        Measure.all_cons, Measure.all_nil, all_update, htest]
      omega
  unfold lowerFor
  split
  · exact ((Measure.Costs.limitation _ _).bind fun _ => hrest.congr (Nat.zero_add _).symm).congr
      (Nat.zero_add _)
  · exact hrest

theorem costs_lowerDoWhile {span : Span} {test : Expr} {body : Stmt}
    (h : w.sees → body.labelNames ⊆ N ∧ fr.labels ⊆ N) :
    w.Costs (w.terms N) (w.of fr) (w.of fr.loop body + w.of fr.loop test)
      (lowerDoWhile span test body) := by
  have hbody : w.Costs (w.terms N) (w.of fr.loop) (w.of fr.loop body) (labeledBody body) :=
    costs_labeledBody h
  refine hbody.bind fun body' => .pure ?_
  have hleave : w.of fr.loop (breakTo none) = 0 := Weight.of_leave rfl
  simp [hleave]

/-- The weight of what a step binds. -/
def ofBinding (w : Weight known) (fr : Frame) : StepBinding → Nat
  | .declare v => w.of fr v
  | .assign target => w.of fr target

theorem of_stepBinding {head : Node .forHead} {b : StepBinding} (h : stepBinding head = .ok b) :
    w.of fr head = ofBinding w fr b := by
  cases head with
  | headDecl v =>
    simp only [stepBinding] at h
    split at h
    · cases h
      exact Measure.of_one rfl rfl rfl
    · cases h
  | headUsing => cases h
  | headPat p =>
    have hp : w.of fr (.headPat p) = w.of fr p := Measure.of_one rfl rfl rfl
    rw [hp]
    simp only [stepBinding] at h
    cases htarget : p.assignTarget? with
    | none => rw [htarget] at h; cases h
    | some target =>
      rw [htarget] at h
      cases h
      unfold assignTarget? at htarget
      split at htarget <;> cases htarget <;> simp [ofBinding]

theorem eq_headDecl {head : Node .forHead} {v : VarDecl} (h : stepBinding head = .ok (.declare v)) :
    head = .headDecl v := by
  cases head with
  | headDecl v' =>
    simp only [stepBinding] at h
    split at h
    · cases h
      rfl
    · cases h
  | headUsing => cases h
  | headPat p =>
    simp only [stepBinding] at h
    cases htarget : p.assignTarget? <;> (rw [htarget] at h; cases h)

theorem of_initialiseFirst {v : VarDecl} {value : Expr} (hvalue : w.of fr value = 0)
    (hv : w.of fr v = 0 ∨ v.declarators.any isInitialised = false) :
    w.of fr (initialiseFirst value v) = w.of fr v := by
  cases v with
  | varDecl span ctxt kind declare decls =>
    cases decls with
    | nil => rfl
    | cons d rest =>
      cases d with
      | declarator dspan definite p init =>
        have hinit : w.of fr init = 0 := by
          rcases hv with hv | hv
          · simp only [Measure.of_varDecl, Measure.of_cons, Measure.of_declarator] at hv
            omega
          · cases init with
            | none => exact Measure.of_none
            | some e => cases hv
        have hfirst : initialiseFirst value (.varDecl span ctxt kind declare
            (.cons (.declarator dspan definite p init) rest)) = .varDecl span ctxt kind declare
              (.ofList (.declarator dspan definite p (.some value) :: rest.toList)) := rfl
        simp [hfirst, Measure.of_declarator, hinit, hvalue]

theorem costs_iterate {span : Span} {hint : String} {init : Expr} (subject : Expr)
    {b : StepBinding} {body : Stmt} (hhint : hint ∈ NameSupply.hints)
    (hinit : w.of fr init = w.of fr subject)
    (h : w.sees → body.labelNames ⊆ N ∧ fr.labels ⊆ N)
    (hclean : ∀ v, b = .declare v →
      w.of fr.loop v = 0 ∨ v.declarators.any isInitialised = false) :
    w.Costs (w.terms N) (w.of fr) (ofBinding w fr.loop b + w.of fr.loop body + w.of fr subject)
      (iterate span hint init b body) := by
  have hbound (value : Expr) (hvalue : w.of fr.loop value = 0) :
      w.Costs (w.terms N) (w.all fr.loop) (ofBinding w fr.loop b) (bindStep value b) := by
    cases b with
    | declare v =>
      exact (Measure.costs_splitIfNeeded fr.loop _).congr
        (of_initialiseFirst hvalue (hclean v rfl))
    | assign target => exact .pure (by simp [hvalue, ofBinding])
  rw [← Nat.zero_add (_ + _)]
  refine (Measure.Costs.fresh hint hhint).bind fun iterator => ?_
  rw [← Nat.zero_add (_ + _)]
  refine (Measure.Costs.fresh "step" (by decide)).bind fun step => ?_
  refine ((hbound _ (by simp)).bind (b := w.of fr.loop body +
    (w.mark step.name + w.mark iterator.name + w.of fr subject)) fun bound => ?_).congr (by omega)
  have hbody : w.Costs (w.terms N) (w.of fr.loop) (w.of fr.loop body) (labeledBody body) :=
    costs_labeledBody h
  refine (hbody.bind (b := w.all fr.loop bound +
    (w.mark step.name + w.mark iterator.name + w.of fr subject)) fun body' => .pure ?_).congr
      (by omega)
  simp [hinit]
  omega

theorem isInitialised_eq_any (v : VarDecl) :
    v.declarators.any isInitialised = v.declShape.any (·.isInitialised) := by
  cases v with
  | varDecl span ctxt kind declare decls =>
    change decls.toList.any isInitialised = decls.declShape.any (·.isInitialised)
    rw [← ofList_toList decls]
    induction decls.toList with
    | nil => rfl
    | cons d l ih =>
      rw [ofList, toList_cons, List.any_cons, ih, declShape, List.any_append]
      cases d with
      | declarator dspan definite p init => cases init <;> rfl

/-- Looking at the head of a `for-of` loop changes nothing. -/
theorem run_checkForOf (span : Span) (isAwait : Bool) (head : Node .forHead) (s : Context) :
    ∃ r, (checkForOf span isAwait head).run s = (r, s) ∧
      ∀ b, r = .ok b → stepBinding head = .ok b := by
  cases isAwait with
  | true => exact ⟨.error .forAwait, rfl, nofun⟩
  | false =>
    cases h : s.scopes.isBoundAt "Symbol" span with
    | true => exact ⟨.error .symbolBound, by simp [checkForOf, Lower.isBoundAt, h]; rfl, nofun⟩
    | false => exact ⟨stepBinding head, by simp [checkForOf, Lower.isBoundAt, h]; rfl, fun _ h => h⟩

/-- Looking at the head of a `for-in` loop changes nothing. -/
theorem run_checkForIn (span : Span) (head : Node .forHead) (s : Context) :
    ∃ r, (checkForIn span head).run s = (r, s) ∧
      ∀ b, r = .ok b → stepBinding head = .ok b ∧ head.isInitialisedHead = false := by
  cases hinit : head.isInitialisedHead with
  | true => exact ⟨.error .initialisedHead, by simp [checkForIn, hinit]; rfl, nofun⟩
  | false =>
    cases h : s.scopes.isBoundAt s.config.keyHelper span with
    | true =>
      exact ⟨.error .helperBound, by simp [checkForIn, hinit, Lower.isBoundAt, h]; rfl, nofun⟩
    | false =>
      exact ⟨stepBinding head, by simp [checkForIn, hinit, Lower.isBoundAt, h]; rfl,
        fun _ h => ⟨h, rfl⟩⟩

/-- A `for-of` loop is reported and stays, or it becomes a loop over an iterator. -/
theorem run_lowerForOf (span : Span) (isAwait : Bool) (head : Node .forHead) (subject : Expr)
    (body : Stmt) (s : Context) :
    let r := (lowerForOf span isAwait head subject body).run s
    (∃ message, r = (.forOfStmt span isAwait head subject body,
        s.record ⟨.unsupported, span, message⟩)) ∨
      isAwait = false ∧ ∃ b, stepBinding head = .ok b ∧ r = (iterate span "iter" (Build.call
        (computed subject (Build.member (Build.name "Symbol") "iterator")) []) b body).run s := by
  intro r
  obtain ⟨result, hcheck, hok⟩ := run_checkForOf span isAwait head s
  cases result with
  | error fault =>
    refine .inl ⟨fault.message, ?_⟩
    simp only [r, lowerForOf, StateT.run_bind, hcheck]
    rfl
  | ok b =>
    refine .inr ⟨?_, b, hok b rfl, ?_⟩
    · cases isAwait with
      | true => cases hcheck
      | false => rfl
    · simp only [r, lowerForOf, StateT.run_bind, hcheck]
      rfl

/-- A `for-in` loop is reported and stays, or it becomes a loop over an iterator. -/
theorem run_lowerForIn (span : Span) (head : Node .forHead) (subject : Expr) (body : Stmt)
    (s : Context) :
    let r := (lowerForIn span head subject body).run s
    (∃ message, r = (.forInStmt span head subject body,
        s.record ⟨.unsupported, span, message⟩)) ∨
      ∃ b, stepBinding head = .ok b ∧ head.isInitialisedHead = false ∧ r = (iterate span "keys"
        (Build.call (Build.name s.config.keyHelper) [subject]) b body).run s := by
  intro r
  obtain ⟨result, hcheck, hok⟩ := run_checkForIn span head s
  cases result with
  | error fault =>
    refine .inl ⟨fault.message, ?_⟩
    simp only [r, lowerForIn, StateT.run_bind, hcheck]
    rfl
  | ok b =>
    refine .inr ⟨b, (hok b rfl).1, (hok b rfl).2, ?_⟩
    simp only [r, lowerForIn, StateT.run_bind, hcheck]
    rfl

theorem costs_lowerForOf {span : Span} {isAwait : Bool} {head : Node .forHead} {subject : Expr}
    {body : Stmt} (hspares : w.Spares) (h : w.sees → body.labelNames ⊆ N ∧ fr.labels ⊆ N)
    (hclean : w.of fr.loop head = 0 ∨
      (forOfStmt span isAwait head subject body).hasPlainHead = true) :
    w.Costs (w.terms N) (w.of fr) (w.inner fr (.forOfStmt span isAwait head subject body))
      (lowerForOf span isAwait head subject body) := by
  intro s hs
  rcases run_lowerForOf span isAwait head subject body s with ⟨message, hout⟩ | ⟨-, b, hb, hout⟩
  · rw [hout]
    refine Measure.Costs.unsupported message (fun hreported => ?_) s hs
    have hown : w.own fr (forOfStmt span isAwait head subject body) = 0 := hspares hreported
    rw [Measure.of_eq, hown, Nat.zero_add]
  · rw [hout]
    refine (costs_iterate subject (by decide) (by simp) h fun v hv => ?_).congr ?_ s hs
    · subst hv
      have hhead := eq_headDecl hb
      subst hhead
      refine hclean.imp (fun hzero => ?_) fun hplain => ?_
      · rwa [of_stepBinding hb] at hzero
      · rw [isInitialised_eq_any]
        simpa [hasPlainHead, declShape] using hplain
    · have hsubject : w.of fr subject = w.of fr.loop subject := Weight.of_eq_of_noStmts _ rfl
      rw [← of_stepBinding hb, Measure.inner, hsubject]
      change _ = w.of fr.loop head + (w.of fr.loop subject + (w.of fr.loop body + 0))
      omega

theorem costs_lowerForIn {span : Span} {head : Node .forHead} {subject : Expr} {body : Stmt}
    (hspares : w.Spares) (h : w.sees → body.labelNames ⊆ N ∧ fr.labels ⊆ N) :
    w.Costs (w.terms N) (w.of fr) (w.inner fr (.forInStmt span head subject body))
      (lowerForIn span head subject body) := by
  intro s hs
  rcases run_lowerForIn span head subject body s with ⟨message, hout⟩ | ⟨b, hb, hplain, hout⟩
  · rw [hout]
    refine Measure.Costs.unsupported message (fun hreported => ?_) s hs
    have hown : w.own fr (forInStmt span head subject body) = 0 := hspares hreported
    rw [Measure.of_eq, hown, Nat.zero_add]
  · rw [hout]
    refine (costs_iterate subject (by decide) (by simp) h fun v hv => ?_).congr ?_ s hs
    · subst hv
      rw [eq_headDecl hb] at hplain
      exact .inr hplain
    · have hsubject : w.of fr subject = w.of fr.loop subject := Weight.of_eq_of_noStmts _ rfl
      rw [← of_stepBinding hb, Measure.inner, hsubject]
      change _ = w.of fr.loop head + (w.of fr.loop subject + (w.of fr.loop body + 0))
      omega

theorem yields_iterate {span : Span} {hint : String} {init : Expr} {b : StepBinding} {body : Stmt} :
    Lower.Yields (fun k' => [] = k'.declSpans) (iterate span hint init b body) :=
  .bind fun _ => .bind fun _ => .bind fun _ => .bind fun _ => .pure rfl

/-- Whatever becomes of a loop, it is no declaration. -/
theorem declSpans_lowerLoop (k : Stmt) :
    Lower.Yields (fun k' => k.declSpans = k'.declSpans) (lowerLoop k) := by
  cases k with
  | forStmt span init test update body =>
    unfold lowerLoop lowerFor
    split
    all_goals
      repeat' first | exact .pure rfl | refine .bind fun _ => ?_ | split
  | doWhileStmt span test body => exact .bind fun _ => .pure rfl
  | forOfStmt span isAwait head subject body =>
    refine .bind fun r => ?_
    cases r with
    | error fault => exact .bind fun _ => .pure rfl
    | ok b => exact yields_iterate
  | forInStmt span head subject body =>
    refine .bind fun r => ?_
    cases r with
    | error fault => exact .bind fun _ => .pure rfl
    | ok b => exact .bind fun _ => yields_iterate
  | _ => exact .pure rfl

/-- The pass rewrites the loops. -/
theorem rewrites (known : List Diagnostic) : Rewrites known lowerLoop isLoop where
  form_parts h := h.form_eq isLoop fun m => by cases m <;> rfl
  isStmt {c n} h := by cases n <;> first | rfl | cases h
  ownLabels {c n} h := by cases n <;> first | rfl | cases h
  isLeave {c n} h := by cases n <;> first | rfl | cases h
  other k h := by cases k <;> first | rfl | cases h
  declSpans := declSpans_lowerLoop
  costs w N fr k hk htracks hspares hclean := by
    have hlabels {body : Stmt} (hbody : ⟨.stmt, body⟩ ∈ k.children) :
        w.sees → body.labelNames ⊆ N ∧ fr.labels ⊆ N :=
      fun hs => ⟨labelNames_part (htracks hs).1 hbody, (htracks hs).2.1⟩
    cases k with
    | forStmt span init test update body =>
      refine (costs_lowerFor (hlabels (by simp [children]))).congr ?_
      have hinit : w.of fr init = w.of fr.loop init := Weight.of_eq_of_noStmts _ rfl
      rw [Measure.inner, hinit]
      change _ = w.of fr.loop init + (w.of fr.loop test + (w.of fr.loop update +
        (w.of fr.loop body + 0)))
      omega
    | doWhileStmt span test body =>
      refine (costs_lowerDoWhile (hlabels (by simp [children]))).congr ?_
      rw [Measure.inner]
      change _ = w.of fr.loop test + (w.of fr.loop body + 0)
      omega
    | whileStmt span test body =>
      refine .pure ?_
      rw [Measure.of_eq, w.own_glue rfl, Nat.zero_add]
    | forOfStmt span isAwait head subject body =>
      refine costs_lowerForOf hspares (hlabels (by simp [children]))
        (hclean.imp (fun hzero => ?_) (·.2))
      change w.of fr.loop head + (w.of fr.loop subject + (w.of fr.loop body + 0)) = 0 at hzero
      omega
    | forInStmt span head subject body => exact costs_lowerForIn hspares (hlabels (by simp [children]))
    | _ => cases hk

end Loops

end PlainJs

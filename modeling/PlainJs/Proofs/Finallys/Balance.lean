import PlainJs.Lowering.Finallys
import PlainJs.Proofs.Rewriting

namespace PlainJs

open Node Build

namespace Finallys

variable {known : List Diagnostic} {w : Weight known} {fr : Frame}

theorem of_recordClause (threw err caught : Ident) :
    w.of fr (recordClause threw err caught) = w.mark caught.name := by
  rw [recordClause, Measure.of_eq, w.own_handler]
  change _ + ((w.of fr _) + (w.of fr _ + 0)) = _
  simp

/-- A handler keeps its weight but for what its new body holds. -/
theorem of_handler {span : Span} {p : Node (.opt .pat)} {b b' : Block} {x : Nat}
    (h : w.of fr b' = w.of fr b + x) :
    w.of fr (.handler span p b') = w.of fr (.handler span p b) + x := by
  have hown : w.own fr (.handler span p b) = w.own fr (.handler span p b') :=
    w.own_parts ⟨p, ⟨.refl _, fun _ => rfl⟩, b', ⟨.of_isMute rfl _ _, nofun⟩, rfl⟩
  rw [Measure.of_eq, Measure.of_eq, ← hown]
  change _ + (w.of fr p + (w.of fr b' + 0)) = _ + (w.of fr p + (w.of fr b + 0)) + x
  omega

theorem of_guarded (body : Block) (recording : Node .handler) (handler : Node (.opt .handler)) :
    w.of fr (guarded body recording handler) =
      w.of fr body + w.of fr handler + w.of fr recording := by
  cases handler with
  | none => simp [guarded]
  | some h =>
    cases h with
    | handler span p b =>
      have hinner : w.of fr (Build.block [.tryStmt .none b (.some recording) .none]) =
          w.of fr b + w.of fr recording := by simp
      simp only [guarded, Measure.of_tryCatch, Measure.of_some, of_handler hinner]
      omega

theorem costs_lower {T : Terms} (span : Span) (body : Block) (handler : Node (.opt .handler))
    (finalizer : Block) :
    w.Costs T (w.of fr) (w.of fr body + w.of fr handler + w.of fr finalizer)
      (lower span body handler finalizer) := by
  rw [← Nat.zero_add (_ + _)]
  refine (Measure.Costs.fresh "threw" (by decide)).bind fun threw => ?_
  rw [← Nat.zero_add (_ + _)]
  refine (Measure.Costs.fresh "err" (by decide)).bind fun err => ?_
  rw [← Nat.zero_add (_ + _)]
  refine (Measure.Costs.fresh "e" (by decide)).bind fun caught => .pure ?_
  simp only [Measure.of_buildBlockStmt, Measure.all_cons, Measure.of_declare, of_guarded,
    of_recordClause, Measure.of_blockStmt, Measure.of_ifElse, Measure.of_buildThrow, Measure.of_ref,
    Measure.of_bool, Measure.all_nil, Option.toList]
  omega

/-- The pass rewrites the `try` statements. -/
theorem rewrites (known : List Diagnostic) : Rewrites known lowerTry isTry where
  form_parts h := h.form_eq isTry fun m => by cases m <;> rfl
  isStmt {c n} h := by cases n <;> first | rfl | cases h
  ownLabels {c n} h := by cases n <;> first | rfl | cases h
  isLeave {c n} h := by cases n <;> first | rfl | cases h
  other k h := by cases k <;> first | rfl | cases h
  declSpans k s := by
    cases k with
    | tryStmt span b h f => cases f <;> rfl
    | _ => rfl
  costs w N fr k hk htracks hspares hclean := by
    cases k with
    | tryStmt span b h f =>
      cases f with
      | none =>
        refine .pure ?_
        rw [Measure.of_eq, w.own_glue rfl, Nat.zero_add]
      | some f =>
        have hinner : w.inner fr (.tryStmt span b h (.some f)) =
            w.of fr b + w.of fr h + w.of fr f := by
          rw [Measure.inner]
          change w.of fr b + (w.of fr h + (w.of fr (.some f) + 0)) = _
          rw [Measure.of_some]
          omega
        rw [hinner, ← Nat.zero_add (_ + _)]
        refine (Measure.Costs.forM (fun _ => .limitation _ _) _).bind fun _ => ?_
        rw [Nat.zero_add]
        exact costs_lower span b h f
    | _ => cases hk

end Finallys

end PlainJs

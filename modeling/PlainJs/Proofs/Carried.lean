import Mathlib.Algebra.BigOperators.Group.List.Basic
import PlainJs.Proofs.Settled

namespace PlainJs

namespace Node

/-- What the nodes of a tree give, taken together. -/
def gather {α : Type} (own : ∀ {d : Cat}, Node d → List α) {c : Cat} (n : Node c) : List α :=
  own n ++ n.children.attach.flatMap fun ⟨⟨_, k⟩, _⟩ => gather own k
termination_by sizeOf n
decreasing_by exact sizeOf_lt_of_mem_children ‹_›

variable {c : Cat}

theorem gather_eq {α : Type} (own : ∀ {d : Cat}, Node d → List α) (n : Node c) :
    n.gather own = own n ++ n.children.flatMap fun k => k.2.gather own := by
  rw [gather, List.flatMap_subtype (g := fun k => k.2.gather own) fun _ _ => rfl, List.unattach_attach]

theorem count_gather {α : Type} [BEq α] {own : ∀ {d : Cat}, Node d → List α} (n : Node c) (x : α) :
    (n.gather own).count x =
      (own n).count x + (n.children.map fun k => (k.2.gather own).count x).sum := by
  rw [gather_eq, List.count_append, List.count_flatMap]
  rfl

theorem all_of_forall {test : ∀ {d : Cat}, Node d → Bool} {c : Cat} (n : Node c)
    (h : ∀ {d : Cat} (k : Node d), test k = true) : n.all test = true := by
  induction n using partsInduction with
  | step n ih => exact all_iff.mpr ⟨h n, ih⟩

end Node

open Node

namespace Weight

variable {known : List Diagnostic} {w : Weight known}

/-- A weight that gives nothing to the nodes that stages rewrite, and that does not look at what
stands around a node. -/
structure Carried (w : Weight known) : Prop where
  own_form : ∀ (stage : Stage) {fr : Frame} {c : Cat} {n : Node c},
    stage.form n = true → w.own fr n = 0
  blind : ¬w.sees
  jump : ∀ x, w.jump x = 0
  admits : ∀ x, w.admits x

theorem Carried.turns (h : w.Carried) (stage : Stage) : w.Turns w stage.form where
  held := rfl
  admits := rfl
  agree _ := rfl
  rewritten hn := h.own_form stage hn
  sees := rfl
  jump := rfl
  spares {fr c n} hn := by
    cases n with
    | forInStmt | forOfStmt => exact h.own_form .loops rfl
    | switchStmt => exact h.own_form .switches rfl
    | _ => cases hn

theorem Carried.ready (h : w.Carried) {stage : Stage} {p : Program}
    (hheads : stage = .loops → p.all hasPlainHead = true) : stage.Ready w w [] p where
  turns := h.turns stage
  spread _ {fr c n} hn := h.own_form .switches hn
  tracks hs := absurd hs h.blind
  clean hdecl hcont := by
    refine .inr ⟨fun _ _ => h.own_form .declarations rfl, ?_⟩
    cases stage with
    | declarations => exact absurd rfl hdecl
    | continues => exact absurd rfl hcont
    | loops => exact all_mono (fun k hk => by rw [hk, Bool.or_true]) (hheads rfl)
    | switches | finallys =>
      exact all_of_forall p fun k => by cases k <;> rfl

theorem lenient_hasPlainHead (known : List Diagnostic) : Lenient known hasPlainHead where
  glue {c n} h := by cases n <;> first | rfl | cases h
  placing {c n} h := by cases n <;> first | rfl | cases h
  parts h := Rewrites.hasPlainHead_parts (h.imp fun _ hk => hk.1)

end Weight

/-- Splitting declarations and replacing each `continue` keeps whether all nodes pass a test, if the
nodes that are rewritten do and no other node fails because of them. -/
theorem Stage.all_pass_eq {test : ∀ {c : Cat}, Node c → Bool}
    (hlenient : ∀ known, Lenient known test)
    (hform : ∀ {c : Cat} {n : Node c}, n.isDeclVar || n.isContinue || n.isSwitch → test n = true)
    {stage : Stage} (hstage : stage = .declarations ∨ stage = .continues) (p : Program)
    (cx : Context) : ((stage.pass p).run cx).1.all test = p.all test := by
  let known := ((stage.pass p).run cx).2.diagnostics
  let w := Weight.failures (hlenient known)
  suffices hweight : w.of .top ((stage.pass p).run cx).1 = w.of .top p by
    have hiff (q : Program) : w.of .top q = 0 ↔ q.all test = true := Weight.failures_eq_zero
    rw [Bool.eq_iff_iff, ← hiff, ← hiff, hweight]
  have hpassed {fr : Frame} {c : Cat} {n : Node c}
      (hn : n.isDeclVar || n.isContinue || n.isSwitch) : w.own fr n = 0 := if_pos (hform hn)
  rcases hstage with rfl | rfl
  · have hturn : w.toMeasure.Turns w.toMeasure isDeclVar :=
      ⟨rfl, rfl, fun _ => rfl, fun h => hpassed (by simp [h])⟩
    have hcosts := costs_splitDeclarations (T := .free) hturn (fun hn => hpassed (by simp [hn])) p
      (.inl (isLoose_of_isClosed rfl)) .top cx trivial
    exact hcosts.2 ⟨List.Subset.refl _, fun _ _ => trivial⟩ trivial
  · have hturn : w.toMeasure.Turns w.toMeasure isContinue :=
      ⟨rfl, rfl, fun _ => rfl, fun h => hpassed (by simp [h])⟩
    have hcosts := weighed_replaceContinues (p := p) hturn (List.nil_subset cx.names.reserved)
      fun h => h.elim
    exact hcosts.2.2.2 ⟨⟨List.Subset.refl _, fun _ _ => trivial⟩, fun _ _ => rfl,
      .inr fun _ _ _ => hpassed rfl⟩

/-- Splitting declarations and replacing each `continue` leaves the heads of loops plain. -/
theorem Stage.all_hasPlainHead_pass {stage : Stage} {p : Program} (cx : Context)
    (hstage : stage = .declarations ∨ stage = .continues) (h : p.all hasPlainHead = true) :
    ((stage.pass p).run cx).1.all hasPlainHead = true :=
  (Stage.all_pass_eq Weight.lenient_hasPlainHead (fun {c n} hn => by cases n <;> first | rfl | cases hn)
    hstage p cx).trans h

namespace Lowering

theorem steps_foldlM (l : List Stage) (p : Program) (cx : Context) :
    cx.Steps ((l.foldlM (fun p s => s.run p) p : Lower Program).run cx).2 := by
  induction l generalizing p cx with
  | nil => exact .refl
  | cons stage l ih => exact (stage.steps_run p cx).trans (ih _ _)

theorem steps_stages (p : Program) (cx : Context) : cx.Steps ((stages p).run cx).2 :=
  steps_foldlM Stage.all p cx

/-- All stages together keep a weight that is carried. -/
theorem carried_stages {p : Program} (cx : Context) (hheads : p.all hasPlainHead = true) :
    let r := (stages p).run cx
    ∀ w : Weight r.2.diagnostics, w.Carried →
      w.of .top r.1 + w.held cx.names = w.of .top p + w.held r.2.names := by
  intro r w hw
  let I (before : List Stage) (q : Program) (cx' : Context) : Prop :=
    (before ⊆ [.declarations, .continues] → q.all hasPlainHead = true) ∧
      (cx'.diagnostics ⊆ r.2.diagnostics →
        w.of .top q + w.held cx.names = w.of .top p + w.held cx'.names)
  have h : I Stage.all r.1 r.2 := by
    refine stages_induction ?_ ?_ ⟨fun _ => hheads, fun _ => rfl⟩
    · rintro before stage q cx' ⟨hplain, hbalance⟩ -
      exact ⟨fun hsub => hplain (List.append_subset.mp hsub).1, hbalance⟩
    · rintro before after stage q cx' hall ⟨hplain, hbalance⟩ - -
      refine ⟨fun hsub => ?_, fun hsub => ?_⟩
      · obtain ⟨hbefore, hstage⟩ := List.append_subset.mp hsub
        exact Stage.all_hasPlainHead_pass cx' (by simpa using hstage) (hplain hbefore)
      · have hsteps := stage.steps_pass q cx'
        have hready : stage.Ready w w [] q := hw.ready fun hloops => hplain <| by
          rw [Stage.eq_takeWhile_of_all hall, hloops]
          decide
        have hstep := (stage.balance hready fun hs => absurd hs hw.blind).2
          ⟨⟨hsub, fun x _ => hw.admits x⟩, fun x _ => hw.jump x,
            .inr fun _ _ _ => hw.own_form .continues rfl⟩
        have hbefore := hbalance (List.Subset.trans hsteps.grows.subset hsub)
        omega
  exact h.2 (List.Subset.refl _)

theorem grows_finish (p : Program) (cx : Context) : cx.Grows ((finish p).run cx).2 := by
  rw [run_finish]
  split
  · exact .refl cx
  · split
    · exact .refl cx
    · exact ⟨rfl, List.Subset.refl _, _, rfl⟩

/-- The last check makes no names. -/
theorem names_finish (p : Program) (cx : Context) : ((finish p).run cx).2.names = cx.names := by
  rw [run_finish]
  split
  · rfl
  · split <;> rfl

end Lowering

end PlainJs

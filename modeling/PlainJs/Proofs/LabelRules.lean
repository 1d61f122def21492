import PlainJs.Proofs.Collected
import PlainJs.Proofs.Settled

namespace PlainJs

open Node

namespace Node

variable {c : Cat}

/-- Whether a `break` without a label in a part of a node finds something to leave. -/
def catchesBreaks (caught : Bool) (n : Node c) : Bool :=
  n.isLoop || n.isSwitch || (!n.isFunctionLike && caught)

/-- Whether every `break` without a label stands in a loop or a `switch` of its function; `caught`
says this of what stands around. -/
def breaksCaught (caught : Bool) {c : Cat} (n : Node c) : Bool :=
  (!n.isLeave || caught) &&
    n.children.attach.all fun ⟨⟨_, k⟩, _⟩ => breaksCaught (n.catchesBreaks caught) k
termination_by sizeOf n
decreasing_by exact sizeOf_lt_of_mem_children ‹_›

end Node

namespace Weight

variable {known : List Diagnostic} {c : Cat} {n : Node c} {fr : Frame}

theorem strays_eq_zero : (strays known).of fr n = 0 ↔ n.breaksCaught fr.caught = true := by
  induction n using partsInduction generalizing fr with
  | step n ih =>
    have henter : (fr.enter n).caught = n.catchesBreaks fr.caught := by cases n <;> rfl
    have hown : (strays known).own fr n = 0 ↔ (!n.isLeave || fr.caught) = true := by
      cases hn : n.isLeave <;> cases hc : fr.caught <;> simp [strays, hn, hc]
    rw [of_eq_zero, hown, breaksCaught, Bool.and_eq_true, List.all_eq_true]
    refine and_congr_right fun _ => ⟨fun h k _ => ?_, fun h k hk => ?_⟩
    · rw [← henter]
      exact (ih k.2).mp (h _ k.2)
    · rw [ih hk, henter]
      exact h ⟨k, hk⟩ (List.mem_attach _ _)

/-- What a node counts itself that breaks the rules for labels. -/
def ownFaults (jumps : Bool) (fr : Frame) : {c : Cat} → Node c → Nat
  | _, .labeledStmt _ label _ => if label.name ∈ fr.labels then 1 else 0
  | _, .breakStmt _ (.some label) => if label.name ∈ fr.labels then 0 else 1
  | _, .continueStmt _ (.some label) => if jumps && label.name ∉ fr.labels then 1 else 0
  | _, _ => 0

/-- Counts what breaks the rules for labels. Each `continue` is looked at with `jumps` only. -/
def faults (known : List Diagnostic) (jumps : Bool) : Weight known where
  own fr {_} n := ownFaults jumps fr n
  mark _ := 0
  held := NameSupply.unweighed
  markLabel _ := 0
  jump _ := 0
  sees := True
  own_glue {_ _ n} h := by cases n <;> first | rfl | cases h
  own_declarator := @Node.unweighed_declarator
  own_parts {fr _ _ _} h := h.form_eq (ownFaults jumps fr) fun m => by cases m <;> rfl
  held_fresh := NameSupply.unweighed_fresh
  own_handler := rfl
  own_class := rfl
  own_labeled h := if_neg (h trivial)
  own_break h := if_pos (h trivial)
  own_leave _ := rfl
  own_frame {fr fr' c n} h := by
    have hlabels := (h trivial).1
    unfold ownFaults
    split
    · next label _ => simp only [hlabels label.name (.head _)]
    · next label => simp only [hlabels label.name (.head _)]
    · next label => simp only [hlabels label.name (.head _)]
    · rfl
  held_freshLabel := NameSupply.unweighed_freshLabel

theorem faults_eq_zero : (faults known true).of fr n = 0 ↔ labelFaults fr.labels n = [] := by
  induction n using partsInduction generalizing fr with
  | step n ih =>
    rw [of_eq_zero]
    unfold labelFaults
    split
    · next span label body =>
      rw [List.append_eq_nil_iff]
      refine and_congr ?_ ?_
      · simp [faults, ownFaults]
      · simp only [children, List.forall_mem_singleton]
        exact ih (.head _)
    · next span label =>
      cases label <;> simp [faults, ownFaults, labelFaults.unresolved, children]
    · next span label =>
      cases label <;> simp [faults, ownFaults, labelFaults.unresolved, children]
    · next hlabeled hbreak hcontinue =>
      have hown : (faults known true).own fr n = 0 := by
        change ownFaults true fr n = 0
        unfold ownFaults
        split
        · exact (hlabeled _ _ _ rfl .rfl).elim
        · exact (hbreak _ _ rfl .rfl).elim
        · exact (hcontinue _ _ rfl .rfl).elim
        · rfl
      have henter : (fr.enter n).labels = if n.isFunctionLike then [] else fr.labels := by
        cases n <;> first | rfl | exact (hlabeled _ _ _ rfl .rfl).elim
      rw [← henter, List.flatMap_eq_nil_iff, and_iff_right hown]
      refine ⟨fun h k _ => (ih k.2).mp (h _ k.2), fun h k hk => (ih hk).mpr ?_⟩
      exact h ⟨k, hk⟩ (List.mem_attach _ _)

end Weight

section

open Around (Chain Fits catches)

variable {known : List Diagnostic} {env : List Around} {chain : List String} {fr : Frame} {c : Cat}
  {n : Node c}

theorem labels_of_fits {ts : List JumpTarget} (h : List.Forall₂ Fits env ts) :
    Around.labels env = ts.filterMap JumpTarget.label? := by
  induction h with
  | nil => rfl
  | cons hf _ ih =>
    cases hf with
    | label l => exact congrArg (l :: ·) ih
    | loop => exact ih

/-- The label of a `continue` stands before the loop that the `continue` means. -/
theorem mem_labels_of_catches {l : String} (hchain : Chain env chain)
    (h : env.any (catches (some l)) = true) : l ∈ Around.labels env := by
  obtain ⟨a, ha, hcatch⟩ := List.any_eq_true.mp h
  cases a with
  | label => cases hcatch
  | loop ls =>
    obtain ⟨pre, post, rfl⟩ := List.append_of_mem ha
    obtain ⟨rest, rfl⟩ := hchain.labels_of_loop rfl
    have hmem : l ∈ ls := by simpa [catches] using hcatch
    simp [labels_append, hmem]

/-- What stands around a node, as two descriptions of it agree. -/
structure Stands (env : List Around) (chain : List String) (fr : Frame) : Prop where
  chain : Chain env chain
  fits : List.Forall₂ Fits env fr.around
  nodup : (Around.labels env).Nodup

theorem Stands.labels (h : Stands env chain fr) : Around.labels env = fr.labels :=
  labels_of_fits h.fits

theorem Stands.enter (h : Stands env chain fr) (hn : n.isLabeled = false) :
    Stands (n.around env chain) [] (fr.enter n) := by
  have hinside : Stands env [] fr := ⟨.inside h.chain, h.fits, h.nodup⟩
  have hswitch : Stands env [] { fr with caught := true } := ⟨.inside h.chain, h.fits, h.nodup⟩
  have htop : Stands [] [] .top := ⟨.nil, .nil, .nil⟩
  have hloop : Stands (.loop chain :: env) [] fr.loop :=
    ⟨.loop h.chain, .cons (.loop chain none) h.fits, h.nodup⟩
  unfold Frame.enter
  split
  · cases hn
  · exact hswitch
  · unfold around
    split
    · exact hloop
    · split
      · exact htop
      · exact hinside

theorem Stands.label (h : Stands env chain fr) {l : String} (hl : l ∉ Around.labels env) :
    Stands (.label l :: env) (l :: chain) (fr.label l) :=
  ⟨.label l h.chain, .cons (.label l) h.fits, List.nodup_cons.mpr ⟨hl, h.nodup⟩⟩

/-- Where the jumps find their targets no rule is broken, and no `continue` is without a loop. -/
theorem faults_of_wellAimed (h : Stands env chain fr) (hn : n.wellAimed env chain = true) :
    (Weight.faults known true).of fr n = 0 ∧ (Measure.orphans known).of fr n = 0 := by
  induction n using partsInduction generalizing env chain fr with
  | step n ih =>
    have parts {w : Measure known} (hown : w.own fr n = 0)
        (hparts : ∀ {d : Cat} {k : Node d}, ⟨d, k⟩ ∈ n.children → w.of (fr.enter n) k = 0) :
        w.of fr n = 0 := Weight.of_eq_zero.mpr ⟨hown, fun k hk => hparts hk⟩
    cases hlabeled : n.isLabeled with
    | true =>
      cases n with
      | labeledStmt span label body =>
        rw [wellAimed] at hn
        simp only [Bool.and_eq_true, Bool.not_eq_true', List.contains_eq_mem,
          decide_eq_false_iff_not] at hn
        obtain ⟨hfaults, horphans⟩ := ih (.head _) (h.label hn.1) hn.2
        refine ⟨parts (if_neg (h.labels ▸ hn.1)) ?_, parts rfl ?_⟩
        · rintro _ _ (_ | ⟨_, hk⟩)
          · exact hfaults
          · cases hk
        · rintro _ _ (_ | ⟨_, hk⟩)
          · exact horphans
          · cases hk
      | _ => cases hlabeled
    | false =>
      have hpart {d : Cat} {k : Node d} (hk : ⟨d, k⟩ ∈ n.children) :=
        ih hk (h.enter hlabeled) (wellAimed_part hlabeled hn hk)
      refine ⟨parts ?_ fun hk => (hpart hk).1, parts ?_ fun hk => (hpart hk).2⟩
      · change Weight.ownFaults true fr n = 0
        unfold Weight.ownFaults
        split
        · cases hlabeled
        · rw [wellAimed] at hn
          refine if_pos ?_
          rw [← h.labels]
          simpa using hn
        · rw [wellAimed] at hn
          have hmem := mem_labels_of_catches h.chain hn
          rw [h.labels] at hmem
          simp [hmem]
        · rfl
      · refine if_neg ?_
        unfold Frame.isOrphan
        split
        · rw [wellAimed] at hn
          obtain ⟨pre, b, post, -, hres, -⟩ := resolve_eq h.chain h.fits h.nodup hn
          rw [hres]
          exact Bool.false_ne_true
        · exact Bool.false_ne_true

end

/-- Whether a node has a label or jumps. -/
def Node.isAim : {c : Cat} → Node c → Bool
  | _, .labeledStmt .. | _, .breakStmt .. | _, .continueStmt .. => true
  | _, _ => false

namespace Weight

variable {known : List Diagnostic} {fr : Frame} {c : Cat} {n : Node c}

/-- A weight that counts labels and jumps only, and none that are new. -/
structure Aims (w : Weight known) : Prop where
  own : ∀ {fr : Frame} {c : Cat} {n : Node c}, n.isAim = false → w.own fr n = 0
  idle : w.Idle
  admits : ∀ x, w.admits x

theorem Aims.labelsOutside (R : List String) : (labelsOutside known R).Aims where
  own {fr c n} h := by
    have hlabels : n.ownLabels = [] := by cases n <;> first | rfl | cases h
    simp [Weight.labelsOutside, hlabels]
  idle := idle_labelsOutside R
  admits _ := trivial

theorem Aims.strays : (strays known).Aims where
  own {fr c n} h := by
    have hleave : n.isLeave = false := by cases n <;> first | rfl | cases h
    simp [Weight.strays, hleave]
  idle _ _ := rfl
  admits _ := trivial

theorem Aims.faults (jumps : Bool) : (faults known jumps).Aims where
  own {fr c n} h := by cases n <;> first | rfl | cases h
  idle _ _ := rfl
  admits _ := trivial

/-- When each `continue` has been replaced they are looked at as well. -/
theorem turns_faults :
    (faults known false).toMeasure.Turns (faults known true).toMeasure isContinue where
  held := rfl
  admits := rfl
  agree {fr c n} h := by
    cases n with
    | breakStmt span label => cases label <;> rfl
    | continueStmt => cases h
    | _ => rfl
  rewritten {fr c n} h := by
    cases n with
    | continueStmt span label => cases label <;> rfl
    | _ => cases h

theorem faults_false_eq_zero (h : (faults known true).of fr n = 0) :
    (faults known false).of fr n = 0 := by
  induction n using partsInduction generalizing fr with
  | step n ih =>
    obtain ⟨hown, hparts⟩ := of_eq_zero.mp h
    refine of_eq_zero.mpr ⟨?_, fun k hk => ih hk (hparts k hk)⟩
    cases hn : n.isContinue with
    | true => exact turns_faults.rewritten hn
    | false => exact (turns_faults.agree hn).symm.trans hown

end Weight

/-- Splitting declarations leaves each `continue` where it is. -/
theorem Measure.orphans_splitDeclarations {known : List Diagnostic} {p : Program} {cx : Context}
    (hknown : ((splitDeclarations p).run cx).2.diagnostics ⊆ known)
    (h : (orphans known).of .top p = 0) :
    (orphans known).of .top ((splitDeclarations p).run cx).1 = 0 := by
  have hown {fr : Frame} {c : Cat} {n : Node c} (hn : n.isContinue = false) :
      (orphans known).own fr n = 0 := by
    cases n <;> first | rfl | cases hn
  have hturn : (orphans known).Turns (orphans known) isDeclVar :=
    ⟨rfl, rfl, fun _ => rfl, fun {fr c n} hn => hown (by cases n <;> first | rfl | cases hn)⟩
  have hcosts := costs_splitDeclarations (T := .free) hturn
    (fun {fr c n} hn => hown (by cases n <;> first | rfl | cases hn)) p
    (.inl (isLoose_of_isClosed rfl)) .top cx trivial
  exact (hcosts.2 ⟨hknown, fun _ _ => trivial⟩ trivial).trans h

namespace Stage

variable {known : List Diagnostic} {w w' : Weight known} {stage : Stage} {p : Program} {cx : Context}

/-- What is known of a program between the stages. -/
structure Labelled (known : List Diagnostic) (p : Program) (cx : Context) : Prop where
  hasFatal : cx.hasFatal = false
  labels : p.labelNames ⊆ cx.names.reserved
  strays : (Weight.strays known).of .top p = 0
  faults : (Weight.faults known true).of .top p = 0

/-- A stage keeps the weights that count labels and jumps. -/
theorem Labelled.ready (h : Labelled known p cx) (hw : w.Aims) (hw' : w'.Aims)
    (hturn : w.toMeasure.Turns w'.toMeasure stage.form) (hsees : w'.sees = w.sees)
    (hjump : w'.jump = w.jump) (hzero : w.of .top p = 0) :
    stage.Ready w w' cx.names.reserved p where
  turns := ⟨hturn, hsees, hjump, fun {fr c n} hn => hw'.own (by
    cases n <;> first | rfl | exact Bool.noConfusion hn)⟩
  spread _ {fr c n} hn := hw'.own (by cases n <;> first | rfl | exact Bool.noConfusion hn)
  tracks _ := ⟨h.labels, List.nil_subset _, h.strays⟩
  clean _ _ := .inl ⟨hw.idle, hzero⟩

theorem isAim_of_form (hstage : stage ≠ continues) {c : Cat} {n : Node c}
    (hn : stage.form n = true) : n.isAim = false := by
  cases n with
  | labeledStmt | breakStmt => cases stage <;> cases hn
  | continueStmt =>
    cases stage <;> first | exact absurd rfl hstage | cases hn
  | _ => rfl

theorem isLeave_of_form {c : Cat} {n : Node c} (hn : stage.form n = true) : n.isLeave = false := by
  cases n with
  | breakStmt => cases stage <;> cases hn
  | _ => rfl

/-- Each stage keeps what is known of labels and jumps. -/
theorem Labelled.pass (h : Labelled known p cx)
    (hknown : ((stage.pass p).run cx).2.diagnostics ⊆ known)
    (horphans : stage = continues → (Measure.orphans known).of .top p = 0) :
    Labelled known ((stage.pass p).run cx).1 ((stage.pass p).run cx).2 := by
  obtain ⟨hsteps, hcalm⟩ := stage.steps_and_calm_pass p cx
  have hturn : (Weight.faults known false).toMeasure.Turns (Weight.faults known true).toMeasure
    isContinue := Weight.turns_faults
  have hreplace := weighed_replaceContinues hturn (List.Subset.refl cx.names.reserved)
    fun _ => h.labels
  have hfatal : ((stage.pass p).run cx).2.hasFatal = false := by
    by_cases hstage : stage = continues
    · subst hstage
      have hsame : ((continues.pass p).run cx).2.diagnostics = cx.diagnostics :=
        hreplace.2.2.1 (horphans rfl)
      rw [Context.hasFatal, hsame]
      exact h.hasFatal
    · exact (hcalm hstage).hasFatal.trans h.hasFatal
  have keeps {w w' : Weight known} (hw : w.Aims) (hw' : w'.Aims)
      (hturn : w.toMeasure.Turns w'.toMeasure stage.form) (hsees : w'.sees = w.sees)
      (hjump : w'.jump = w.jump) (hzero : w.of .top p = 0)
      (hpost : ∀ x ∈ ((stage.pass p).run cx).2.names.reserved, w'.jump x = 0) :
      w'.of .top ((stage.pass p).run cx).1 = 0 :=
    of_pass_eq_zero (h.ready hw hw' hturn hsees hjump hzero) hw.idle
      ⟨⟨hknown, fun x _ => hw'.admits x⟩, hpost, .inl hfatal⟩
      hzero
  refine ⟨hfatal, ?_, ?_, ?_⟩
  · by_cases hstage : stage = continues
    · subst hstage
      exact hreplace.2.1 h.labels
    · let R := ((stage.pass p).run cx).2.names.reserved
      have hzero : (Weight.labelsOutside known R).of .top p = 0 :=
        Weight.labelsOutside_eq_zero.mpr (List.Subset.trans h.labels hsteps.grows.reserved)
      refine Weight.labelsOutside_eq_zero.mp (keeps (.labelsOutside R) (.labelsOutside R)
        ⟨rfl, rfl, fun _ => rfl, fun hn => ?_⟩ rfl rfl hzero fun x hx => if_pos hx)
      exact (Weight.Aims.labelsOutside R).own (isAim_of_form hstage hn)
  · refine keeps .strays .strays ⟨rfl, rfl, fun _ => rfl, fun {fr c n} hn => ?_⟩ rfl rfl h.strays
      fun _ _ => rfl
    simp [Weight.strays, isLeave_of_form hn]
  · by_cases hstage : stage = continues
    · subst hstage
      exact keeps (.faults _) (.faults _) hturn rfl rfl
        (Weight.faults_false_eq_zero h.faults) fun _ _ => rfl
    · refine keeps (.faults _) (.faults _) ⟨rfl, rfl, fun _ => rfl, fun hn => ?_⟩ rfl rfl h.faults
        fun _ _ => rfl
      exact (Weight.Aims.faults true).own (isAim_of_form hstage hn)

end Stage

namespace Lowering

/-- In a program whose jumps find their targets the stages record nothing fatal and keep the rules
for labels. -/
theorem labelled_stages {p : Program} {cx : Context} (hfatal : cx.hasFatal = false)
    (hlabels : p.labelNames ⊆ cx.names.reserved) (haimed : p.wellAimed [] [] = true)
    (hcaught : p.breaksCaught false = true) :
    let r := (stages p).run cx
    Stage.Labelled r.2.diagnostics r.1 r.2 := by
  intro r
  let I (before : List Stage) (p : Program) (cx : Context) : Prop :=
    cx.diagnostics ⊆ r.2.diagnostics → Stage.Labelled r.2.diagnostics p cx ∧
      (before ⊆ [.declarations] → (Measure.orphans r.2.diagnostics).of .top p = 0)
  have hstart : I [] p cx := by
    have htop : Stands [] [] .top := ⟨.nil, .nil, .nil⟩
    obtain ⟨hfaults, horphans⟩ := faults_of_wellAimed htop haimed
    exact fun _ => ⟨⟨hfatal, hlabels, Weight.strays_eq_zero.mpr hcaught, hfaults⟩, fun _ => horphans⟩
  have h : I Stage.all r.1 r.2 := by
    refine stages_induction ?_ ?_ hstart
    · intro before stage p cx h _ hsub
      exact (h hsub).imp_right fun horphans hbefore => horphans (List.append_subset.mp hbefore).1
    · intro before after stage p cx hall h _ _ hsub
      have hsteps := stage.steps_pass p cx
      obtain ⟨hlabelled, horphans⟩ := h (List.Subset.trans hsteps.grows.subset hsub)
      refine ⟨hlabelled.pass hsub fun hstage => horphans ?_, fun hbefore => ?_⟩
      · rw [Stage.eq_takeWhile_of_all hall, hstage]
        decide
      · obtain ⟨hrest, hstage⟩ := List.append_subset.mp hbefore
        obtain rfl : stage = .declarations := by simpa using hstage
        exact Measure.orphans_splitDeclarations hsub (horphans hrest)
  exact (h (List.Subset.refl _)).1

end Lowering

/-- Lowering never breaks the rules for labels. If the jumps of a program find their targets and its
labels are known to the supply, nothing fatal is recorded and the lowered program keeps the rules. -/
theorem lowerProgram_keeps_label_rules (config : Config) (p : Program)
    (hvalid : config.validate = .ok ()) (haimed : p.wellAimed [] [] = true)
    (hcaught : p.breaksCaught false = true)
    (hknown : p.labelNames ⊆ (Context.start config p).names.reserved) :
    ∃ r, lowerProgram config p = .ok r ∧ r.diagnostics.any Diagnostic.isFatal = false ∧
      validateLabels r.program = [] := by
  have h := Lowering.labelled_stages rfl hknown haimed hcaught
  have hrules : validateLabels ((Lowering.stages p).run (.start config p)).1 = [] :=
    List.map_eq_nil_iff.mpr (Weight.faults_eq_zero.mp h.faults)
  refine ⟨_, Lowering.lowerProgram_eq hvalid p, ?_⟩
  rw [Lowering.lowerWith_eq, Lowering.run_finish, hrules, ite_self]
  exact ⟨h.hasFatal, rfl⟩

/-- `outer: for (const x of xs) while (f(x)) { if (x) continue outer; break; }` -/
def escapingRounds : Program :=
  .scriptProgram .none none (.ofList [
    .labeledStmt .none (.ofName "outer") (.forOfStmt .none false
      (.headDecl (.varDecl .none 0 .const false
        (.ofList [.declarator .none false (.binder (.ofName "x")) .none])))
      (Build.name "xs")
      (.whileStmt .none (Build.call (Build.name "f") [Build.name "x"])
        (Build.blockStmt .none [
          Build.ifElse (Build.name "x") (.continueStmt .none (some (.ofName "outer"))) none,
          .breakStmt .none none])))])

theorem lowerProgram_keeps_label_rules_escapingRounds :
    Config.default.validate = .ok () ∧ escapingRounds.wellAimed [] [] = true ∧
      escapingRounds.breaksCaught false = true ∧
      escapingRounds.labelNames ⊆ (Context.start .default escapingRounds).names.reserved ∧
      ∃ r, lowerProgram .default escapingRounds = .ok r ∧
        r.diagnostics.any Diagnostic.isFatal = false ∧ validateLabels r.program = [] := by
  have hvalid : Config.default.validate = .ok () := by decide +kernel
  have haimed : escapingRounds.wellAimed [] [] = true := by decide +kernel
  have hcaught : escapingRounds.breaksCaught false = true := by decide +kernel
  have hknown : escapingRounds.labelNames ⊆
      (Context.start .default escapingRounds).names.reserved :=
    List.Subset.trans (labelNames_subset_names _)
      (names_subset_reserved .default (by decide +kernel))
  exact ⟨hvalid, haimed, hcaught, hknown,
    lowerProgram_keeps_label_rules .default escapingRounds hvalid haimed hcaught hknown⟩

/-- `class A { @(function () { L: while (a) while (b) if (c) continue; }) m() {} }` -/
def decoratedRounds : Program :=
  let rounds : Stmt := .labeledStmt .none (.ofName "L") (.whileStmt .none (Build.name "a")
    (.whileStmt .none (Build.name "b")
      (Build.ifElse (Build.name "c") (.continueStmt .none none) none)))
  let mark : Expr := .function none
    (.func .none 0 false false .nil .nil (.some (Build.block [rounds])))
  let method : Node .func :=
    .func .none 0 false false .nil (.ofList [.decorator .none mark]) (.some (Build.block []))
  .scriptProgram .none none (.ofList [.declStmt (.declClass false (.ofName "A")
    (.cls .none 0 .nil
      (.ofList [.methodMember .none .method false (.fixedKey .none (.name "m")) method])
      .none))])

/-- The supply has to know the labels: those in the decorators of functions are not noted, and one of
them is handed out again. -/
theorem lowerProgram_breaks_label_rules_decoratedRounds :
    Config.default.validate = .ok () ∧ decoratedRounds.wellAimed [] [] = true ∧
      decoratedRounds.breaksCaught false = true ∧
      ∃ r, lowerProgram .default decoratedRounds = .ok r ∧
        r.diagnostics.any Diagnostic.isFatal = true ∧ validateLabels r.program ≠ [] := by
  have hvalid : Config.default.validate = .ok () := by decide +kernel
  refine ⟨hvalid, by decide +kernel, by decide +kernel, _, Lowering.lowerProgram_eq hvalid _, ?_⟩
  decide +kernel

end PlainJs

import PlainJs.Lowering.Helper
import PlainJs.Proofs.Scopes.Outermost
import PlainJs.Proofs.Sites

namespace PlainJs

open Node

namespace Node

variable {c : Cat}

/-- Whether a node is a `for-in` loop that is not refused when loops are lowered. -/
def becomesKeyLoop (cx : Context) : {c : Cat} → Node c → Bool
  | _, .forInStmt span head _ _ => ((Loops.checkForIn span head).run cx).1.isOk
  | _, _ => false

/-- Whether the lowering of a program turns a `for-in` loop into calls of the key helper. -/
def lowersKeys (config : Config) (p : Program) : Bool :=
  Lowering.reachesLoops p (.start config p) &&
    p.nodes.any fun k => k.2.becomesKeyLoop (.start config p)

end Node

namespace Search

variable {q : Search} {c : Cat} {x : String} {cx : Context}

/-- Looks for calls of the function of a name. -/
def callsOf (x : String) : Search :=
  ⟨(· == x), fun _ => false, fun _ _ => false, fun _ => false, true⟩

/-- A search that enters functions looks at all nodes. -/
theorem finds_eq_any_nodes (hdeep : q.deep = true) (n : Node c) :
    q.finds n = n.nodes.any fun k => q.own k.2 := by
  induction n using partsInduction with
  | step n ih =>
    rw [finds_eq, inner, hdeep, Bool.true_or, Bool.true_and, nodes_eq, List.any_cons,
      List.any_flatMap]
    refine congrArg _ (Bool.eq_iff_iff.mpr ?_)
    rw [List.any_eq_true, List.any_eq_true]
    exact exists_congr fun k => and_congr_right fun hk => by rw [ih hk]

theorem isRefTo_eq (callee : Node .callee) : callee.isRefTo x = callee.refName?.any (· == x) := by
  cases callee with
  | exprCallee e => cases e <;> rfl
  | _ => rfl

theorem calls_eq_finds (n : Node c) : n.calls x = (callsOf x).finds n := by
  induction n using partsInduction with
  | step n ih =>
    have hparts : (n.children.attach.any fun k => k.1.2.calls x) = (callsOf x).inner n := by
      rw [inner, callsOf, Bool.true_or, Bool.true_and, Bool.eq_iff_iff, List.any_eq_true,
        List.any_eq_true]
      constructor
      · rintro ⟨k, -, hk⟩
        exact ⟨k.1, k.2, ih k.2 ▸ hk⟩
      · rintro ⟨k, hk, hfinds⟩
        exact ⟨⟨k, hk⟩, List.mem_attach _ _, (ih hk).trans hfinds⟩
    unfold Node.calls
    split
    next =>
      rw [finds_eq, ← hparts, own_call, isRefTo_eq]
      rfl
    next hother =>
      have hown : (callsOf x).own n = false := by
        cases n with
        | call => exact (hother _ _ _ _ rfl .rfl).elim
        | forInStmt => exact Bool.and_false _
        | varDecl | declUsing | headUsing | importItem =>
          exact List.any_eq_false.mpr fun _ _ => Bool.false_ne_true
        | exportFunc _ name _ | exportClass _ name _ => cases name <;> rfl
        | _ => rfl
      rw [finds_eq, ← hparts, hown, Bool.false_or]

/-- The calls of the helper after loops have been lowered. -/
theorem finds_beforeLoops_callsOf (n : Node c) :
    ((callsOf cx.config.keyHelper).beforeLoops cx).finds n =
      (n.calls cx.config.keyHelper || n.nodes.any fun k => k.2.becomesKeyLoop cx) := by
  have hown {d : Cat} (k : Node d) : ((callsOf cx.config.keyHelper).beforeLoops cx).own k =
      ((callsOf cx.config.keyHelper).own k || k.becomesKeyLoop cx) := by
    cases k with
    | forInStmt span head subject body =>
      rw [own_forInStmt, own_forInStmt]
      change (head.takesKeys && if cx.scopes.isBoundAt cx.config.keyHelper span then false
        else cx.config.keyHelper == cx.config.keyHelper) = (head.takesKeys && false ||
          ((Loops.checkForIn span head).run cx).1.isOk)
      rcases run_checkForIn_cases span head cx with
        ⟨hkeys, hfree, b, -, hcheck⟩ | ⟨hrefused, fault, hcheck⟩
      · rw [hcheck, hkeys, hfree]
        simp [Except.isOk, Except.toBool]
      · rw [hcheck]
        rcases hrefused with hkeys | hbound
        · rw [hkeys]
          rfl
        · rw [hbound]
          simp [Except.isOk, Except.toBool]
    | _ => exact (Bool.or_false _).symm
  rw [calls_eq_finds, finds_eq_any_nodes rfl, finds_eq_any_nodes rfl, Bool.eq_iff_iff]
  simp only [hown, Bool.or_eq_true, List.any_eq_true, and_or_left, exists_or]

end Search

namespace Lowering

variable {config : Config} {p : Program}

/-- Whether the lowered program calls the key helper. -/
theorem calls_stages (hheads : p.all hasPlainHead = true) :
    ((stages p).run (.start config p)).1.calls config.keyHelper =
      (p.calls config.keyHelper || p.lowersKeys config) := by
  have hq : (Search.callsOf config.keyHelper).Spares (.start config p) := fun _ _ _ _ _ => rfl
  have hvar : (Search.callsOf config.keyHelper).VarsOnly := ⟨fun _ _ _ => rfl, fun _ => rfl⟩
  rw [Search.calls_eq_finds, Search.finds_stages hq hvar hheads, lowersKeys]
  cases reachesLoops p (.start config p) with
  | true => exact @Search.finds_beforeLoops_callsOf _ (.start config p) p
  | false => rw [if_neg Bool.false_ne_true, ← Search.calls_eq_finds, Bool.false_and, Bool.or_false]

/-- Where a program declares the name of the helper at its top level, its `for-in` loops stay. -/
theorem lowersKeys_eq_false (hx : config.keyHelper ∈ p.topLevel.map (·.name))
    (hseen : config.keyHelper ∉ p.unrecorded.map (·.name)) : p.lowersKeys config = false := by
  refine Bool.and_eq_false_imp.mpr fun _ => List.any_eq_false.mpr ?_
  rintro ⟨d, k⟩ -
  cases k with
  | forInStmt span head subject body =>
    have hbound : (ScopeTable.analyze p).isBoundAt config.keyHelper span = true :=
      ScopeTable.isBoundAt_of_mem_topLevel hx hseen span
    rcases Search.run_checkForIn_cases span head (.start config p) with
      ⟨-, hfree, -⟩ | ⟨-, fault, hcheck⟩
    · exact absurd (hbound.symm.trans hfree) Bool.noConfusion
    · rw [becomesKeyLoop, hcheck]
      exact Bool.false_ne_true
  | _ => exact Bool.false_ne_true

end Lowering

/-- The definition of the key helper is given if and only if the program calls the helper or a
`for-in` loop has been lowered. Unless the supply hands out its name, the lowered program declares that
name at its top level, too, only if the given program does, and calls it or has it as a resource or as
the name of a default export. -/
theorem helperEpilogue_fits (config : Config) (p : Program) (hvalid : config.validate = .ok ())
    (hemit : config.emitKeyHelper = true) (hheads : p.all hasPlainHead = true) :
    ∃ out, lowerProgram config p = .ok out ∧
      (helperEpilogue out.program config =
        if p.calls config.keyHelper || p.lowersKeys config then .some config.helperSource
        else .none) ∧
      ((config.keyHelper ∈ (Context.start config p).names.reserved ∨
          ∀ hint ∈ NameSupply.hints, ¬NameSupply.Stems hint config.keyHelper) →
        ∀ text, helperEpilogue out.program config = .some text →
          config.keyHelper ∈ out.program.topLevel.map (·.name) →
            config.keyHelper ∈ p.topLevel.map (·.name) ∧ (p.calls config.keyHelper = true ∨
              config.keyHelper ∈ p.unrecorded.map (·.name))) := by
  have hepilogue : helperEpilogue (lowerWith config p).program config =
      if p.calls config.keyHelper || p.lowersKeys config then .some config.helperSource
      else .none := by
    rw [helperEpilogue, hemit, Bool.true_and, Lowering.lowerWith_eq, Lowering.calls_stages hheads]
  refine ⟨_, Lowering.lowerProgram_eq hvalid p, hepilogue, fun hsafe text htext htop => ?_⟩
  have hspared : ∀ u, (Context.start config p).Steps u → ∀ hint ∈ NameSupply.hints,
      u.names.pick hint ≠ config.keyHelper := by
    intro u hu hint stem heq
    rcases hsafe with hknown | hother
    · exact u.names.pick_notMem hint (heq ▸ hu.grows.reserved hknown)
    · exact hother hint stem (heq ▸ u.names.stems_pick hint)
  have hx : config.keyHelper ∈ p.topLevel.map (·.name) :=
    Search.topLevel_stages hspared hheads htop
  refine ⟨hx, ?_⟩
  by_contra hnone
  obtain ⟨hcalls, hseen⟩ := not_or.mp hnone
  rw [hepilogue, Bool.eq_false_iff.mpr hcalls, Lowering.lowersKeys_eq_false hx hseen] at htext
  cases htext

/-- `{ let $forIn; } function f() { for (const k in o) g(k); }` -/
def shadowedHelper : Program :=
  let head : VarDecl := .varDecl ⟨37, 44⟩ 0 .const false (.ofList [
    .declarator ⟨43, 44⟩ false (.binder (.ofName "k")) .none])
  let rounds : Stmt := .forInStmt ⟨32, 56⟩ (.headDecl head) (Build.name "o")
    (Build.exprStmt (Build.call (Build.name "g") [Build.name "k"]))
  let f : Node .func := .func ⟨17, 58⟩ 0 false false .nil .nil
    (.some (.block ⟨30, 58⟩ 0 (.ofList [rounds])))
  .scriptProgram ⟨1, 58⟩ none (.ofList [
    .blockStmt (.block ⟨1, 16⟩ 0 (.ofList [Build.declare .let (.ofName "$forIn") .none])),
    .declStmt (.declFunc false (.ofName "f") f)])

theorem helperEpilogue_fits_shadowedHelper :
    let config : Config := { Config.default with emitKeyHelper := true }
    config.validate = .ok () ∧ config.emitKeyHelper = true ∧
      shadowedHelper.all hasPlainHead = true ∧ ∃ out, lowerProgram config shadowedHelper = .ok out ∧
        helperEpilogue out.program config = .some config.helperSource ∧
          "$forIn" ∉ out.program.topLevel.map (·.name) := by
  intro config
  have hvalid : config.validate = .ok () := by decide +kernel
  have hheads : shadowedHelper.all hasPlainHead = true := by decide +kernel
  have hlowers : (shadowedHelper.calls config.keyHelper || shadowedHelper.lowersKeys config) =
      true := by
    decide +kernel
  have hfree : config.keyHelper ∉ shadowedHelper.topLevel.map (·.name) := by decide +kernel
  have hsafe : ∀ hint ∈ NameSupply.hints, ¬hint.toList <+: config.keyHelper.toList := by
    decide +kernel
  obtain ⟨out, hrun, hepilogue, htop⟩ := helperEpilogue_fits config shadowedHelper hvalid rfl hheads
  rw [hlowers, if_pos rfl] at hepilogue
  refine ⟨hvalid, rfl, hheads, out, hrun, hepilogue, fun hx => hfree ?_⟩
  exact (htop (.inr fun hint hhint hstems => hsafe hint hhint hstems.isPrefix) _ hepilogue hx).1

/-- `function $forIn(o) {} $forIn(x);` -/
def ownHelper : Program :=
  let f : Node .func := .func ⟨1, 22⟩ 0 false false
    (.ofList [.param ⟨17, 18⟩ .nil (.binder (.ofName "o"))]) .nil (.some (.block ⟨20, 22⟩ 0 .nil))
  .moduleProgram ⟨1, 33⟩ none (.ofList [
    .stmtItem (.declStmt (.declFunc false (.ofName "$forIn") f)),
    .stmtItem (Build.exprStmt (Build.call (Build.name "$forIn") [Build.name "x"]))])

/-- A program that defines the helper itself and calls it gets a second definition. -/
theorem helperEpilogue_redeclares_ownHelper :
    let config : Config := { Config.default with emitKeyHelper := true }
    config.validate = .ok () ∧ ∃ out, lowerProgram config ownHelper = .ok out ∧
      helperEpilogue out.program config = .some config.helperSource ∧
        "$forIn" ∈ out.program.topLevel.map (·.name) := by
  intro config
  have hvalid : config.validate = .ok () := by decide +kernel
  have hcalls : (lowerWith config ownHelper).program.calls config.keyHelper = true := by
    decide +kernel
  have htop : "$forIn" ∈ (lowerWith config ownHelper).program.topLevel.map (·.name) := by
    decide +kernel
  refine ⟨hvalid, _, Lowering.lowerProgram_eq hvalid ownHelper, ?_, htop⟩
  rw [helperEpilogue, hcalls]
  rfl

end PlainJs

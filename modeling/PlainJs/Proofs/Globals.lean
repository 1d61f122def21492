import PlainJs.Proofs.Encounters
import PlainJs.Proofs.Scopes.Analysis

namespace PlainJs

open Node

/-- The lowering of a construct reports it as unsupported and gives it back. -/
def Lower.Leaves {α : Type} (cx : Context) (span : Span) (a : α) (x : Lower α) : Prop :=
  ∃ message, x.run cx = (a, cx.record ⟨.unsupported, span, message⟩)

namespace Loops

variable {span : Span} {head : Node .forHead} {subject : Expr} {body : Stmt} {cx : Context}

theorem leaves_lowerForOf {isAwait : Bool} (h : cx.scopes.isBoundAt "Symbol" span = true) :
    Lower.Leaves cx span (.forOfStmt span isAwait head subject body)
      (lowerForOf span isAwait head subject body) := by
  cases isAwait with
  | true => exact ⟨LoopFault.forAwait.message, rfl⟩
  | false =>
    have hcheck : (checkForOf span false head).run cx = (.error .symbolBound, cx) := by
      simp [checkForOf, Lower.isBoundAt, h]
      rfl
    refine ⟨LoopFault.symbolBound.message, ?_⟩
    simp only [lowerForOf, StateT.run_bind, hcheck]
    rfl

theorem leaves_lowerForIn (h : cx.scopes.isBoundAt cx.config.keyHelper span = true) :
    Lower.Leaves cx span (.forInStmt span head subject body)
      (lowerForIn span head subject body) := by
  obtain ⟨fault, hcheck⟩ : ∃ fault, (checkForIn span head).run cx = (.error fault, cx) := by
    cases hinit : head.isInitialisedHead with
    | true =>
      refine ⟨.initialisedHead, ?_⟩
      simp [checkForIn, hinit]
      rfl
    | false =>
      refine ⟨.helperBound, ?_⟩
      simp [checkForIn, hinit, Lower.isBoundAt, h]
      rfl
  refine ⟨fault.message, ?_⟩
  simp only [lowerForIn, StateT.run_bind, hcheck]
  rfl

end Loops

namespace Declarations

theorem leaves_splitDeclarator {span dspan : Span} {ctxt : Nat} {kind : VarKind}
    {declare definite : Bool} {target : Pat} {init : Node (.opt .expr)} {cx : Context}
    (h : cx.scopes.isBoundAt "Object" dspan = true) (htarget : target.hasObjectRest = true) :
    let d : Declarator := .declarator dspan definite target init
    Lower.Leaves cx dspan [.declStmt (.declVar (.varDecl span ctxt kind declare (.cons d .nil)))]
      (splitDeclarator span ctxt kind declare d) := by
  have hbinder : target.isBinder = false := by cases target <;> first | rfl | cases htarget
  obtain ⟨fault, hfault⟩ :
      ∃ fault, (declaratorFault dspan target init.toOption).run cx = (.some fault, cx) := by
    cases init with
    | none =>
      refine ⟨.noInitializer, ?_⟩
      simp [declaratorFault, hbinder, toOption]
      rfl
    | some e =>
      cases hfault : target.patternFault with
      | some fault =>
        refine ⟨fault, ?_⟩
        simp [declaratorFault, hbinder, hfault, toOption]
        rfl
      | none =>
        refine ⟨.objectBound, ?_⟩
        simp [declaratorFault, hbinder, hfault, htarget, toOption, Lower.isBoundAt, h]
        rfl
  refine ⟨fault.message, ?_⟩
  simp only [splitDeclarator, StateT.run_bind, hfault]
  rfl

end Declarations

/-- In every context that the lowering of a program can reach, a `for-of` loop in the scope of a
binding `Symbol`, a `for-in` loop in the scope of a binding that has the name of the key helper, and a
declarator with an object rest in the scope of a binding `Object` are reported and left as they are,
whatever their parts have become. So the code that is generated for others means the global ones. -/
theorem lowering_spares_bound_globals (config : Config) (p : Program)
    (hlaid : p.all isLaidOut = true) (hcharted : p.all isCharted = true) {cx : Context}
    (hcx : (Context.start config p).Steps cx) {E : List String} :
    (∀ {span : Span} {isAwait : Bool} {head : Node .forHead} {subject : Expr} {body : Stmt},
      let loop := forOfStmt span isAwait head subject body
      Inside p.globals p E loop → "Symbol" ∈ loop.opens ++ E → ∀ head subject body,
        Lower.Leaves cx span (.forOfStmt span isAwait head subject body)
          (Loops.lowerForOf span isAwait head subject body)) ∧
    (∀ {span : Span} {head : Node .forHead} {subject : Expr} {body : Stmt},
      let loop := forInStmt span head subject body
      Inside p.globals p E loop → config.keyHelper ∈ loop.opens ++ E → ∀ head subject body,
        Lower.Leaves cx span (.forInStmt span head subject body)
          (Loops.lowerForIn span head subject body)) ∧
    (∀ {dspan : Span} {definite : Bool} {target : Pat} {init : Node (.opt .expr)},
      Inside p.globals p E (.declarator dspan definite target init) → "Object" ∈ E →
        ∀ span ctxt kind declare definite target init, hasObjectRest target = true →
          let d : Declarator := .declarator dspan definite target init
          Lower.Leaves cx dspan
            [.declStmt (.declVar (.varDecl span ctxt kind declare (.cons d .nil)))]
            (Declarations.splitDeclarator span ctxt kind declare d)) := by
  have hscopes : cx.scopes = .analyze p := hcx.scopes
  have hconfig : cx.config = config := hcx.grows.config
  refine ⟨fun hm hx _ _ _ => ?_, fun hm hx _ _ _ => ?_, fun hm hx _ _ _ _ _ _ _ htarget => ?_⟩
  · refine Loops.leaves_lowerForOf ?_
    rw [hscopes]
    exact ScopeTable.isBoundAt_analyze hlaid hcharted hm (.head _) hx
  · refine Loops.leaves_lowerForIn ?_
    rw [hscopes, hconfig]
    exact ScopeTable.isBoundAt_analyze hlaid hcharted hm (.head _) hx
  · refine Declarations.leaves_splitDeclarator ?_ htarget
    rw [hscopes]
    exact ScopeTable.isBoundAt_analyze hlaid hcharted hm (.head _) (List.mem_append_right _ hx)

/-- The head of `for (const x of xs)`. -/
def roundHead (span : Span) : Node .forHead :=
  .headDecl (.varDecl span 0 .const false
    (.ofList [.declarator span false (.binder (.ofName "x")) .none]))

/-- `g(x);` -/
def roundBody : Stmt := Build.exprStmt (Build.call (Build.name "g") [Build.name "x"])

/-- `{ ...r }` -/
def restOnly : Pat := .objectPat .none false (.ofList [.restProp .none .none (.binder (.ofName "r"))])

/-- `f(Symbol, $forIn, Object, xs) { for (const x of xs) g(x); for (const x in xs) g(x);
const { ...r } = xs; }` -/
def shadowing : Node .func :=
  let params : List (Node .param) := ["Symbol", "$forIn", "Object", "xs"].map fun name =>
    .param .none .nil (.binder (.ofName name))
  .func ⟨1, 114⟩ 0 false false (.ofList params) .nil (.some (.block ⟨48, 114⟩ 0 (.ofList [
    .forOfStmt ⟨50, 70⟩ false (roundHead ⟨55, 62⟩) (Build.name "xs") roundBody,
    .forInStmt ⟨71, 91⟩ (roundHead ⟨76, 83⟩) (Build.name "xs") roundBody,
    .declStmt (.declVar (.varDecl ⟨92, 112⟩ 0 .const false
      (.ofList [.declarator ⟨98, 111⟩ false restOnly (.some (Build.name "xs"))])))])))

/-- A program with nothing but a function declaration. -/
def declaring (f : Node .func) : Program :=
  .scriptProgram ⟨1, 114⟩ none (.ofList [.declStmt (.declFunc false (.ofName "f") f)])

theorem lowering_spares_bound_globals_shadowing :
    let cx := Context.start .default (declaring shadowing)
    let d : Declarator := .declarator ⟨98, 111⟩ false restOnly (.some (Build.name "xs"))
    Lower.Leaves cx ⟨50, 70⟩ (.forOfStmt ⟨50, 70⟩ false (roundHead ⟨55, 62⟩) (Build.name "xs") roundBody)
      (Loops.lowerForOf ⟨50, 70⟩ false (roundHead ⟨55, 62⟩) (Build.name "xs") roundBody) ∧
    Lower.Leaves cx ⟨71, 91⟩ (.forInStmt ⟨71, 91⟩ (roundHead ⟨76, 83⟩) (Build.name "xs") roundBody)
      (Loops.lowerForIn ⟨71, 91⟩ (roundHead ⟨76, 83⟩) (Build.name "xs") roundBody) ∧
    Lower.Leaves cx ⟨98, 111⟩
      [.declStmt (.declVar (.varDecl ⟨92, 112⟩ 0 .const false (.cons d .nil)))]
      (Declarations.splitDeclarator ⟨92, 112⟩ 0 .const false d) := by
  intro cx d
  have hlaid : (declaring shadowing).all isLaidOut = true := by decide +kernel
  have hcharted : (declaring shadowing).all isCharted = true := by decide +kernel
  have hcx : (Context.start .default (declaring shadowing)).Steps cx := .refl
  let E := shadowing.opens ++ (declaring shadowing).globals
  -- the way from the program to the statements of the function
  have hbody {c : Cat} {k : Node c} (h : Inside E (shadowing.inside.getLast (by decide)).2 E k) :
      Inside (declaring shadowing).globals (declaring shadowing) E k :=
    .outside (.head _) (.outside (.head _) (.outside (.head _) (.outside (.head _)
      (.inside (.tail _ (.head _)) h))))
  obtain ⟨hof, hin, hrest⟩ :=
    lowering_spares_bound_globals .default (declaring shadowing) hlaid hcharted hcx (E := E)
  have hmem {x : String} (hx : x ∈ shadowing.opens) : x ∈ E := List.mem_append_left _ hx
  refine ⟨hof (hbody (.outside (.head _) (.here _ _))) ?_ _ _ _,
    hin (hbody (.outside (.tail _ (.head _)) (.outside (.head _) (.here _ _)))) ?_ _ _ _, ?_⟩
  · exact List.mem_append_right _ (hmem (by decide +kernel))
  · exact List.mem_append_right _ (hmem (by decide +kernel))
  · refine hrest (hbody (.outside (.tail _ (.head _)) (.outside (.tail _ (.head _)) (.outside (.head _)
      (.outside (.head _) (.outside (.head _) (.outside (.head _) (.outside (.head _) (.here _ _)))))))))
      (hmem (by decide +kernel)) _ _ _ _ _ _ _ rfl

namespace Node

/-- Whether a node is the `for-in` loop, or the `for-of` loop, with the given range. -/
def isRoundAt (keys : Bool) (span : Span) : {c : Cat} → Node c → Bool
  | _, .forInStmt at_ _ _ _ => keys && at_ == span
  | _, .forOfStmt at_ _ _ _ _ => !keys && at_ == span
  | _, _ => false

variable {c d : Cat} {n : Node c} {m : Node d} {E E' : List String} {keys : Bool} {span : Span}

theorem all_isRoundAt_eq_false : n.all (fun k => !k.isRoundAt keys span) = false ↔
    ∃ k : Stmt, ⟨.stmt, k⟩ ∈ n.nodes ∧ k.isRoundAt keys span = true := by
  rw [all_eq_false]
  constructor
  · rintro ⟨⟨d, k⟩, hk, hround⟩
    replace hround : k.isRoundAt keys span = true := by simpa using hround
    obtain rfl : d = .stmt := by cases k <;> first | rfl | cases hround
    exact ⟨k, hk, hround⟩
  · rintro ⟨k, hk, hround⟩
    exact ⟨_, hk, by rw [hround]; rfl⟩

theorem isRoundAt_of_parts {P : ∀ {d : Cat}, Node d → Node d → Prop} {n n' : Node c}
    (h : Parts P n n') : n.isRoundAt keys span = n'.isRoundAt keys span :=
  h.form_eq (isRoundAt keys span) fun m => by cases m <;> rfl

theorem lenient_isRoundAt (known : List Diagnostic) (keys : Bool) (span : Span) :
    Lenient known fun {_} n => !n.isRoundAt keys span where
  glue {c n} h := by cases n <;> first | rfl | cases h
  placing {c n} h := by cases n <;> first | rfl | cases h
  parts h := congrArg not (isRoundAt_of_parts h)

theorem Trims.mem_nodes {a b : Sigma Node} (h : Trims a b) (hm : ⟨d, m⟩ ∈ a.2.nodes)
    (hd : d ≠ .list .stmt) : ⟨d, m⟩ ∈ b.2.nodes := by
  have hblock {b : Block} (hm : ⟨d, m⟩ ∈ b.blockStmts.nodes) : ⟨d, m⟩ ∈ b.nodes := by
    cases b with
    | block _ _ stmts => exact mem_nodes_of_part (.head _) hm
  cases h with
  | same => exact hm
  | block b => exact hblock hm
  | body b =>
    cases b with
    | none =>
      rcases Node.mem_nodes.mp hm with heq | ⟨k, hk, -⟩
      · exact absurd (congrArg Sigma.fst heq) hd
      · cases hk
    | some b => exact mem_nodes_of_part (.head _) (hblock hm)
  | arrowBlock b => exact mem_nodes_of_part (.head _) (hblock hm)
  | arrowExpr e => exact mem_nodes_of_part (.head _) hm

/-- A node inside of a tree is one of its nodes, unless it stands for a body that is missing. -/
theorem mem_nodes_of_inside (h : Inside E n E' m) (hm : d ≠ .list .stmt) : ⟨d, m⟩ ∈ n.nodes := by
  induction h with
  | here => exact mem_nodes_self
  | outside hk _ ih => exact mem_nodes_of_part (mem_children_of_mem_outside hk) (ih hm)
  | @inside E E' c d e n k m hk _ ih =>
    obtain ⟨k', hk', htrims⟩ := exists_trims n.inside_trims hk
    exact mem_nodes_of_part hk' (htrims.mem_nodes (ih hm) hm)

theorem Inside.trans {E'' : List String} {e : Cat} {k : Node e} (h : Inside E n E' m)
    (h' : Inside E' m E'' k) : Inside E n E'' k := by
  induction h with
  | here => exact h'
  | outside hk _ ih => exact .outside hk (ih h')
  | inside hk _ ih => exact .inside hk (ih h')

/-- A declaration opens no scope for its declarators. -/
theorem Inside.declarator {v : VarDecl} {a : Declarator} (h : Inside E n E' (declVar v))
    (ha : a ∈ v.declarators) : Inside E n E' a := by
  have hlist (l : List Declarator) (ha : a ∈ l) : Inside E' (ofList l) E' a := by
    induction l with
    | nil => cases ha
    | cons b l ih =>
      cases ha with
      | head => exact .outside (.head _) (.here _ _)
      | tail _ ha => exact .outside (.tail _ (.head _)) (ih ha)
  refine h.trans (.outside (.head _) ?_)
  cases v with
  | varDecl _ _ _ _ decls => exact .outside (.head _) (ofList_toList decls ▸ hlist _ ha)

end Node

/-- Between the stages, a loop with the given range is still there, or the stage that lowers loops has
reported it. -/
def RoundAwaits (keys : Bool) (span : Span) (start : Context) (before : List Stage) (q : Program)
    (cx : Context) : Prop :=
  start.Steps cx ∧ (cx.hasFatal = false →
    if .loops ∈ before then isReported cx.diagnostics span = true
    else q.all (fun k => !k.isRoundAt keys span) = false)

namespace RoundAwaits

variable {keys : Bool} {span : Span} {start cx : Context} {q : Program} {before after : List Stage}
  {stage : Stage}

theorem skip (henabled : start.config.loops = true) (h : RoundAwaits keys span start before q cx)
    (hskip : stage.isEnabled cx.config = false ∨ cx.hasFatal = true) :
    RoundAwaits keys span start (before ++ [stage]) q cx := by
  refine ⟨h.1, fun hfatal => ?_⟩
  have hne : Stage.loops ≠ stage := by
    rintro rfl
    rcases hskip with hdisabled | hfatal'
    · rw [Stage.isEnabled, h.1.grows.config, henabled] at hdisabled
      cases hdisabled
    · rw [hfatal] at hfatal'
      cases hfatal'
  have hmem : Stage.loops ∈ before ++ [stage] ↔ Stage.loops ∈ before := by simp [hne]
  rw [if_congr hmem rfl rfl]
  exact h.2 hfatal

theorem pass (hall : Stage.all = before ++ stage :: after)
    (hleaves : ∀ {cx : Context} {k : Stmt}, start.Steps cx → k.isRoundAt keys span = true →
      Lower.Leaves cx span k (Loops.lowerLoop k)) (h : RoundAwaits keys span start before q cx) :
    RoundAwaits keys span start (before ++ [stage]) ((stage.pass q).run cx).1
      ((stage.pass q).run cx).2 := by
  have hsteps := stage.steps_pass q cx
  refine ⟨h.1.trans hsteps, fun hfatal => ?_⟩
  have hbefore := h.2 (hsteps.grows.hasFatal hfatal)
  have hkept (hstage : stage = .declarations ∨ stage = .continues) :
      ((stage.pass q).run cx).1.all (fun k => !k.isRoundAt keys span) =
        q.all fun k => !k.isRoundAt keys span :=
    Stage.all_pass_eq (fun known => lenient_isRoundAt known keys span)
      (fun {c n} hn => by cases n <;> first | rfl | cases hn) hstage q cx
  rw [Stage.eq_takeWhile_of_all hall] at hbefore ⊢
  cases stage with
  | declarations => exact (hkept (.inl rfl)).trans hbefore
  | continues => exact (hkept (.inr rfl)).trans hbefore
  | loops =>
    obtain ⟨k, hk, hround⟩ := all_isRoundAt_eq_false.mp hbefore
    obtain ⟨k', hform, u, hu, hend⟩ := (Loops.rewrites []).runsBetween_bottomUp q cx hk
    obtain ⟨message, hrun⟩ := hleaves (h.1.trans hu) (isRoundAt_of_parts hform ▸ hround)
    rw [hrun] at hend
    exact isReported_of_mem (hend.grows.subset (List.mem_append_right _ (.head _)))
  | switches | finallys => exact isReported_mono hsteps.grows.subset hbefore

end RoundAwaits

theorem Declarations.isReported_of_splitsRest {span : Span} {s t : Context}
    (hbound : s.scopes.isBoundAt "Object" span = true) (h : SplitsRest span s t) :
    isReported t.diagnostics span = true := by
  obtain ⟨v, hspan, u, hu, ht⟩ := h
  obtain ⟨definite, target, init, hmem, htarget⟩ := mem_restSpans.mp hspan
  obtain ⟨at_, ctxt, kind, declare, u', hu', hend⟩ := runsBetween_split hmem u
  have hscopes : u'.scopes = s.scopes := (hu.trans hu').scopes
  obtain ⟨message, hrun⟩ := leaves_splitDeclarator (hscopes ▸ hbound) htarget
  rw [hrun] at hend
  exact isReported_of_mem ((hend.trans ht).grows.subset (List.mem_append_right _ (.head _)))

/-- Splitting the declarations of the program is what the lowering starts with. -/
theorem Lowering.isReported_rest {p : Program} {cx : Context} {v : VarDecl} {span : Span}
    (henabled : cx.config.declarations = true) (hcalm : cx.hasFatal = false)
    (hv : ⟨.decl, declVar v⟩ ∈ p.nodes) (hspan : span ∈ v.restSpans)
    (hbound : cx.scopes.isBoundAt "Object" span = true) :
    isReported ((stages p).run cx).2.diagnostics span = true := by
  let r := (Stage.declarations.run p).run cx
  have hrun : r = (splitDeclarations p).run cx := by
    have henabled' : Stage.declarations.isEnabled cx.config = true := henabled
    simp only [r, Stage.run_eq, henabled', hcalm]
    rfl
  have hfirst : isReported r.2.diagnostics span = true := by
    rw [hrun]
    exact Declarations.isReported_of_splitsRest hbound
      (Declarations.splitsRest_splitDeclarations hspan p (isLoose_of_isClosed rfl) hv cx)
  have hrest : r.2.Steps ((stages p).run cx).2 :=
    steps_foldlM [.continues, .loops, .switches, .finallys] r.1 r.2
  exact isReported_mono hrest.grows.subset hfirst

/-- A loop of the program that is left as it is wherever the pass comes to it is reported, unless the
lowering stops at a violation before. -/
theorem Lowering.isReported_round {p : Program} {cx : Context} (keys : Bool) {span : Span}
    {loop : Stmt} (hloop : ⟨.stmt, loop⟩ ∈ p.nodes) (hround : loop.isRoundAt keys span = true)
    (henabled : cx.config.loops = true)
    (hleaves : ∀ {t : Context} {k : Stmt}, cx.Steps t → k.isRoundAt keys span = true →
      Lower.Leaves t span k (Loops.lowerLoop k))
    (hcalm : ((stages p).run cx).2.hasFatal = false) :
    isReported ((stages p).run cx).2.diagnostics span = true := by
  have h : RoundAwaits keys span cx Stage.all ((stages p).run cx).1 ((stages p).run cx).2 :=
    stages_induction (fun h hskip => h.skip henabled hskip)
      (fun hall h _ _ => h.pass hall hleaves)
      ⟨.refl, fun _ => all_isRoundAt_eq_false.mpr ⟨loop, hloop, hround⟩⟩
  exact h.2 hcalm

/-- In a laid out program, loops that need `Symbol` or the key helper where this name is bound, and
declarations that need `Object` where that is, are all reported, unless the lowering stops at a
violation before it comes to the loops. -/
theorem lowerProgram_reports_bound_globals {config : Config} {p : Program}
    (hvalid : config.validate = .ok ()) (hlaid : p.all isLaidOut = true)
    (hcharted : p.all isCharted = true) {E : List String} :
    ∃ out, lowerProgram config p = .ok out ∧
      (config.loops = true → out.diagnostics.any Diagnostic.isFatal = false →
        (∀ {span : Span} {isAwait : Bool} {head : Node .forHead} {subject : Expr} {body : Stmt},
          let loop := forOfStmt span isAwait head subject body
          Inside p.globals p E loop → "Symbol" ∈ loop.opens ++ E →
            isReported out.diagnostics span = true) ∧
        ∀ {span : Span} {head : Node .forHead} {subject : Expr} {body : Stmt},
          let loop := forInStmt span head subject body
          Inside p.globals p E loop → config.keyHelper ∈ loop.opens ++ E →
            isReported out.diagnostics span = true) ∧
      (config.declarations = true → ∀ {v : VarDecl}, Inside p.globals p E (declVar v) →
        "Object" ∈ E → ∀ span ∈ v.restSpans, isReported out.diagnostics span = true) := by
  refine ⟨_, Lowering.lowerProgram_eq hvalid p, fun hloops hfatal => ?_,
    fun hdecls v hv hobject span hspan => ?_⟩
  · obtain ⟨hrun, hcalm⟩ := Lowering.lowerWith_of_hasFatal hfatal
    rw [hrun]
    refine ⟨fun {span isAwait head subject body} hm hx => ?_, fun {span head subject body} hm hx => ?_⟩
    · refine Lowering.isReported_round false (mem_nodes_of_inside hm nofun) BEq.rfl hloops
        (fun {cx k} hcx hk => ?_) hcalm
      cases k with
      | forOfStmt =>
        obtain rfl := beq_iff_eq.mp hk
        refine Loops.leaves_lowerForOf ?_
        rw [hcx.scopes]
        exact ScopeTable.isBoundAt_analyze hlaid hcharted hm (.head _) hx
      | _ => cases hk
    · refine Lowering.isReported_round true (mem_nodes_of_inside hm nofun) BEq.rfl hloops
        (fun {cx k} hcx hk => ?_) hcalm
      cases k with
      | forInStmt =>
        obtain rfl := beq_iff_eq.mp hk
        refine Loops.leaves_lowerForIn ?_
        rw [hcx.scopes, hcx.grows.config]
        exact ScopeTable.isBoundAt_analyze hlaid hcharted hm (.head _) hx
      | _ => cases hk
  · obtain ⟨definite, target, init, hmem, -⟩ := mem_restSpans.mp hspan
    have hbound : (ScopeTable.analyze p).isBoundAt "Object" span = true :=
      ScopeTable.isBoundAt_analyze hlaid hcharted (hv.declarator hmem) (.head _)
        (List.mem_append_right _ hobject)
    have hstages : isReported ((Lowering.stages p).run (.start config p)).2.diagnostics span = true :=
      Lowering.isReported_rest hdecls rfl (mem_nodes_of_inside hv nofun) hspan hbound
    rw [Lowering.lowerWith_eq]
    exact isReported_mono (Lowering.grows_finish _ _).subset hstages

example : (lowerWith .default (declaring shadowing)).diagnostics.map (·.span) =
    [⟨98, 111⟩, ⟨50, 70⟩, ⟨71, 91⟩] := by decide +kernel

/-- `(function Symbol(xs) { for (const x of xs) g(x); });` -/
def selfNamed : Program :=
  let loop : Stmt := .forOfStmt ⟨24, 49⟩ false (roundHead ⟨29, 36⟩) (Build.name "xs") roundBody
  let f : Node .func := .func ⟨2, 51⟩ 0 false false
    (.ofList [.param ⟨18, 20⟩ .nil (.binder (.ofName "xs"))]) .nil
    (.some (.block ⟨22, 51⟩ 0 (.ofList [loop])))
  .scriptProgram ⟨1, 53⟩ none (.ofList [
    .exprStmt ⟨1, 53⟩ (.paren ⟨1, 52⟩ (.function (.some (.ofName "Symbol")) f))])

/-- The own name of a function expression is no binding that the analysis finds: the loop is lowered,
and the generated code reads the function in place of the global `Symbol`. -/
theorem lowerProgram_captures_symbol_selfNamed :
    selfNamed.all isLaidOut = true ∧ selfNamed.all isCharted = true ∧
      ∃ out, lowerProgram .default selfNamed = .ok out ∧ out.diagnostics = [] ∧
        out.program.all (Stage.loops.isSettled []) = true := by
  have hvalid : Config.default.validate = .ok () := by decide +kernel
  exact ⟨by decide +kernel, by decide +kernel, _, Lowering.lowerProgram_eq hvalid selfNamed,
    by decide +kernel, by decide +kernel⟩

end PlainJs

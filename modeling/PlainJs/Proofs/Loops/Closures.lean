import PlainJs.Proofs.Loops.Balance
import PlainJs.Proofs.Sites

namespace PlainJs

namespace Node

variable {c : Cat} {n : Node c}

/-- Whether a node is a function or an arrow function. -/
def isFunction : {c : Cat} → Node c → Bool
  | _, .func .. | _, .arrow .. => true
  | _, _ => false

/-- Whether a node is code that runs later than the node that it stands in and sees what is bound
there: a function of any form, or what a field of an instance starts with. -/
def isDeferred : {c : Cat} → Node c → Bool
  | _, .func .. | _, .arrow .. | _, .ctorMember .. | _, .getterProp .. | _, .setterProp .. => true
  | _, .fieldMember _ _ isStatic _ (.some _) _ => !isStatic
  | _, _ => false

theorem createsClosure_eq (n : Node c) :
    n.createsClosure = (n.isFunction || n.children.any fun k => k.2.createsClosure) := by
  by_cases h : n.isFunction = true
  · rw [h, Bool.true_or]
    cases n <;> first | exact createsClosure.eq_1 .. | exact createsClosure.eq_2 .. | cases h
  · rw [createsClosure.eq_3 n (by rintro _ _ _ _ _ _ _ rfl ⟨⟩; exact h rfl)
      (by rintro _ _ _ _ _ _ rfl ⟨⟩; exact h rfl), Bool.eq_false_iff.mpr h, Bool.false_or,
      List.any_subtype (g := fun k => k.2.createsClosure) fun _ _ => rfl, List.unattach_attach]

theorem createsClosure_iff :
    n.createsClosure = true ↔ ∃ k ∈ n.nodes, k.2.isFunction = true := by
  induction n using partsInduction with
  | @step c n ih =>
    rw [createsClosure_eq, Bool.or_eq_true, List.any_eq_true]
    constructor
    · rintro (h | ⟨m, hm, h⟩)
      · exact ⟨_, mem_nodes_self, h⟩
      · obtain ⟨k, hk, h⟩ := (ih hm).mp h
        exact ⟨k, mem_nodes_of_part hm hk, h⟩
    · rintro ⟨k, hk, h⟩
      obtain rfl | ⟨m, hm, hk⟩ := mem_nodes.mp hk
      · exact .inl h
      · exact .inr ⟨m, hm, (ih hm).mpr ⟨k, hk, h⟩⟩

end Node

open Node

/-- Counts the functions and arrow functions. -/
def Weight.functions (known : List Diagnostic) : Weight known where
  own _ {_} n := if n.isFunction then 1 else 0
  mark _ := 0
  held := NameSupply.unweighed
  markLabel _ := 0
  jump _ := 0
  sees := False
  own_glue {_ _ n} h := by
    have hn : n.isFunction = false := by cases n <;> first | rfl | cases h
    rw [hn]
    rfl
  own_declarator := @Node.unweighed_declarator
  own_parts h := by rw [h.form_eq isFunction fun m => by cases m <;> rfl]
  held_fresh := NameSupply.unweighed_fresh
  own_handler := rfl
  own_class := rfl
  own_labeled _ := rfl
  own_break _ := rfl
  own_leave _ := rfl
  own_frame _ := rfl
  held_freshLabel := NameSupply.unweighed_freshLabel

theorem Weight.functions_eq_zero {known : List Diagnostic} {fr : Frame} {c : Cat} {n : Node c} :
    (functions known).of fr n = 0 ↔ n.createsClosure = false := by
  induction n using partsInduction generalizing fr with
  | step n ih =>
    have hown : (functions known).own fr n = 0 ↔ n.isFunction = false := by simp [functions]
    rw [of_eq_zero, hown, createsClosure_eq, Bool.or_eq_false_iff, List.any_eq_false]
    exact and_congr_right fun _ => forall₂_congr fun _ hk =>
      (ih hk).trans (by rw [Bool.not_eq_true])

namespace Loops

variable {c : Cat} {n : Node c} {base s : Context}

/-- The pass moves functions about, but makes none and loses none. -/
theorem createsClosure_bottomUp (h : n.all hasPlainHead = true) :
    ((Lower.bottomUp lowerLoop n).run s).1.createsClosure = n.createsClosure := by
  let w := Weight.functions ((Lower.bottomUp lowerLoop n).run s).2.diagnostics
  have hspares : w.Spares := by
    intro fr c n h
    have hn : n.isFunction = false := by cases n <;> first | rfl | cases h
    simp [w, Weight.functions, hn]
  have hloop {fr : Frame} {c : Cat} {k : Node c} (hk : k.isLoop = true) : w.own fr k = 0 := by
    have hk : k.isFunction = false := by cases k <;> first | rfl | cases hk
    simp [w, Weight.functions, hk]
  have hheads : (fun {d : Cat} (k : Node d) => !k.isLoop || k.hasPlainHead) = @hasPlainHead := by
    funext d k
    cases k <;> rfl
  have hready : w.Ready isLoop [] .top n :=
    ⟨False.elim, .inr ⟨fun _ _ => rfl, by rw [hheads]; exact h⟩⟩
  have hcosts := (rewrites _).costs_bottomUp n
    ⟨⟨rfl, rfl, fun _ => rfl, hloop⟩, rfl, rfl, hspares⟩ hready s False.elim
  have hweight : w.of .top ((Lower.bottomUp lowerLoop n).run s).1 = w.of .top n :=
    hcosts.2 ⟨List.Subset.refl _, fun _ _ => trivial⟩ fun _ _ => rfl
  have hzero : w.of .top ((Lower.bottomUp lowerLoop n).run s).1 = 0 ↔ w.of .top n = 0 := by
    rw [hweight]
  rw [Weight.functions_eq_zero, Weight.functions_eq_zero] at hzero
  exact Bool.eq_iff_iff.mpr (by simpa using not_congr hzero)

/-- A loop has been reported since `base`. -/
def Reports (base : Context) (span : Span) (s : Context) : Prop :=
  ∃ d ∈ s.diagnostics.drop base.diagnostics.length, d.concern = .limitation ∧ d.span = span

theorem Reports.mono {span : Span} {t : Context} (h : Reports base span s) (hst : s.Grows t) :
    Reports base span t := by
  obtain ⟨d, hd, h⟩ := h
  obtain ⟨new, hnew⟩ := hst.diagnostics
  exact ⟨d, by rw [hnew, List.drop_append]; exact List.mem_append_left _ hd, h⟩

theorem reports_record {span : Span} (hbase : base.Grows s) (message : String) :
    Reports base span (s.record ⟨.limitation, span, message⟩) := by
  obtain ⟨new, hnew⟩ := hbase.diagnostics
  refine ⟨⟨.limitation, span, message⟩, ?_, rfl, rfl⟩
  rw [Context.record, hnew, List.append_assoc, List.drop_left]
  exact List.mem_append_right _ (.head _)

/-- Whether a node is a `for` loop of which the iterations get bindings of their own, and in which
a function is made after the head. -/
def SharesBinding (span : Span) : {c : Cat} → Node c → Prop
  | _, .forStmt span' init test step body => span' = span ∧ bindsPerIteration init = true ∧
    (body.createsClosure || test.createsClosure || step.createsClosure) = true
  | _, _ => False

theorem SharesBinding.isStmt {span : Span} (h : SharesBinding span n) : c = .stmt := by
  cases n <;> first | rfl | exact h.elim

theorem calm_prelude (init : Node (.opt .forInit)) (s : Context) :
    s.Calm ((Loops.prelude init).run s).2 := by
  let w := Weight.functions []
  have hcosts : w.Costs (w.terms []) (w.all .top) (w.of .top init) (Loops.prelude init) :=
    costs_prelude init
  exact (hcosts s False.elim).1

theorem calm_labeledBody (body : Stmt) (s : Context) : s.Calm ((labeledBody body).run s).2 := by
  let w := Weight.functions []
  have hcosts : w.Costs (w.terms []) (w.of .top) (w.of .top body) (labeledBody body) :=
    costs_labeledBody False.elim
  exact (hcosts s False.elim).1

theorem reports_lowerLoop {span : Span} {k : Stmt} (h : SharesBinding span k) (hbase : base.Grows s) :
    Reports base span ((lowerLoop k).run s).2 := by
  cases k with
  | forStmt span' init test step body =>
    obtain ⟨rfl, hinit, hclosure⟩ := h
    let reported := s.record ⟨.limitation, span',
      "closures created in this loop share one binding for all iterations"⟩
    have hend : ((lowerLoop (.forStmt span' init test step body)).run s).2 =
        ((labeledBody body).run ((Loops.prelude init).run reported).2).2 := by
      rw [lowerLoop, lowerFor, hinit, hclosure, Bool.and_self, if_pos rfl]
      change (StateT.run (m := Id) (α := Stmt)
        (if ((Loops.prelude init).run reported).1.isEmpty then _ else _) _).2 = _
      split <;> rfl
    rw [hend]
    exact ((reports_record hbase _).mono (calm_prelude init _).grows).mono
      (calm_labeledBody body _).grows
  | _ => exact h.elim

theorem bindsPerIteration_bottomUp (init : Node (.opt .forInit)) (s : Context) :
    bindsPerIteration ((Lower.bottomUp lowerLoop init).run s).1 = bindsPerIteration init := by
  rw [Rewrites.run_bottomUp]
  cases init with
  | none => rfl
  | some i =>
    change bindsPerIteration (.some ((Lower.bottomUp lowerLoop i).run s).1) = _
    rw [Rewrites.run_bottomUp]
    cases i with
    | initExpr e => rfl
    | initDecl v =>
      change bindsPerIteration (.some (.initDecl ((Lower.bottomUp lowerLoop v).run s).1)) = _
      rw [Rewrites.run_bottomUp]
      cases v with
      | varDecl span ctxt kind declare decls => rfl

/-- What is bound afresh stays so, and functions stay where they are, when the parts of a loop are
lowered. -/
theorem SharesBinding.of_parts {span : Span} {n' : Node c} (h : SharesBinding span n)
    (hheads : n.all hasPlainHead = true)
    (hparts : Parts (fun k k' => ∃ s, k' = ((Lower.bottomUp lowerLoop k).run s).1) n n') :
    SharesBinding span n' := by
  cases n with
  | forStmt span' init test step body =>
    obtain ⟨rfl, hinit, hclosure⟩ := h
    obtain ⟨init', ⟨s₁, rfl⟩, test', ⟨s₂, rfl⟩, step', ⟨s₃, rfl⟩, body', ⟨s₄, rfl⟩, rfl⟩ := hparts
    refine ⟨rfl, ?_, ?_⟩
    · rwa [bindsPerIteration_bottomUp]
    · rwa [createsClosure_bottomUp (all_part hheads (by simp [children])),
        createsClosure_bottomUp (all_part hheads (by simp [children])),
        createsClosure_bottomUp (all_part hheads (by simp [children]))]
  | _ => exact h.elim

theorem reports_bottomUp {span : Span} (h : n.all hasPlainHead = true) {k : Sigma Node}
    (hk : k ∈ n.nodes) (hshares : SharesBinding span k.2) (hbase : base.Grows s) :
    Reports base span ((Lower.bottomUp lowerLoop n).run s).2 := by
  obtain ⟨u, hu, hend⟩ := (rewrites []).exists_run hk s
  refine Reports.mono ?_ hend.grows
  rw [Rewrites.run_bottomUp]
  have hshares := hshares.of_parts (all_of_mem_nodes h hk)
    (parts_traverse lowering (fun _ _ s => ⟨s, rfl⟩) u)
  obtain ⟨d, k⟩ := k
  obtain rfl := hshares.isStmt
  exact reports_lowerLoop hshares ((hbase.trans hu.grows).trans ((rewrites []).steps_traverse k u).grows)

end Loops

open Loops in
/-- Every `for` loop with a `let` or `const` head is reported if there is a function anywhere in its
test, its update or its body. -/
theorem lowerLoops_reports_sharedBinding {p : Program} (hheads : p.all hasPlainHead = true)
    {span : Span} {v : VarDecl} {test step : Node (.opt .expr)} {body : Stmt}
    (hloop : ⟨.stmt, .forStmt span (.some (.initDecl v)) test step body⟩ ∈ p.nodes)
    (hkind : v.varKind ≠ .var)
    (hfunction : ∃ k ∈ test.nodes ++ step.nodes ++ body.nodes, k.2.isFunction = true) (cx : Context) :
    ∃ d ∈ ((lowerLoops p).run cx).2.diagnostics.drop cx.diagnostics.length,
      d.concern = .limitation ∧ d.span = span := by
  refine reports_bottomUp hheads hloop ⟨rfl, bne_iff_ne.mpr hkind, ?_⟩ (.refl cx)
  obtain ⟨k, hk, h⟩ := hfunction
  rw [Bool.or_eq_true, Bool.or_eq_true, createsClosure_iff, createsClosure_iff, createsClosure_iff]
  rw [List.mem_append, List.mem_append] at hk
  obtain (hk | hk) | hk := hk
  · exact .inl (.inr ⟨k, hk, h⟩)
  · exact .inr ⟨k, hk, h⟩
  · exact .inl (.inl ⟨k, hk, h⟩)

/-- `for (let i = start; i < 3; i++) body` -/
def countingFrom (start : Expr) (body : Stmt) : Stmt :=
  .forStmt ⟨1, 50⟩
    (.some (.initDecl (.varDecl ⟨6, 15⟩ 0 .let false (.ofList [
      .declarator ⟨10, 15⟩ false (.binder (.ofName "i")) (.some start)]))))
    (.some (.binary ⟨17, 22⟩ .lt (Build.name "i") (Build.num 3)))
    (.some (.update ⟨24, 27⟩ .increment false (Build.name "i"))) body

/-- `for (const x of xs) f(() => i);` -/
def delayedCalls : Stmt :=
  .forOfStmt ⟨29, 60⟩ false
    (.headDecl (.varDecl ⟨34, 41⟩ 0 .const false (.ofList [
      .declarator ⟨40, 41⟩ false (.binder (.ofName "x")) .none])))
    (Build.name "xs")
    (Build.exprStmt (Build.call (Build.name "f") [
      .arrow ⟨52, 59⟩ 0 false false .nil (.exprBody (Build.name "i"))]))

/-- `for (let i = 0; i < 3; i++) for (const x of xs) f(() => i);` -/
def delayedCount : Program :=
  .scriptProgram ⟨1, 60⟩ none (.ofList [countingFrom (Build.num 0) delayedCalls])

theorem lowerLoops_reports_sharedBinding_delayedCount :
    delayedCount.all hasPlainHead = true ∧
      ⟨.stmt, countingFrom (Build.num 0) delayedCalls⟩ ∈ delayedCount.nodes ∧
      (∃ k ∈ delayedCalls.nodes, k.2.isFunction = true) ∧
      ∃ d ∈ ((lowerLoops delayedCount).run (.start .default delayedCount)).2.diagnostics,
        d.concern = .limitation ∧ d.span = ⟨1, 50⟩ := by
  have hheads : delayedCount.all hasPlainHead = true := by decide +kernel
  have hloop : ⟨.stmt, countingFrom (Build.num 0) delayedCalls⟩ ∈ delayedCount.nodes :=
    mem_nodes_of_part (.head _) (mem_nodes_of_part (.head _) mem_nodes_self)
  obtain ⟨k, hk, h⟩ : ∃ k ∈ delayedCalls.nodes, k.2.isFunction = true :=
    createsClosure_iff.mp (by decide +kernel)
  exact ⟨hheads, hloop, ⟨k, hk, h⟩, lowerLoops_reports_sharedBinding hheads hloop (by decide)
    ⟨k, List.mem_append_right _ hk, h⟩ (.start .default delayedCount)⟩

/-- Loops that make an accessor, a constructor, a field of an instance or, in the head, a function:
`f({ get x() { return i; } })`, `f(class { constructor() { f(i); } })`, `f(class { x = i; })` and
`let i = () => i`. -/
def quietCounts : List Stmt :=
  let call (e : Expr) : Stmt := Build.exprStmt (Build.call (Build.name "f") [e])
  let key : Node .key := .fixedKey ⟨35, 36⟩ (.name "x")
  let classOf (m : Node .member) : Expr := .classExpr none (.cls ⟨31, 49⟩ 0 .nil (.ofList [m]) .none)
  [countingFrom (Build.num 0) (call (.object ⟨31, 49⟩ (.ofList [.getterProp ⟨33, 48⟩ key
      (.some (Build.block [.returnStmt ⟨39, 47⟩ (.some (Build.name "i"))]))]))),
    countingFrom (Build.num 0) (call (classOf (.ctorMember ⟨33, 48⟩ 0 key .nil
      (.some (Build.block [call (Build.name "i")]))))),
    countingFrom (Build.num 0) (call (classOf (.fieldMember ⟨33, 48⟩ 0 false key
      (.some (Build.name "i")) .nil))),
    countingFrom (.arrow ⟨10, 15⟩ 0 false false .nil (.exprBody (Build.name "i")))
      (call (Build.name "i"))]

/-- Code in them runs later and sees what they bind, and nothing is reported. -/
theorem lowerLoops_quietCounts :
    quietCounts.all (fun k =>
      let p : Program := .scriptProgram ⟨1, 50⟩ none (.ofList [k])
      k.nodes.any (·.2.isDeferred) &&
        ((lowerLoops p).run (.start .default p)).2.diagnostics.isEmpty) = true := by
  decide +kernel

end PlainJs

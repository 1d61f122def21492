import PlainJs.Lowering.Finallys
import PlainJs.Proofs.Balance
import PlainJs.Proofs.Sites

namespace PlainJs

/-- A `return`, `break` or `continue`: its range, its form and its label. -/
structure Departure where
  span : Span
  exit : Exit
  label : Option String

namespace Node

/-- The jump that a node is. -/
def departure? : {c : Cat} → Node c → Option Departure
  | _, .returnStmt span _ => .some ⟨span, .return, .none⟩
  | _, .breakStmt span label => .some ⟨span, .break, label.map (·.name)⟩
  | _, .continueStmt span label => .some ⟨span, .continue, label.map (·.name)⟩
  | _, _ => .none

end Node

namespace Departure

/-- Whether a jump can aim at a node that it stands in. -/
def aimsAt (j : Departure) {c : Cat} (n : Node c) : Bool :=
  match j.label, j.exit with
  | some l, _ => n.label? == some l
  | none, .break => n.isLoop || n.isSwitch
  | none, .continue => n.isLoop
  | none, .return => false

/-- The target of a jump among the nodes around it. -/
def target? (j : Departure) (around : List (Sigma Node)) : Option (Sigma Node) :=
  around.find? fun k => j.aimsAt k.2

end Departure

namespace Site

/-- Whether a place belongs to a function inside the tree. -/
def isNested (site : Site) : Bool := site.around.any fun k => k.2.isFunctionLike

/-- The jump at a place if it leaves the tree. -/
def leaving? (site : Site) : Option (Span × Exit) :=
  site.node.2.departure?.bind fun j =>
    if site.isNested || (j.target? site.around).isSome then none else some (j.span, j.exit)

end Site

/-- The jumps of a block that leave it, in visiting order. -/
def Node.leavingJumps (b : Block) : List (Span × Exit) := (b.sites []).filterMap Site.leaving?

namespace Node

variable {c : Cat} {n : Node c} {around : List (Sigma Node)}

theorem departure?_of_noStmts (hc : c.hasStmts = false) : n.departure? = .none := by
  cases n <;> first | rfl | cases hc

/-- No jump inside a function leaves it. -/
theorem leaving?_sites_of_nested (h : around.any (fun k => k.2.isFunctionLike) = true) :
    (n.sites around).filterMap Site.leaving? = [] := by
  induction n using partsInduction generalizing around with
  | step n ih =>
    have hown : Site.leaving? ⟨around, ⟨_, n⟩⟩ = .none := by
      cases hj : n.departure? <;> simp [Site.leaving?, Site.isNested, hj, h]
    rw [filterMap_sites, hown, Option.toList_none, List.nil_append, List.flatMap_eq_nil_iff]
    intro k hk
    exact ih hk (by rw [List.any_cons, h, Bool.or_true])

/-- Where statements stand in functions only, no jump leaves. -/
theorem leaving?_sites_of_noStmts (hc : c.hasStmts = false) :
    (n.sites around).filterMap Site.leaving? = [] := by
  induction n using partsInduction generalizing around with
  | step n ih =>
    have hown : Site.leaving? ⟨around, ⟨_, n⟩⟩ = .none := by
      rw [Site.leaving?, departure?_of_noStmts hc, Option.bind_none]
    rw [filterMap_sites, hown, Option.toList_none, List.nil_append, List.flatMap_eq_nil_iff]
    intro k hk
    by_cases hf : n.isFunctionLike = true
    · exact leaving?_sites_of_nested (by rw [List.any_cons, hf, Bool.true_or])
    · exact ih hk (noStmts_part hc (Bool.eq_false_iff.mpr hf) hk)

end Node

namespace Finallys

open Node

variable {c : Cat} {n : Node c} {around : List (Sigma Node)}

/-- The forms that the search passes over. -/
def isSkipped : {c : Cat} → Node c → Bool
  | _, .func .. | _, .arrow .. | _, .cls .. => true
  | _, _ => false

/-- Whether the search looks into a function: an accessor of an object literal that stands neither in
a function of another form nor in a class. Constructors and static blocks stand in classes. -/
def entersFunction {c : Cat} (n : Node c) : Bool :=
  !isSkipped n &&
    (n.isFunctionLike || n.children.attach.any fun ⟨⟨_, k⟩, _⟩ => entersFunction k)
termination_by sizeOf n
decreasing_by exact Node.sizeOf_lt_of_mem_children ‹_›

theorem entersFunction_eq_false (hskip : isSkipped n = false) : entersFunction n = false ↔
    n.isFunctionLike = false ∧ ∀ k ∈ n.children, entersFunction k.2 = false := by
  rw [entersFunction]
  simp [hskip]

namespace Within

/-- What the search knows of the nodes around a statement. -/
def inside (around : List (Sigma Node)) : Within where
  labels := around.filterMap fun k => k.2.label?
  inLoop := around.any fun k => k.2.isLoop
  inBreakable := around.any fun k => k.2.isLoop || k.2.isSwitch

theorem enter_inside (h : n.isLabeled = false) :
    (inside around).enter n = inside (⟨c, n⟩ :: around) := by
  cases n <;> first | rfl | cases h

theorem inside_labeled (span : Span) (label : Ident) (body : Stmt) :
    { inside around with labels := label.name :: (inside around).labels } =
      inside (⟨_, .labeledStmt span label body⟩ :: around) := rfl

theorem escapes_label (caught : Bool) (label : Ident) :
    (inside around).escapes caught (some label) =
      (around.find? fun k => k.2.label? == some label.name).isNone := by
  rw [Bool.eq_iff_iff]
  simp [escapes, inside, List.find?_eq_none, Sigma.forall]

theorem escapes_break (span : Span) (label : Option Ident) :
    (inside around).escapes (inside around).inBreakable label =
      (Departure.target? ⟨span, .break, label.map (·.name)⟩ around).isNone := by
  cases label with
  | none =>
    rw [Bool.eq_iff_iff]
    simp [escapes, inside, Departure.target?, Departure.aimsAt, List.find?_eq_none]
  | some label => exact escapes_label _ label

theorem escapes_continue (span : Span) (label : Option Ident) :
    (inside around).escapes (inside around).inLoop label =
      (Departure.target? ⟨span, .continue, label.map (·.name)⟩ around).isNone := by
  cases label with
  | none =>
    rw [Bool.eq_iff_iff]
    simp [escapes, inside, Departure.target?, Departure.aimsAt, List.find?_eq_none]
  | some label => exact escapes_label _ label

end Within

/-- The jump at a place of the block's own function. -/
theorem leaving?_eq (haround : around.any (fun k => k.2.isFunctionLike) = false) {j : Departure}
    (hj : n.departure? = some j) :
    Site.leaving? ⟨around, ⟨c, n⟩⟩ =
      if (j.target? around).isNone then some (j.span, j.exit) else none := by
  rw [Site.leaving?, hj, Option.bind_some, Site.isNested, haround, Bool.false_or]
  cases j.target? around <;> rfl

/-- The search and the places of a tree that belong to the same function. -/
theorem exits_eq_filterMap_sites (haround : around.any (fun k => k.2.isFunctionLike) = false)
    (hn : entersFunction n = false) :
    exits (.inside around) n = (n.sites around).filterMap Site.leaving? := by
  induction n using partsInduction generalizing around with
  | @step c n ih =>
    unfold exits
    split
    next span value =>
      have hvalue : (value.sites (⟨_, .returnStmt span value⟩ :: around)).filterMap Site.leaving? =
        [] := leaving?_sites_of_noStmts rfl
      rw [filterMap_sites, leaving?_eq haround rfl]
      simp [Departure.target?, Departure.aimsAt, children, hvalue]
    next span label =>
      rw [filterMap_sites, leaving?_eq haround rfl, Within.escapes_break span]
      simp [children, apply_ite Option.toList]
    next span label =>
      rw [filterMap_sites, leaving?_eq haround rfl, Within.escapes_continue span]
      simp [children, apply_ite Option.toList]
    next span label body =>
      obtain ⟨-, hparts⟩ := (entersFunction_eq_false rfl).mp hn
      have hin : (⟨_, .labeledStmt span label body⟩ :: around : List (Sigma Node)).any
        (fun k => k.2.isFunctionLike) = false := haround
      rw [filterMap_sites, Within.inside_labeled span label body,
        ih (.head _) hin (hparts _ (.head _))]
      simp [Site.leaving?, departure?, children]
    -- functions and classes have no jump of this function in them
    iterate 3 next => exact (leaving?_sites_of_noStmts rfl).symm
    next hreturn hbreak hcontinue hlabeled hfunc harrow hcls =>
      obtain ⟨hjump, hlabel, hskip⟩ :
          n.departure? = .none ∧ n.isLabeled = false ∧ isSkipped n = false := by
        cases n <;> first
          | exact ⟨rfl, rfl, rfl⟩
          | exact (hreturn _ _ rfl .rfl).elim
          | exact (hbreak _ _ rfl .rfl).elim
          | exact (hcontinue _ _ rfl .rfl).elim
          | exact (hlabeled _ _ _ rfl .rfl).elim
          | exact (hfunc _ _ _ _ _ _ _ rfl .rfl).elim
          | exact (harrow _ _ _ _ _ _ rfl .rfl).elim
          | exact (hcls _ _ _ _ _ rfl .rfl).elim
      obtain ⟨hfunction, hparts⟩ := (entersFunction_eq_false hskip).mp hn
      have hin : (⟨c, n⟩ :: around : List (Sigma Node)).any (fun k => k.2.isFunctionLike) = false := by
        rw [List.any_cons, hfunction, haround, Bool.or_false]
      rw [filterMap_sites, Site.leaving?, hjump, Option.bind_none, Option.toList_none, List.nil_append,
        Within.enter_inside hlabel,
        List.flatMap_subtype (g := fun k => exits (.inside (⟨c, n⟩ :: around)) k.2) fun _ _ => rfl,
        List.unattach_attach]
      exact List.flatMap_congr fun k hk => ih hk hin (hparts k hk)

end Finallys

open Finallys in
/-- The early exits of a `try` are the jumps that leave its body, and then those that leave its
handler. -/
theorem earlyExits_eq_leavingJumps (body : Block) (handler : Node (.opt .handler))
    (hbody : entersFunction body = false)
    (hhandler : ∀ h ∈ handler.toOption, entersFunction (handlerBody h) = false) :
    earlyExits body handler = body.leavingJumps ++
      (handler.toOption.map fun h => (handlerBody h).leavingJumps).getD [] := by
  have houtside : ([] : List (Sigma Node)).any (fun k => k.2.isFunctionLike) = false := rfl
  rw [earlyExits]
  congr 1
  · exact exits_eq_filterMap_sites houtside hbody
  · cases handler with
    | none => rfl
    | some h => exact exits_eq_filterMap_sites houtside (hhandler h rfl)

/-- `{ L: while (a) { switch (b) { case c: break; default: continue; } break L; } (() => { return; });
if (d) break M; return; }` -/
def mixedExits : Block :=
  Node.Build.block [
    .labeledStmt ⟨3, 80⟩ (.ofName "L") (.whileStmt ⟨6, 80⟩ (Node.Build.name "a")
      (Node.Build.blockStmt ⟨16, 80⟩ [
        .switchStmt ⟨18, 68⟩ (Node.Build.name "b") (.ofList [
          .clause ⟨31, 46⟩ (.some (Node.Build.name "c")) (.ofList [.breakStmt ⟨39, 45⟩ none]),
          .clause ⟨47, 66⟩ .none (.ofList [.continueStmt ⟨56, 65⟩ none])]),
        .breakStmt ⟨69, 77⟩ (some (.ofName "L"))])),
    .exprStmt ⟨81, 102⟩ (.arrow ⟨82, 100⟩ 0 false false .nil
      (.blockBody (Node.Build.block [.returnStmt ⟨90, 97⟩ .none]))),
    .ifStmt ⟨103, 118⟩ (Node.Build.name "d") (.breakStmt ⟨110, 118⟩ (some (.ofName "M"))) .none,
    .returnStmt ⟨119, 126⟩ .none]

/-- `catch { continue; }` -/
def skippingHandler : Node (.opt .handler) :=
  .some (.handler ⟨129, 149⟩ .none (Node.Build.block [.continueStmt ⟨137, 146⟩ none]))

open Finallys in
theorem earlyExits_eq_leavingJumps_mixedExits :
    entersFunction mixedExits = false ∧
      (∀ h ∈ skippingHandler.toOption, entersFunction (handlerBody h) = false) ∧
      mixedExits.leavingJumps = [(⟨110, 118⟩, .break), (⟨119, 126⟩, .return)] ∧
      earlyExits mixedExits skippingHandler = mixedExits.leavingJumps ++
        (skippingHandler.toOption.map fun h => (handlerBody h).leavingJumps).getD [] := by
  have hbody : entersFunction mixedExits = false := by decide +kernel
  have hhandler : ∀ h ∈ skippingHandler.toOption, entersFunction (handlerBody h) = false := by
    rintro h ⟨⟩
    decide +kernel
  have hjumps : mixedExits.leavingJumps = [(⟨110, 118⟩, .break), (⟨119, 126⟩, .return)] := by
    decide +kernel
  exact ⟨hbody, hhandler, hjumps, earlyExits_eq_leavingJumps _ _ hbody hhandler⟩

/-- `{ f({ get x() { return 1; } }); }` -/
def accessorCall : Block :=
  Node.Build.block [Node.Build.exprStmt (Node.Build.call (Node.Build.name "f") [
    .object ⟨5, 29⟩ (.ofList [.getterProp ⟨7, 27⟩ (.fixedKey ⟨11, 12⟩ (.name "x"))
      (.some (Node.Build.block [.returnStmt ⟨17, 26⟩ (.some (Node.Build.num 1))]))])])]

/-- The `return` of an accessor is taken for one of the `try`. -/
theorem earlyExits_accessorCall :
    accessorCall.leavingJumps = [] ∧
      Finallys.earlyExits accessorCall .none = [(⟨17, 26⟩, .return)] := by
  decide +kernel

end PlainJs

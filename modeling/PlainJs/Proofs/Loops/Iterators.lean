import PlainJs.Proofs.Builders

namespace PlainJs

open Run

namespace Interp

variable {U V : Type} {I : Interp U V} {temps : List String}

@[simp] theorem functionMeanings_member (span : Span) (o : Expr) (k : Key) :
    I.functionMeanings temps (.member span o k) =
      I.functionMeanings temps o ++ I.functionMeanings temps k := functionMeanings_two rfl rfl

@[simp] theorem functionMeanings_fixedKey (span : Span) (k : FixedKey) :
    I.functionMeanings temps (.fixedKey span k) = [] := functionMeanings_leaf rfl rfl

@[simp] theorem functionMeanings_computedKey (span : Span) (e : Expr) :
    I.functionMeanings temps (.computedKey span e) = I.functionMeanings temps e :=
  functionMeanings_one rfl rfl

@[simp] theorem functionMeanings_call (span : Span) (ctxt : Nat) (callee : Node .callee)
    (args : Node (.list .arg)) :
    I.functionMeanings temps (.call span ctxt callee args) =
      I.functionMeanings temps callee ++ I.functionMeanings temps args := functionMeanings_two rfl rfl

@[simp] theorem functionMeanings_exprCallee (e : Expr) :
    I.functionMeanings temps (.exprCallee e) = I.functionMeanings temps e :=
  functionMeanings_one rfl rfl

@[simp] theorem functionMeanings_plainArg (e : Expr) :
    I.functionMeanings temps (.plainArg e) = I.functionMeanings temps e :=
  functionMeanings_one rfl rfl

@[simp] theorem functionMeanings_whileStmt (span : Span) (e : Expr) (s : Stmt) :
    I.functionMeanings temps (.whileStmt span e s) =
      I.functionMeanings temps e ++ I.functionMeanings temps s := functionMeanings_two rfl rfl

theorem codeOf_member (span : Span) (o : Expr) (k : Key) :
    codeOf I temps (.member span o k) =
      (.member span (codeOf I temps o).1 (codeOf I temps k).1,
        (codeOf I temps o).2 ++ (codeOf I temps k).2) :=
  codeOf_pair nofun rfl

theorem codeOf_fixedKey (span : Span) (k : FixedKey) :
    codeOf I temps (.fixedKey span k) = (.fixedKey span k, []) := codeOf_eq nofun

theorem codeOf_computedKey (span : Span) (e : Expr) : codeOf I temps (.computedKey span e) =
    (.computedKey span (codeOf I temps e).1, (codeOf I temps e).2) :=
  (codeOf_eq (c := .key) nofun).trans (Prod.ext rfl (List.flatMap_singleton ..))

theorem codeOf_call (span : Span) (ctxt : Nat) (callee : Node .callee) (args : Node (.list .arg)) :
    codeOf I temps (.call span ctxt callee args) =
      (.call span ctxt (codeOf I temps callee).1 (codeOf I temps args).1,
        (codeOf I temps callee).2 ++ (codeOf I temps args).2) :=
  codeOf_pair nofun rfl

theorem codeOf_exprCallee (e : Expr) : codeOf I temps (.exprCallee e) =
    (.exprCallee (codeOf I temps e).1, (codeOf I temps e).2) :=
  (codeOf_eq (c := .callee) nofun).trans (Prod.ext rfl (List.flatMap_singleton ..))

theorem codeOf_plainArg (e : Expr) : codeOf I temps (.plainArg e) =
    (.plainArg (codeOf I temps e).1, (codeOf I temps e).2) :=
  (codeOf_eq (c := .arg) nofun).trans (Prod.ext rfl (List.flatMap_singleton ..))

theorem codeOf_nil {c : Cat} : codeOf I temps (.nil : Node (.list c)) = (.nil, []) := codeOf_eq nofun

theorem codeOf_cons {c : Cat} (a : Node c) (l : Node (.list c)) :
    codeOf I temps (.cons a l) = (.cons (codeOf I temps a).1 (codeOf I temps l).1,
      (codeOf I temps a).2 ++ (codeOf I temps l).2) :=
  codeOf_pair nofun rfl

section

variable (bs : List (Body U V)) {span : Span} {ctxt : Nat} {callee : Node .callee}
  {args : Node (.list .arg)}

theorem eval_call_next {it : String} (h : loopCall I temps args callee = .next it) :
    I.eval temps (.call span ctxt callee args) bs =
      readTemp it >>= fun v => lift (I.next false v) := by
  conv_lhs => unfold eval
  split <;> simp_all

theorem eval_call_iterator {o : Expr} (h : loopCall I temps args callee = .iterator o) :
    I.eval temps (.call span ctxt callee args) bs =
      I.eval temps o bs >>= fun v => lift (I.iterator false v) := by
  conv_lhs => unfold eval
  split <;> simp_all

theorem eval_call_keys {e : Expr} (h : loopCall I temps args callee = .keys e) :
    I.eval temps (.call span ctxt callee args) bs =
      I.eval temps e bs >>= fun v => lift (I.keys v) := by
  conv_lhs => unfold eval
  split <;> simp_all

theorem eval_call_other (h : loopCall I temps args callee = .other) :
    I.eval temps (.call span ctxt callee args) bs = lift (I.expr (.call span ctxt callee args) bs) := by
  conv_lhs => unfold eval
  split <;> simp_all

theorem eval_field {o : Expr} (h : isTemporary temps o = true) (kspan : Span) (x : String) :
    I.eval temps (.member span o (.fixedKey kspan (.name x))) bs =
      (I.field · x) <$> I.eval temps o bs := by
  conv_lhs => unfold eval
  simp [eval.fieldName?, h]

end

/-- A step of the iterator in a temporary. -/
theorem value_next {it : Ident} (h : it.name ∈ temps) :
    I.value temps (Node.Build.call (Node.Build.member (.ref it) "next") []) =
      readTemp it.name >>= fun v => lift (I.next false v) := by
  have hcall : Node.Build.call (Node.Build.member (.ref it) "next") [] =
      .call .none 0 (.exprCallee (.member .none (.ref it) (.fixedKey .none (.name "next")))) .nil :=
    rfl
  rw [hcall, value_eq, codeOf_call, codeOf_exprCallee, codeOf_member, codeOf_ref, codeOf_fixedKey,
    codeOf_nil]
  refine eval_call_next _ ?_
  simp [loopCall, loopCall.ofCallee, loopCall.ofMember, loopCall.ofIterator, h]

/-- A field of what a temporary holds. -/
theorem value_field {id : Ident} (h : id.name ∈ temps) (x : String) :
    I.value temps (Node.Build.member (.ref id) x) = (I.field · x) <$> readTemp id.name := by
  have hmember : Node.Build.member (.ref id) x = .member .none (.ref id) (.fixedKey .none (.name x)) :=
    rfl
  rw [hmember, value_eq, codeOf_member, codeOf_ref, codeOf_fixedKey,
    eval_field _ (isTemporary_ref h), eval_ref _ h]

/-- Keeps the value of an expression in a temporary and looks whether it says that there is no
more. -/
theorem value_unlessDone {step : Ident} (h : step.name ∈ temps) (e : Expr) :
    I.value temps (Node.Build.not (Node.Build.member (Node.Build.assignTo step e) "done")) = do
      let v ← I.value temps e
      writeTemp step.name v
      return I.bool (!I.truthy (I.field v "done")) := by
  have hmember : Node.Build.member (Node.Build.assignTo step e) "done" =
      .member .none (.paren .none (Node.Build.assignTo step e)) (.fixedKey .none (.name "done")) :=
    rfl
  have hassign : (codeOf I temps (Node.Build.assignTo step e)).1 =
      .assign .none .assign (.binder step) (codeOf I temps (Node.atLeast Node.assignStrength e)).1 := by
    rw [Node.Build.assignTo, Node.Build.assign, codeOf_assign, codeOf_binder]
  have htemp : isTemporary temps
      (.paren .none (codeOf I temps (Node.Build.assignTo step e)).1) = true := by
    rw [hassign]
    exact List.contains_iff_mem.mpr h
  rw [value_not, hmember, value_eq, codeOf_member, codeOf_paren, codeOf_fixedKey,
    eval_field _ htemp, eval_paren, List.append_nil, ← value_eq, value_assignTo h]
  simp

theorem value_iterator (h : "Symbol" ∉ temps) (subject : Expr) :
    I.value temps (Node.Build.call (Node.Build.computed subject
      (Node.Build.member (Node.Build.name "Symbol") "iterator")) []) =
      I.value temps subject >>= fun v => lift (I.iterator false v) := by
  let key : Expr := .member .none (.ref (.ofName "Symbol")) (.fixedKey .none (.name "iterator"))
  have hcall : Node.Build.call (Node.Build.computed subject
      (Node.Build.member (Node.Build.name "Symbol") "iterator")) [] =
      .call .none 0 (.exprCallee (.member .none (Node.atLeast Node.memberStrength subject)
        (.computedKey .none key))) .nil := rfl
  have hkey : codeOf I temps key = (key, []) := by
    rw [codeOf_member, codeOf_ref, codeOf_fixedKey]
    rfl
  rw [hcall, value_eq, codeOf_call, codeOf_exprCallee, codeOf_member, codeOf_computedKey, hkey,
    codeOf_nil, eval_call_iterator (o := (codeOf I temps (Node.atLeast _ subject)).1),
    List.append_nil, List.append_nil, ← value_eq, value_atLeast]
  simp [loopCall, loopCall.ofCallee, loopCall.ofMember, isIteratorSymbol, isIteratorSymbol.isGlobal,
    Ident.ofName, key, h]

theorem value_keys {helper : String} (hname : I.keyHelper = helper) (h : helper ∉ temps)
    (subject : Expr) :
    I.value temps (Node.Build.call (Node.Build.name helper) [subject]) =
      I.value temps subject >>= fun v => lift (I.keys v) := by
  have hcall : Node.Build.call (Node.Build.name helper) [subject] =
      .call .none 0 (.exprCallee (.ref (.ofName helper)))
        (.cons (.plainArg (Node.atLeast Node.assignStrength subject)) .nil) := rfl
  rw [hcall, value_eq, codeOf_call, codeOf_exprCallee, codeOf_ref, codeOf_cons, codeOf_plainArg,
    codeOf_nil, eval_call_keys (e := (codeOf I temps (Node.atLeast _ subject)).1),
    List.nil_append, List.append_nil, ← value_eq, value_atLeast]
  simp [loopCall, loopCall.ofCallee, soleArg?, soleArg?.plainArg?, Ident.ofName, hname, h]

variable (I) in
/-- Takes a step of the iterator in one temporary, keeps it in another one and looks whether there
is more. -/
def stepTest (iter step : String) : Action (State U V) V V := do
  let v ← readTemp iter
  let r ← lift (I.next false v)
  writeTemp step r
  return I.bool (!I.truthy (I.field r "done"))

/-- The test of a loop over an iterator. -/
theorem value_stepTest {it step : Ident} (hit : it.name ∈ temps) (hstep : step.name ∈ temps) :
    I.value temps (Node.Build.not (Node.Build.member (Node.Build.assignTo step
      (Node.Build.call (Node.Build.member (.ref it) "next") [])) "done")) =
      I.stepTest it.name step.name := by
  rw [value_unlessDone hstep, value_next hit, bind_assoc, stepTest]

end Interp

end PlainJs

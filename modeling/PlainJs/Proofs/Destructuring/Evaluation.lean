import PlainJs.Lowering.Declarations
import PlainJs.Proofs.Temporaries
import PlainJs.Proofs.Visited

namespace PlainJs

/-- What a variable or a property holds. -/
inductive Value (P : Type)
  | undefined
  | bool (b : Bool)
  | prim (p : P)
  | object (address : Nat)

/-- All that a program can see: variables, the own properties of objects by address, and a world
that only the host knows. -/
structure Memory (W P K : Type) where
  world : W
  vars : String → Option (VarKind × Value P)
  heap : List (List (K × Value P))

/-- What the language does not fix. -/
structure Host (W P K : Type) where
  num : Decimal → P
  str : String → P
  bigInt : BigWhole → P
  privateName : String → P
  truthy : P → Bool
  same : P → P → Bool
  /-- The key of the property that a value names. -/
  key : Value P → K
  expr : Expr → Action (Memory W P K) (Value P) (Value P)
  get : Value P → Value P → Action (Memory W P K) (Value P) (Value P)
  /-- Calls a method with one argument. -/
  invoke : Value P → Value P → Value P → Action (Memory W P K) (Value P) (Value P)

namespace Value

variable {P : Type}

def isUndefined : Value P → Bool
  | undefined => true
  | _ => false

end Value

namespace Memory

variable {W P K : Type} (m : Memory W P K)

def own : Value P → List (K × Value P)
  | .object a => m.heap.getD a []
  | _ => []

/-- Declares a name. A `var` without a value leaves the variable as it is. -/
def declare (kind : VarKind) (x : String) (v : Option (Value P)) : Memory W P K :=
  if v.isNone ∧ kind = .var then m
  else { m with vars := Function.update m.vars x (some (kind, v.getD .undefined)) }

/-- A new object with the given properties. -/
def allocate (props : List (K × Value P)) : Value P × Memory W P K :=
  (.object m.heap.length, { m with heap := m.heap ++ [props] })

variable [DecidableEq K]

/-- Removes the properties of an object that have the given keys. -/
def remove (v : Value P) (keys : List K) : Memory W P K :=
  match v with
  | .object a => { m with heap := m.heap.modify a (·.filter (·.1 ∉ keys)) }
  | _ => m

theorem remove_nil (v : Value P) : m.remove v [] = m := by
  cases v with
  | object a =>
    have hid : (fun props : List (K × Value P) => props.filter (·.1 ∉ [])) = id := by
      funext props
      simp
    rw [remove, hid, List.modify_id]
  | _ => rfl

theorem remove_remove (v : Value P) (keys keys' : List K) :
    (m.remove v keys).remove v keys' = m.remove v (keys ++ keys') := by
  cases v with
  | object a =>
    simp only [remove, List.modify_modify_eq]
    congr 2
    funext props
    simp [List.filter_filter, Bool.and_comm]
  | _ => rfl

@[simp] theorem vars_remove (v : Value P) (keys : List K) : (m.remove v keys).vars = m.vars := by
  cases v <;> rfl

/-- What is removed from a new object need not be copied. -/
theorem remove_allocate (props : List (K × Value P)) (keys : List K) (kind : VarKind) (x : String) :
    ((m.allocate props).2.declare kind x (some (m.allocate props).1)).remove
        (m.allocate props).1 keys =
      (m.allocate (props.filter (·.1 ∉ keys))).2.declare kind x
        (some (m.allocate (props.filter (·.1 ∉ keys))).1) := by
  have hlast (l : List (List (K × Value P))) (f : List (K × Value P) → List (K × Value P)) :
      (l ++ [props]).modify l.length f = l ++ [f props] := by
    induction l with
    | nil => rfl
    | cons a l ih => simp [ih]
  simp [allocate, declare, remove, hlast]

end Memory

namespace Host

open Node Interp

variable {W P K : Type} [DecidableEq K] (H : Host W P K) (temps : List String)

/-- The actions of a program that has temporaries. -/
abbrev Act (W P K : Type) := Action (State (Memory W P K) (Value P)) (Value P)

/-- An action without an outcome. -/
def stuck {A : Type} : Act W P K A := ExceptT.mk Effect.stuck

/-- An action that reads or changes the memory and cannot fail. -/
def onMemory {A : Type} (f : Memory W P K → A × Memory W P K) : Act W P K A :=
  lift (ExceptT.mk fun m => .some (.ok (f m).1, (f m).2))

def literal? : Atom → Option (Value P)
  | .bool b => some (.bool b)
  | .num v _ => some (.prim (H.num v))
  | .str v _ => some (.prim (H.str v))
  | .bigInt v _ => some (.prim (H.bigInt v))
  | _ => none

def fixed : FixedKey → Value P
  | .name s | .str s _ => .prim (H.str s)
  | .num v _ => .prim (H.num v)
  | .bigInt v _ => .prim (H.bigInt v)
  | .privateName s => .prim (H.privateName s)

def isTrue : Value P → Bool
  | .undefined => false
  | .bool b => b
  | .prim p => H.truthy p
  | .object _ => true

def strictEq : Value P → Value P → Bool
  | .undefined, .undefined => true
  | .bool a, .bool b => a == b
  | .prim a, .prim b => H.same a b
  | .object a, .object b => a == b
  | _, _ => false

/-- Reads a variable. -/
def read (id : Ident) : Act W P K (Value P) :=
  if id.name ∈ temps then readTemp id.name
  else lift (ExceptT.mk fun m =>
    (m.vars id.name).elim ((H.expr (.ref id)).run m) fun x => .some (.ok x.2, m))

/-- A new object with the own properties of a value, without those that have the given keys. -/
def copyWithout (v : Value P) (keys : List (Value P)) : Act W P K (Value P) :=
  onMemory fun m => m.allocate ((m.own v).filter (·.1 ∉ keys.map H.key))

/-- The calls that destructuring is written with. -/
inductive CallForm
  /-- A method of a variable, called with one argument. -/
  | method (id : Ident) (k : FixedKey)
  /-- The call `Object.assign({}, e)`. -/
  | copy
  | other

/-- The variable and the method of it that are called. -/
def methodOf? : Node .callee → Option (Ident × FixedKey)
  | .exprCallee f => ofMember f
  | _ => .none
where
  ofMember : Expr → Option (Ident × FixedKey)
    | .member _ o k => ofObject o k
    | _ => .none
  ofObject : Expr → Key → Option (Ident × FixedKey)
    | .ref id, .fixedKey _ k => .some (id, k)
    | _, _ => .none

def plainArg? : Node .arg → Option Expr
  | .plainArg e => .some e
  | _ => .none

def isEmptyObject : Expr → Bool
  | .object _ props => props.toList.isEmpty
  | _ => false

def callForm (callee : Node .callee) (args : List (Node .arg)) : CallForm :=
  match methodOf? callee, args with
  | .some (id, k), [a] => if (plainArg? a).isSome then .method id k else .other
  | .some (id, k), [a, b] =>
    if id.name = "Object" ∧ k = .name "assign" ∧ (plainArg? a).any isEmptyObject ∧
      (plainArg? b).isSome then .copy else .other
  | _, _ => .other

/-- Makes a call of a given form; `arg` evaluates its last argument. -/
def makeCall (call : Expr) (arg : Act W P K (Value P)) : CallForm → Act W P K (Value P)
  | .method id k => do
    let v ← H.read temps id
    let a ← arg
    lift (H.invoke v (H.fixed k) a)
  | .copy => arg >>= fun v => H.copyWithout v []
  | .other => lift (H.expr call)

/-- The value of an expression, of a key, or of the last one of some arguments. -/
def eval : {c : Cat} → Node c → Act W P K (Value P)
  | _, .paren _ e => eval e
  | _, .atom span a => (H.literal? a).elim (lift (H.expr (.atom span a))) pure
  | _, .ref id => H.read temps id
  | _, .unary span op e =>
    if op = .void then eval e >>= fun _ => pure .undefined else lift (H.expr (.unary span op e))
  | _, .binary span op l r =>
    if op = .eqEqEq then do
      let v ← eval l
      let w ← eval r
      return .bool (H.strictEq v w)
    else lift (H.expr (.binary span op l r))
  | _, .cond _ t a b => do
    let v ← eval t
    if H.isTrue v then eval a else eval b
  | _, .member _ o k => do
    let v ← eval o
    let w ← eval k
    lift (H.get v w)
  | _, .call span ctxt callee args =>
    H.makeCall temps (.call span ctxt callee args) (eval args) (callForm callee args.toList)
  | .expr, e => lift (H.expr e)
  | _, .fixedKey _ k => pure (H.fixed k)
  | _, .computedKey _ e => eval e
  | _, .plainArg e => eval e
  | _, .cons a rest => if rest.toList.isEmpty then eval a else eval rest
  | _, _ => stuck

theorem eval_cond (span : Span) (t a b : Expr) :
    H.eval temps (.cond span t a b) =
      H.eval temps t >>= fun v => if H.isTrue v then H.eval temps a else H.eval temps b := rfl

theorem eval_eqEqEq (span : Span) (l r : Expr) :
    H.eval temps (.binary span .eqEqEq l r) = H.eval temps l >>= fun v =>
      H.eval temps r >>= fun w => pure (.bool (H.strictEq v w)) := rfl

theorem eval_void (span : Span) (e : Expr) :
    H.eval temps (.unary span .void e) = H.eval temps e >>= fun _ => pure .undefined := rfl

theorem eval_num (i : Nat) : H.eval temps (Build.num i) = pure (.prim (H.num (.ofNat i))) := rfl

/-- Binds a name, with a value if there is one. -/
def bindName (kind : VarKind) (id : Ident) (v : Option (Value P)) : Act W P K Unit :=
  if id.name ∈ temps then writeTemp id.name (v.getD .undefined)
  else onMemory fun m => ((), m.declare kind id.name v)

/-- A value, or a default where that is undefined. -/
def orElse (v : Value P) (e : Node (.opt .expr)) : Act W P K (Value P) :=
  match e with
  | .some e => if v.isUndefined then H.eval temps e else pure v
  | .none => pure v

/-- Reads an element of an array, or the rest of it. -/
def element (v : Value P) (i : Nat) (isRest : Bool) : Act W P K (Value P) :=
  let index : Value P := .prim (H.num (.ofNat i))
  lift (if isRest then H.invoke v (.prim (H.str "slice")) index else H.get v index)

mutual

/-- Binds a pattern to a value. -/
def bindPattern (kind : VarKind) (p : Pat) (v : Value P) : Act W P K Unit :=
  match p with
  | .binder id => bindName temps kind id (.some v)
  | .defaultPat _ p e => H.orElse temps v (.some e) >>= bindPattern kind p
  | .arrayPat _ _ elems => bindElements kind v 0 elems
  | .objectPat _ _ props => bindProperties kind v [] props
  | .restPat _ _ p => bindPattern kind p v
  | .exprPat _ | .invalidPat _ => stuck
termination_by sizeOf p

/-- Binds the elements of an array pattern from an index on. -/
def bindElements (kind : VarKind) (v : Value P) (i : Nat) (elems : Node (.list (.opt .pat))) :
    Act W P K Unit :=
  match elems with
  | .nil => pure ()
  | .cons .none rest => bindElements kind v (i + 1) rest
  | .cons (.some p) rest => do
    let w ← H.element v i p.isRest
    bindPattern kind p w
    bindElements kind v (i + 1) rest
termination_by sizeOf elems

/-- Binds the properties of an object pattern; `seen` are the keys named before. -/
def bindProperties (kind : VarKind) (v : Value P) (seen : List (Value P))
    (props : Node (.list .patProp)) : Act W P K Unit :=
  match props with
  | .nil => pure ()
  | .cons (.keyedPat k p) rest => do
    let key ← H.eval temps k
    let w ← lift (H.get v key)
    bindPattern kind p w
    bindProperties kind v (seen ++ [key]) rest
  | .cons (.shortPat _ id default) rest => do
    let key := .prim (H.str id.name)
    let w ← lift (H.get v key)
    let w ← H.orElse temps w default
    bindName temps kind id (.some w)
    bindProperties kind v (seen ++ [key]) rest
  | .cons (.restProp _ _ p) rest => do
    let w ← H.copyWithout v seen
    bindPattern kind p w
    bindProperties kind v seen rest
termination_by sizeOf props

end

/-- Runs a declarator. A pattern needs a value. -/
def execDeclarator (kind : VarKind) : Declarator → Act W P K Unit
  | .declarator _ _ p (.some e) => H.eval temps e >>= H.bindPattern temps kind p
  | .declarator _ _ (.binder id) .none => bindName temps kind id .none
  | .declarator _ _ _ .none => stuck

def execDecl : VarDecl → Act W P K Unit
  | .varDecl _ _ kind _ decls => decls.toList.forM (H.execDeclarator temps kind)

/-- The property that an expression deletes. -/
def deleted? : Expr → Option (Expr × Key)
  | .unary _ op e => if op = .delete then ofMember e else .none
  | _ => .none
where
  ofMember : Expr → Option (Expr × Key)
    | .member _ o k => .some (o, k)
    | _ => .none

/-- Runs a statement that deletes a property or evaluates an expression. -/
def execExpr (e : Expr) : Act W P K Unit :=
  match deleted? e with
  | .some (o, k) => do
    let v ← H.eval temps o
    let w ← H.eval temps k
    onMemory fun m => ((), m.remove v [H.key w])
  | .none => H.eval temps e >>= fun _ => pure ()

def execStmt : Stmt → Act W P K Unit
  | .declStmt d => ofDecl d
  | .exprStmt _ e => H.execExpr temps e
  | _ => stuck
where
  ofDecl : Node .decl → Act W P K Unit
    | .declVar v => H.execDecl temps v
    | _ => stuck

def exec (stmts : List Stmt) : Act W P K Unit := stmts.forM (H.execStmt temps)

variable {H temps} {R : State (Memory W P K) (Value P) → State (Memory W P K) (Value P) → Prop}

omit [DecidableEq K] in
theorem keep_read (hR : Neutral R) {id : Ident} (h : id.name ∉ temps) :
    (H.read [] id).Keep R (H.read temps id) := by
  rw [read, read, if_neg List.not_mem_nil, if_neg h]
  exact keep_lift hR _

omit [DecidableEq K] in
theorem keep_stuck {A : Type} : Action.Keep R (stuck : Act W P K A) stuck := fun _ _ _ => .none

theorem callForm_eq_method {callee : Node .callee} {args : List (Node .arg)} {id : Ident}
    {k : FixedKey} (h : callForm callee args = .method id k) :
    ∃ span kspan, callee = .exprCallee (.member span (.ref id) (.fixedKey kspan k)) := by
  have hmethod : methodOf? callee = .some (id, k) := by
    unfold callForm at h
    split at h
    · split at h
      · cases h
        assumption
      · cases h
    · split at h <;> cases h
    · cases h
  unfold methodOf? methodOf?.ofMember methodOf?.ofObject at hmethod
  split at hmethod
  · split at hmethod
    · split at hmethod
      · cases hmethod
        exact ⟨_, _, rfl⟩
      · cases hmethod
    · cases hmethod
  · cases hmethod

theorem keep_makeCall (hR : Neutral R) {call : Expr} {arg arg' : Act W P K (Value P)}
    {form : CallForm} (hid : ∀ id k, form = .method id k → id.name ∉ temps)
    (harg : arg.Keep R arg') :
    (H.makeCall [] call arg form).Keep R (H.makeCall temps call arg' form) := by
  cases form with
  | method id k =>
    refine (keep_read hR (hid id k rfl)).bind fun v => ?_
    exact harg.bind fun a => keep_lift hR _
  | copy => exact harg.bind fun v => keep_lift hR _
  | other => exact keep_lift hR _

/-- Code without temporaries neither reads nor changes them, whatever they are. -/
theorem keep_eval (hR : Neutral R) {c : Cat} (n : Node c) (h : n.Clear temps) :
    (H.eval [] n).Keep R (H.eval temps n) := by
  induction n using partsInduction with
  | step n ih =>
    have part {d : Cat} {k : Node d} (hk : ⟨d, k⟩ ∈ n.children) :
        (H.eval [] k).Keep R (H.eval temps k) := ih hk (h.part hk)
    cases n
    case paren span e => exact part (k := e) (.head _)
    case atom span a =>
      change Action.Keep R ((H.literal? a).elim _ _) ((H.literal? a).elim _ _)
      cases H.literal? a with
      | none => exact keep_lift hR _
      | some v => exact .pure v
    case ref id => exact keep_read hR (h.own (.head _))
    case unary span op e =>
      change Action.Keep R (if op = .void then _ else _) (if op = .void then _ else _)
      split
      · exact (part (.head _)).bind fun _ => .pure _
      · exact keep_lift hR _
    case binary span op l r =>
      change Action.Keep R (if op = .eqEqEq then _ else _) (if op = .eqEqEq then _ else _)
      split
      · refine (part (.head _)).bind fun v => ?_
        exact (part (.tail _ (.head _))).bind fun w => .pure _
      · exact keep_lift hR _
    case cond span t a b =>
      refine (part (.head _)).bind fun v => ?_
      split
      · exact part (.tail _ (.head _))
      · exact part (.tail _ (.tail _ (.head _)))
    case member span o k =>
      refine (part (.head _)).bind fun v => ?_
      exact (part (.tail _ (.head _))).bind fun w => keep_lift hR _
    case call span ctxt callee args =>
      have harg := part (k := args) (.tail _ (.head _))
      refine keep_makeCall hR (fun id k hform => ?_) harg
      obtain ⟨mspan, kspan, rfl⟩ := callForm_eq_method hform
      exact (((h.part (.head _)).part (.head _)).part (.head _)).own (.head _)
    case fixedKey span k => exact .pure _
    case computedKey span e => exact part (k := e) (.head _)
    case plainArg e => exact part (k := e) (.head _)
    case cons a rest =>
      change Action.Keep R (if rest.toList.isEmpty then _ else _)
        (if rest.toList.isEmpty then _ else _)
      split
      · exact part (.head _)
      · exact part (.tail _ (.head _))
    all_goals first | exact keep_stuck | exact keep_lift hR _

end Host

end PlainJs

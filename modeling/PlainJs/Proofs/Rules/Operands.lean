import PlainJs.Proofs.Rules.Passes

namespace PlainJs

open Node Build

/-- The nonterminals of expressions, each of which derives what the following ones derive. -/
inductive Tier
  | expression | assignment | conditional | shortCircuit | logicalAnd
  | bitwiseOr | bitwiseXor | bitwiseAnd | equality | relational | shift
  | additive | multiplicative | exponentiation | unary | update | leftHandSide | call
deriving DecidableEq, Repr

instance : LE Tier := ⟨fun a b => a.ctorIdx ≤ b.ctorIdx⟩

instance : LT Tier := ⟨fun a b => a.ctorIdx < b.ctorIdx⟩

instance (a b : Tier) : Decidable (a ≤ b) := inferInstanceAs (Decidable (a.ctorIdx ≤ b.ctorIdx))

instance (a b : Tier) : Decidable (a < b) := inferInstanceAs (Decidable (a.ctorIdx < b.ctorIdx))

def BinaryOp.tier : BinaryOp → Tier
  | or | nullish => .shortCircuit
  | and => .logicalAnd
  | bitOr => .bitwiseOr
  | bitXor => .bitwiseXor
  | bitAnd => .bitwiseAnd
  | eqEq | notEq | eqEqEq | notEqEq => .equality
  | lt | ltEq | gt | gtEq | isIn | instanceOf => .relational
  | shiftLeft | shiftRight | shiftRightZero => .shift
  | add | sub => .additive
  | mul | div | mod => .multiplicative
  | exp => .exponentiation

namespace Node

/-- The last nonterminal of the chain that derives an expression. -/
def tier : Expr → Tier
  | .seq .. => .expression
  | .assign .. | .arrow .. | .yieldExpr .. => .assignment
  | .cond .. => .conditional
  | .binary _ op _ _ => op.tier
  | .unary .. | .awaitExpr .. => .unary
  | .update .. => .update
  -- `new f` without arguments and optional chains take no member access behind them
  | .newCall _ _ _ .none | .optMember .. | .optCall .. => .leftHandSide
  | .newCall _ _ _ (.some _) | .member .. | .superMember .. | .call .. | .tagged ..
  | .ref _ | .atom .. | .array .. | .object .. | .function .. | .classExpr .. | .paren ..
  | .template .. => .call

def isBinary (op : BinaryOp) : Expr → Bool
  | .binary _ op' _ _ => op' == op
  | _ => false

def isChain : Expr → Bool
  | .optMember .. | .optCall .. => true
  | _ => false

/-- Whether an expression may stand where the grammar asks for a nonterminal. -/
def fits (t : Tier) (e : Expr) : Bool := t ≤ e.tier

/-- Whether an expression may stand to the left of an operator. `??` does not mix with `||` and
`&&`, and `**` takes no unary operator on its left. -/
def fitsLeft (op : BinaryOp) (e : Expr) : Bool :=
  match op with
  | .exp => e.fits .update
  | .nullish => e.fits .bitwiseOr || e.isBinary .nullish
  | .or => e.fits .logicalAnd || e.isBinary .or
  | op => e.fits op.tier

/-- Whether an expression may stand to the right of an operator; `**` associates to the right. -/
def fitsRight (op : BinaryOp) (e : Expr) : Bool :=
  match op with
  | .exp => e.fits .exponentiation
  | .nullish => e.fits .bitwiseOr
  | op => op.tier < e.tier

def argValue : Node .arg → Expr
  | .plainArg e | .spreadArg _ e => e

def argsFit (args : Node (.list .arg)) : Bool :=
  args.toList.all fun a => a.argValue.fits .assignment

def calleeFits : Node .callee → Bool
  | .exprCallee e => e.fits .call
  | _ => true

def targetFits : Pat → Bool
  | .exprPat e => e.fits .leftHandSide
  | _ => true

/-- Whether a member access or a call with `?.` may stand behind an expression. -/
def baseFits (e : Expr) : Bool := e.fits .call || e.isChain

/-- The operands of a node bind tightly enough. -/
def hasFittingOperands : {c : Cat} → Node c → Bool
  | _, .unary _ _ e => e.fits .unary
  | _, .binary _ op l r => l.fitsLeft op && r.fitsRight op
  | _, .cond _ t a b => t.fits .shortCircuit && a.fits .assignment && b.fits .assignment
  | _, .member _ o _ => o.fits .call
  | _, .optMember _ _ _ o _ => o.baseFits
  | _, .call _ _ f args => f.calleeFits && args.argsFit
  | _, .optCall _ _ _ _ f args => f.baseFits && args.argsFit
  | _, .assign _ _ p e => p.targetFits && e.fits .assignment
  | _, _ => true

theorem tier_head (e : Expr) : e.head.tier = e.tier := by
  cases e with
  | newCall span ctxt callee args => cases args <;> rfl
  | _ => rfl

theorem isBinary_head (op : BinaryOp) (e : Expr) : e.head.isBinary op = e.isBinary op := by
  cases e <;> rfl

theorem isChain_head (e : Expr) : e.head.isChain = e.isChain := by cases e <;> rfl

namespace SameHeads

variable {e e' : Expr}

theorem fits_eq (h : SameHeads e e') (t : Tier) : e.fits t = e'.fits t := by
  have htier : e.tier = e'.tier := h.congr tier tier_head
  rw [fits, fits, htier]

theorem isBinary_eq (h : SameHeads e e') (op : BinaryOp) : e.isBinary op = e'.isBinary op :=
  h.congr (isBinary op) (isBinary_head op)

theorem fitsLeft_eq (h : SameHeads e e') (op : BinaryOp) : e.fitsLeft op = e'.fitsLeft op := by
  unfold fitsLeft
  split <;> simp only [h.fits_eq, h.isBinary_eq]

theorem fitsRight_eq (h : SameHeads e e') (op : BinaryOp) : e.fitsRight op = e'.fitsRight op := by
  have htier : e.tier = e'.tier := h.congr tier tier_head
  unfold fitsRight
  split <;> simp only [h.fits_eq, htier]

theorem baseFits_eq (h : SameHeads e e') : e.baseFits = e'.baseFits := by
  have hchain : e.isChain = e'.isChain := h.congr isChain isChain_head
  rw [baseFits, baseFits, h.fits_eq, hchain]

end SameHeads

theorem fits_head (t : Tier) (e : Expr) : e.head.fits t = e.fits t := by
  rw [fits, fits, tier_head]

theorem argsFit_eq_heads (args : Node (.list .arg)) :
    args.argsFit = args.heads.all (fits .assignment) := by
  have hheads : args.heads = args.toList.map fun a => a.argValue.head := by
    rw [← ofList_toList args]
    induction args.toList with
    | nil => rfl
    | cons a l ih =>
      rw [toList_ofList] at ih ⊢
      have ha : a.heads = [a.argValue.head] := by cases a <;> rfl
      change a.heads ++ (ofList l).heads = _
      rw [ha, ih]
      rfl
  rw [hheads, argsFit, List.all_map]
  simp [Function.comp_def, fits_head]

theorem calleeFits_eq_heads (f : Node .callee) : f.calleeFits = f.heads.all (fits .call) := by
  cases f with
  | exprCallee e => simp [calleeFits, heads, fits_head]
  | _ => rfl

theorem targetFits_eq_heads (p : Pat) : p.targetFits = p.heads.all (fits .leftHandSide) := by
  cases p with
  | exprPat e => simp [targetFits, heads, fits_head]
  | _ => rfl

variable {c : Cat} {n n' : Node c}

theorem hasFittingOperands_of_isWatched_eq_false (h : n.isWatched = false) :
    n.hasFittingOperands = true := by
  cases n <;> first | rfl | cases h

theorem hasFittingOperands_parts (h : Parts SameHeads n n') :
    n.hasFittingOperands = n'.hasFittingOperands := by
  have hwatched : n.isWatched = n'.isWatched := h.form_eq isWatched fun m => by cases m <;> rfl
  cases hn : n.isWatched with
  | false =>
    rw [hasFittingOperands_of_isWatched_eq_false hn,
      hasFittingOperands_of_isWatched_eq_false (hwatched.symm.trans hn)]
  | true =>
    cases n with
    | unary span op e =>
      obtain ⟨e', he, rfl⟩ := h
      exact he.fits_eq .unary
    | binary span op l r =>
      obtain ⟨l', hl, r', hr, rfl⟩ := h
      exact congrArg₂ and (hl.fitsLeft_eq op) (hr.fitsRight_eq op)
    | cond span t a b =>
      obtain ⟨t', ht, a', ha, b', hb, rfl⟩ := h
      simp only [hasFittingOperands, ht.fits_eq, ha.fits_eq, hb.fits_eq]
    | member span o k =>
      obtain ⟨o', ho, k', -, rfl⟩ := h
      exact ho.fits_eq .call
    | optMember span optional baseSpan o k =>
      obtain ⟨o', ho, k', -, rfl⟩ := h
      exact ho.baseFits_eq
    | call span ctxt f args =>
      obtain ⟨f', hf, args', hargs, rfl⟩ := h
      simp only [hasFittingOperands, calleeFits_eq_heads, argsFit_eq_heads, hf.heads, hargs.heads]
    | optCall span optional baseSpan ctxt f args =>
      obtain ⟨f', hf, args', hargs, rfl⟩ := h
      simp only [hasFittingOperands, argsFit_eq_heads, hf.baseFits_eq, hargs.heads]
    | assign span op p e =>
      obtain ⟨p', hp, e', he, rfl⟩ := h
      simp only [hasFittingOperands, targetFits_eq_heads, hp.heads, he.fits_eq]
    | declarator =>
      obtain ⟨_, -, _, -, rfl⟩ := h
      rfl
    | keyedPat =>
      obtain ⟨_, -, _, -, rfl⟩ := h
      rfl
    | switchStmt =>
      obtain ⟨_, -, _, -, rfl⟩ := h
      rfl
    | _ => cases hn

theorem precedence_eq (op : BinaryOp) : op.precedence = op.tier.ctorIdx := by cases op <;> rfl

/-- The strengths number the nonterminals. -/
theorem strength_eq (e : Expr) : e.strength = e.tier.ctorIdx := by
  cases e with
  | binary span op l r => exact precedence_eq op
  | newCall span ctxt callee args => cases args <;> rfl
  | _ => rfl

theorem fits_of_strength {t : Tier} {e : Expr} (h : t.ctorIdx ≤ e.strength) : e.fits t = true := by
  rw [strength_eq] at h
  exact decide_eq_true h

theorem targetFits_of_assignTarget? {p : Pat} (h : p.assignTarget? = .some p) :
    p.targetFits = true := by
  cases p with
  | exprPat e =>
    cases e with
    | member | superMember | paren => rfl
    | _ => cases h
  | _ => rfl

end Node

namespace SyntaxRule

/-- Every operand binds tightly enough. -/
def fittingOperands : SyntaxRule where
  test {_} n := n.hasFittingOperands
  init _ := true
  parts h := hasFittingOperands_parts h
  free h := hasFittingOperands_of_isWatched_eq_false h
  unary h := fits_of_strength h
  binary {op l r} hop hl hr := by
    rw [precedence_eq] at hl hr
    have hlt : op.tier < r.tier := by
      rw [strength_eq] at hr
      exact hr
    have hleft := fits_of_strength hl
    obtain rfl | rfl | rfl := hop
    all_goals simp [hasFittingOperands, fitsLeft, fitsRight, hleft, hlt]
  cond ht ha hb := by
    have htest := fits_of_strength (t := .shortCircuit) ht
    have hyes := fits_of_strength (t := .assignment) ha
    have hno := fits_of_strength (t := .assignment) hb
    simp [hasFittingOperands, htest, hyes, hno]
  member h := fits_of_strength h
  call {f args} hf hargs := by
    have hcallee := fits_of_strength (t := .call) hf
    have hfit : ∀ e ∈ args, e.fits .assignment = true := fun e he => fits_of_strength (hargs e he)
    simpa [hasFittingOperands, calleeFits, hcallee, argsFit, argValue] using hfit
  assign hp he := by
    have hvalue := fits_of_strength (t := .assignment) he
    simp [hasFittingOperands, targetFits_of_assignTarget? hp, hvalue]
  declarator {_ _ _ o} := by cases o <;> rfl
  init_strength _ := rfl

theorem suits_fittingOperands (stage : Stage) : fittingOperands.Suits stage := by
  cases stage with
  | declarations | loops => exact fun _ _ _ _ => rfl
  | switches => exact fun _ _ _ _ _ => rfl
  | continues | finallys => trivial

end SyntaxRule

/-- Where every operand of a program binds as tightly as the grammar asks, so does every operand of
the lowered program. -/
theorem lowerProgram_keeps_fitting_operands {config : Config} {p : Program}
    (hvalid : config.validate = .ok ()) (h : p.all hasFittingOperands = true) :
    ∃ out, lowerProgram config p = .ok out ∧ out.program.all hasFittingOperands = true :=
  ⟨_, Lowering.lowerProgram_eq hvalid p,
    SyntaxRule.holds_lowerWith (fun stage _ => SyntaxRule.suits_fittingOperands stage) h⟩

/-- `for (x of a ? b : c) g(x);
do { let [y = (d, e)] = o?.p; } while (k = m);
switch (n) { case r || s: case v, w: h(); }` -/
def looseOperands : Program :=
  let x (s : String) : Expr := Build.name s
  let callStmt (f : String) (args : List Expr) : Stmt := Build.exprStmt (Build.call (x f) args)
  .scriptProgram .none none (.ofList [
    .forOfStmt .none false (.headPat (.binder (.ofName "x"))) (.cond .none (x "a") (x "b") (x "c"))
      (callStmt "g" [x "x"]),
    .doWhileStmt .none (.assign .none .assign (.binder (.ofName "k")) (x "m"))
      (Build.blockStmt .none [declarePat .none .let (.arrayPat .none false (.ofList [
        .some (.defaultPat .none (.binder (.ofName "y"))
          (.paren .none (.seq .none (.ofList [x "d", x "e"]))))]))
        (some (.optMember .none true .none (x "o") (.fixedKey .none (.name "p"))))]),
    .switchStmt .none (x "n") (.ofList [
      .clause .none (.some (.binary .none .or (x "r") (x "s"))) .nil,
      .clause .none (.some (.seq .none (.ofList [x "v", x "w"]))) (.ofList [callStmt "h" []])])])

theorem lowerProgram_keeps_fitting_operands_looseOperands :
    Config.default.validate = .ok () ∧ looseOperands.all hasFittingOperands = true ∧
      ∃ out, lowerProgram .default looseOperands = .ok out ∧
        out.program.all hasFittingOperands = true := by
  have hvalid : Config.default.validate = .ok () := by decide +kernel
  have hfits : looseOperands.all hasFittingOperands = true := by decide +kernel
  exact ⟨hvalid, hfits, lowerProgram_keeps_fitting_operands hvalid hfits⟩

end PlainJs

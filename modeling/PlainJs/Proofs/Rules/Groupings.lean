import PlainJs.Proofs.Rules.Operands

namespace PlainJs

open Node Build

/-- The operators and parentheses of an expression with what stands between them. -/
inductive Grouping
  | operand (e : Expr)
  | paren (g : Grouping)
  | unary (op : UnaryOp) (g : Grouping)
  | binary (op : BinaryOp) (l r : Grouping)
  | cond (t a b : Grouping)

/-- What a grouping is written with. -/
inductive Terminal
  | operand (e : Expr)
  | opening
  | closing
  | unary (op : UnaryOp)
  | binary (op : BinaryOp)
  | question
  | colon

namespace Grouping

def terminals : Grouping → List Terminal
  | operand e => [.operand e]
  | paren g => .opening :: (g.terminals ++ [.closing])
  | unary op g => .unary op :: g.terminals
  | binary op l r => l.terminals ++ .binary op :: r.terminals
  | cond t a b => t.terminals ++ .question :: (a.terminals ++ .colon :: b.terminals)

/-- What is grouped with what, however it is said. -/
def bare : Grouping → Grouping
  | operand e => operand e
  | paren g => g.bare
  | unary op g => unary op g.bare
  | binary op l r => binary op l.bare r.bare
  | cond t a b => cond t.bare a.bare b.bare

end Grouping

namespace Node

/-- Whether an expression stands between operators as a whole. -/
def isOperand : Expr → Bool
  | .paren .. | .unary .. | .binary .. | .cond .. => false
  | _ => true

def grouping : Expr → Grouping
  | .paren _ e => .paren e.grouping
  | .unary _ op e => .unary op e.grouping
  | .binary _ op l r => .binary op l.grouping r.grouping
  | .cond _ t a b => .cond t.grouping a.grouping b.grouping
  | e => .operand e

end Node

/-- The nonterminals of the chain, and the two kinds of short-circuit expressions. -/
inductive Nonterminal
  | tier (t : Tier)
  | logicalOr
  | coalesce

namespace Nonterminal

/-- Whether a nonterminal derives another one by productions without operators. -/
def includes : Nonterminal → Nonterminal → Bool
  | tier t, tier t' => t ≤ t'
  | tier t, logicalOr | tier t, coalesce => t ≤ .shortCircuit
  | logicalOr, tier t => .logicalAnd ≤ t
  | logicalOr, logicalOr | coalesce, coalesce => true
  | logicalOr, coalesce | coalesce, tier _ | coalesce, logicalOr => false

end Nonterminal

namespace BinaryOp

/-- What an operator makes with its operands. -/
def whole : BinaryOp → Nonterminal
  | or => .logicalOr
  | nullish => .coalesce
  | op => .tier op.tier

/-- What may stand to the left of an operator. `**` takes no unary operator there, and `??` does not
mix with `||` and `&&`. -/
def leftSides : BinaryOp → List Nonterminal
  | or => [.logicalOr]
  | nullish => [.coalesce, .tier .bitwiseOr]
  | exp => [.tier .update]
  | op => [.tier op.tier]

/-- What may stand to the right of an operator. Only `**` takes there what it makes itself. -/
def rightSide : BinaryOp → Nonterminal
  | or => .tier .logicalAnd
  | nullish | and => .tier .bitwiseOr
  | bitOr => .tier .bitwiseXor
  | bitXor => .tier .bitwiseAnd
  | bitAnd => .tier .equality
  | eqEq | notEq | eqEqEq | notEqEq => .tier .relational
  | lt | ltEq | gt | gtEq | isIn | instanceOf => .tier .shift
  | shiftLeft | shiftRight | shiftRightZero => .tier .additive
  | add | sub => .tier .multiplicative
  | mul | div | mod | exp => .tier .exponentiation

end BinaryOp

/-- The productions with operators, and `unit` for all those without. -/
inductive Derives : Nonterminal → List Terminal → Grouping → Prop
  | operand {e : Expr} : e.isOperand = true → Derives (.tier e.tier) [.operand e] (.operand e)
  | paren {ts : List Terminal} {g : Grouping} : Derives (.tier .expression) ts g →
      Derives (.tier .call) (.opening :: (ts ++ [.closing])) (.paren g)
  | unary {op : UnaryOp} {ts : List Terminal} {g : Grouping} : Derives (.tier .unary) ts g →
      Derives (.tier .unary) (.unary op :: ts) (.unary op g)
  | binary {op : BinaryOp} {n : Nonterminal} {ts us : List Terminal} {l r : Grouping} :
      n ∈ op.leftSides → Derives n ts l → Derives op.rightSide us r →
      Derives op.whole (ts ++ .binary op :: us) (.binary op l r)
  | cond {ts us vs : List Terminal} {g a b : Grouping} : Derives (.tier .shortCircuit) ts g →
      Derives (.tier .assignment) us a → Derives (.tier .assignment) vs b →
      Derives (.tier .conditional) (ts ++ .question :: (us ++ .colon :: vs)) (.cond g a b)
  | unit {n m : Nonterminal} {ts : List Terminal} {g : Grouping} : n.includes m = true →
      Derives m ts g → Derives n ts g

/-- The grammar derives this grouping, and no other one, from its terminals. -/
def Grouping.ReadsBack (g : Grouping) : Prop :=
  ∀ g', Derives (.tier .expression) g.terminals g' ↔ g' = g

namespace Nonterminal

def strength : Nonterminal → Nat
  | tier t => t.ctorIdx
  | logicalOr | coalesce => 3

/-- An operator that binds as tightly as this would take the end of what is derived for its left
operand. -/
def reach (n : Nonterminal) : Nat :=
  if n.strength ≤ condStrength then assignStrength
  else if n.strength < 13 then n.strength + 1
  else if n.strength ≤ unaryStrength then n.strength
  else memberStrength + 1

theorem strength_le_of_includes {n m : Nonterminal} (h : n.includes m = true) :
    n.strength ≤ m.strength := by
  cases n <;> cases m <;> simp [includes, strength] at h ⊢
  · exact h
  · exact h
  · exact h
  · exact Nat.le_of_succ_le h

theorem reach_le_of_includes {n m : Nonterminal} (h : n.includes m = true) : n.reach ≤ m.reach := by
  have hle := strength_le_of_includes h
  unfold reach
  grind [condStrength, assignStrength, unaryStrength, memberStrength]

end Nonterminal

namespace BinaryOp

/-- How tightly an operand to the right has to bind. -/
def rightStrength (op : BinaryOp) : Nat := if op = .exp then op.precedence else op.precedence + 1

theorem strength_whole (op : BinaryOp) : op.whole.strength = op.precedence := by cases op <;> rfl

theorem reach_whole (op : BinaryOp) : op.whole.reach = op.rightStrength := by cases op <;> rfl

theorem rightStrength_le (op : BinaryOp) :
    op.rightStrength ≤ op.rightSide.strength ∧ op.rightStrength ≤ op.rightSide.reach := by
  cases op <;> decide

theorem precedence_of_mem_leftSides {op : BinaryOp} {n : Nonterminal} (h : n ∈ op.leftSides) :
    op.precedence ≤ n.strength ∧ op.precedence < n.reach := by
  revert n
  cases op <;> simp [leftSides] <;> decide

end BinaryOp

/-- What follows does not take the end of something with this reach for its left operand. -/
def Stops (t : Nat) : List Terminal → Prop
  | .binary op :: _ => op.precedence < t
  | .question :: _ => condStrength < t
  | _ => True

theorem Stops.mono {t t' : Nat} {ts : List Terminal} (h : Stops t ts) (ht : t ≤ t') :
    Stops t' ts := by
  unfold Stops at h ⊢
  split at h
  · exact Nat.lt_of_lt_of_le h ht
  · exact Nat.lt_of_lt_of_le h ht
  · trivial

/-- An operand is to be read, or what has been read may be the left operand of more. -/
inductive Phase
  | start (t : Nat)
  | climb (t : Nat) (g : Grouping)

/-- Reads what operators that bind at least as tightly as the phase says make, and leaves the rest.
-/
inductive Reads : Phase → List Terminal → Grouping → List Terminal → Prop
  | operand {t : Nat} {e : Expr} {ts us : List Terminal} {g : Grouping} :
      Reads (.climb t (.operand e)) ts g us → Reads (.start t) (.operand e :: ts) g us
  | paren {t : Nat} {ts us vs : List Terminal} {a g : Grouping} :
      Reads (.start 0) ts a (.closing :: us) → Reads (.climb t (.paren a)) us g vs →
      Reads (.start t) (.opening :: ts) g vs
  | unary {t : Nat} {op : UnaryOp} {ts us vs : List Terminal} {a g : Grouping} :
      Reads (.start unaryStrength) ts a us → Reads (.climb t (.unary op a)) us g vs →
      Reads (.start t) (.unary op :: ts) g vs
  | binary {t : Nat} {op : BinaryOp} {ts us vs : List Terminal} {l a g : Grouping} :
      t ≤ op.precedence → Reads (.start op.rightStrength) ts a us →
      Reads (.climb t (.binary op l a)) us g vs → Reads (.climb t l) (.binary op :: ts) g vs
  | cond {t : Nat} {ts us vs ws : List Terminal} {l a b g : Grouping} :
      t ≤ condStrength → Reads (.start assignStrength) ts a (.colon :: us) →
      Reads (.start assignStrength) us b vs → Reads (.climb t (.cond l a b)) vs g ws →
      Reads (.climb t l) (.question :: ts) g ws
  | stop {t : Nat} {ts : List Terminal} {g : Grouping} : Stops t ts → Reads (.climb t g) ts g ts

theorem Reads.unique {p : Phase} {ts us us' : List Terminal} {g g' : Grouping}
    (h : Reads p ts g us) (h' : Reads p ts g' us') : g = g' ∧ us = us' := by
  induction h generalizing g' us' with
  | operand _ ih =>
    cases h' with
    | operand h' => exact ih h'
  | paren _ _ ih₁ ih₂ =>
    cases h' with
    | paren h₁ h₂ =>
      obtain ⟨rfl, heq⟩ := ih₁ h₁
      cases heq
      exact ih₂ h₂
  | unary _ _ ih₁ ih₂ =>
    cases h' with
    | unary h₁ h₂ =>
      obtain ⟨rfl, rfl⟩ := ih₁ h₁
      exact ih₂ h₂
  | binary hle _ _ ih₁ ih₂ =>
    cases h' with
    | binary _ h₁ h₂ =>
      obtain ⟨rfl, rfl⟩ := ih₁ h₁
      exact ih₂ h₂
    | stop hstops => exact absurd hstops (Nat.not_lt.mpr hle)
  | cond hle _ _ _ ih₁ ih₂ ih₃ =>
    cases h' with
    | cond _ h₁ h₂ h₃ =>
      obtain ⟨rfl, heq⟩ := ih₁ h₁
      cases heq
      obtain ⟨rfl, rfl⟩ := ih₂ h₂
      exact ih₃ h₃
    | stop hstops => exact absurd hstops (Nat.not_lt.mpr hle)
  | stop hstops =>
    cases h' with
    | binary hle _ _ => exact absurd hstops (Nat.not_lt.mpr hle)
    | cond hle _ _ _ => exact absurd hstops (Nat.not_lt.mpr hle)
    | stop _ => exact ⟨rfl, rfl⟩

namespace Derives

/-- What is derived is read before whatever may follow it, and goes on as its left operand. -/
theorem reads {n : Nonterminal} {ts : List Terminal} {g : Grouping} (h : Derives n ts g) {t : Nat}
    {rest us : List Terminal} {g' : Grouping} (ht : t ≤ n.strength) (hstops : Stops n.reach rest)
    (hrest : Reads (.climb t g) rest g' us) : Reads (.start t) (ts ++ rest) g' us := by
  -- the rest is general because a left operand is followed by its operator
  induction h generalizing t rest us g' with
  | operand _ => exact .operand hrest
  | @paren ts g _ ih =>
    have hinner : Reads (.start 0) (ts ++ (.closing :: rest)) g (.closing :: rest) :=
      ih (Nat.zero_le _) trivial (.stop trivial)
    rw [List.cons_append, List.append_assoc]
    exact .paren hinner hrest
  | unary _ ih => exact .unary (ih (Nat.le_refl _) hstops (.stop hstops)) hrest
  | @binary op n ts us' l r hn _ _ ihl ihr =>
    rw [op.strength_whole] at ht
    rw [op.reach_whole] at hstops
    obtain ⟨hle, hlt⟩ := op.precedence_of_mem_leftSides hn
    obtain ⟨hright, hreach⟩ := op.rightStrength_le
    have hr : Reads (.start op.rightStrength) (us' ++ rest) r rest :=
      ihr hright (hstops.mono hreach) (.stop hstops)
    rw [List.append_assoc]
    exact ihl (ht.trans hle) hlt (.binary ht hr hrest)
  | @cond ts us' vs g a b _ _ _ ihg iha ihb =>
    have hb : Reads (.start assignStrength) (vs ++ rest) b rest :=
      ihb (Nat.le_refl _) hstops (.stop hstops)
    have ha : Reads (.start assignStrength) (us' ++ .colon :: (vs ++ rest)) a
        (.colon :: (vs ++ rest)) := iha (Nat.le_refl _) trivial (.stop trivial)
    have hcond := Reads.cond (l := g) ht ha hb hrest
    have hquestion : Stops (Nonterminal.tier .shortCircuit).reach
        (.question :: (us' ++ .colon :: (vs ++ rest))) :=
      show condStrength < (Nonterminal.tier .shortCircuit).reach by decide
    simpa using ihg (ht.trans (by decide)) hquestion hcond
  | unit hincludes _ ih =>
    exact ih (ht.trans (Nonterminal.strength_le_of_includes hincludes))
      (hstops.mono (Nonterminal.reach_le_of_includes hincludes)) hrest

/-- The grammar of operators is unambiguous. -/
theorem unique {n n' : Nonterminal} {ts : List Terminal} {g g' : Grouping} (h : Derives n ts g)
    (h' : Derives n' ts g') : g = g' :=
  have hread : Reads (.start 0) (ts ++ []) g [] :=
    h.reads (Nat.zero_le _) trivial (.stop trivial)
  (hread.unique (h'.reads (Nat.zero_le _) trivial (.stop trivial))).1

end Derives

namespace Nonterminal

theorem includes_refl (n : Nonterminal) : n.includes n = true := by
  cases n with
  | tier t => exact decide_eq_true (Nat.le_refl t.ctorIdx)
  | logicalOr | coalesce => rfl

/-- A nonterminal of the chain derives whatever binds as tightly. -/
theorem includes_tier {t : Tier} {n : Nonterminal} (h : t.ctorIdx ≤ n.strength) :
    (tier t).includes n = true := by
  cases n <;> exact decide_eq_true h

theorem includes_trans {n m k : Nonterminal} (h : n.includes m = true) (h' : m.includes k = true) :
    n.includes k = true := by
  have hle := strength_le_of_includes h
  have hle' := strength_le_of_includes h'
  cases n with
  | tier t => exact includes_tier (hle.trans hle')
  | logicalOr =>
    cases m with
    | tier t =>
      have ht : Tier.logicalAnd.ctorIdx ≤ t.ctorIdx := of_decide_eq_true h
      cases k with
      | tier t' => exact decide_eq_true (ht.trans hle')
      | logicalOr | coalesce => exact absurd (ht.trans hle') (by decide)
    | logicalOr => exact h'
    | coalesce => cases h
  | coalesce =>
    cases m with
    | tier | logicalOr => cases h
    | coalesce => exact h'

end Nonterminal

namespace Grouping

/-- What derives a grouping by the production for its outermost operator. -/
def nonterminal : Grouping → Nonterminal
  | operand e => .tier e.tier
  | paren _ => .tier .call
  | unary .. => .tier .unary
  | binary op _ _ => op.whole
  | cond .. => .tier .conditional

/-- Every operator has operands that may stand on their side of it. -/
def isDerivable : Grouping → Bool
  | operand e => e.isOperand
  | paren g => g.isDerivable
  | unary _ g => (Nonterminal.tier .unary).includes g.nonterminal && g.isDerivable
  | binary op l r =>
    op.leftSides.any (·.includes l.nonterminal) && op.rightSide.includes r.nonterminal
      && (l.isDerivable && r.isDerivable)
  | cond t a b =>
    (Nonterminal.tier .shortCircuit).includes t.nonterminal
      && (Nonterminal.tier .assignment).includes a.nonterminal
      && (Nonterminal.tier .assignment).includes b.nonterminal
      && (t.isDerivable && a.isDerivable && b.isDerivable)

theorem derives_of_isDerivable {g : Grouping} (h : g.isDerivable = true) :
    Derives g.nonterminal g.terminals g := by
  induction g with
  | operand e => exact .operand h
  | paren g ih => exact .paren (.unit (Nonterminal.includes_tier (Nat.zero_le _)) (ih h))
  | unary op g ih =>
    simp only [isDerivable, Bool.and_eq_true] at h
    exact .unary (.unit h.1 (ih h.2))
  | binary op l r ihl ihr =>
    simp only [isDerivable, Bool.and_eq_true, List.any_eq_true] at h
    obtain ⟨⟨⟨n, hn, hleft⟩, hright⟩, hl, hr⟩ := h
    exact .binary hn (.unit hleft (ihl hl)) (.unit hright (ihr hr))
  | cond t a b iht iha ihb =>
    simp only [isDerivable, Bool.and_eq_true] at h
    obtain ⟨⟨⟨htest, hyes⟩, hno⟩, ⟨ht, ha⟩, hb⟩ := h
    exact .cond (.unit htest (iht ht)) (.unit hyes (iha ha)) (.unit hno (ihb hb))

end Grouping

theorem Derives.isDerivable {n : Nonterminal} {ts : List Terminal} {g : Grouping}
    (h : Derives n ts g) : n.includes g.nonterminal = true ∧ g.isDerivable = true := by
  induction h with
  | operand he => exact ⟨Nonterminal.includes_refl _, he⟩
  | paren _ ih => exact ⟨Nonterminal.includes_refl _, ih.2⟩
  | unary _ ih =>
    exact ⟨Nonterminal.includes_refl _, Bool.and_eq_true_iff.mpr ih⟩
  | @binary op n ts us l r hn _ _ ihl ihr =>
    have hleft : op.leftSides.any (·.includes l.nonterminal) = true :=
      List.any_eq_true.mpr ⟨n, hn, ihl.1⟩
    refine ⟨Nonterminal.includes_refl _, ?_⟩
    simp only [Grouping.isDerivable, hleft, ihl.2, ihr, Bool.and_self]
  | cond _ _ _ iht iha ihb =>
    refine ⟨Nonterminal.includes_refl _, ?_⟩
    simp only [Grouping.isDerivable, iht, iha, ihb, Bool.and_self]
  | unit hincludes _ ih => exact ⟨Nonterminal.includes_trans hincludes ih.1, ih.2⟩

theorem Grouping.readsBack_iff (g : Grouping) : g.ReadsBack ↔ g.isDerivable = true := by
  constructor
  · intro h
    exact ((h g).mpr rfl).isDerivable.2
  · intro h g'
    have hown : Derives (.tier .expression) g.terminals g :=
      .unit (Nonterminal.includes_tier (Nat.zero_le _)) (g.derives_of_isDerivable h)
    constructor
    · intro hg'
      exact hg'.unique hown
    · rintro rfl
      exact hown

theorem Tier.le_call (t : Tier) : t ≤ .call := by cases t <;> decide

/-- Whether a left operand stands without parentheses although its operator does not take it. -/
def BinaryOp.clashesLeft : BinaryOp → Expr → Bool
  | .exp, l => l.isBinary .exp || l.tier == .unary
  | .nullish, l => l.isBinary .or || l.isBinary .and
  | .or, l => l.isBinary .nullish
  | _, _ => false

/-- Whether a right operand stands without parentheses although its operator does not take it. -/
def BinaryOp.clashesRight : BinaryOp → Expr → Bool
  | .nullish, r => r.isBinary .and
  | _, _ => false

namespace Node

theorem strength_grouping (e : Expr) : e.grouping.nonterminal.strength = e.strength := by
  fun_cases grouping e with
  | case1 | case2 | case4 => rfl
  | case3 span op l r => exact op.strength_whole
  | case5 => exact e.strength_eq.symm

theorem grouping_atLeast (least : Nat) (e : Expr) :
    (atLeast least e).grouping = if e.strength < least then .paren e.grouping else e.grouping := by
  unfold atLeast
  split
  · rw [grouping]
  · rfl

theorem includes_atLeast (t : Tier) (e : Expr) :
    (Nonterminal.tier t).includes (atLeast t.ctorIdx e).grouping.nonterminal = true := by
  rw [grouping_atLeast]
  split
  · exact Nonterminal.includes_tier t.le_call
  · rename_i h
    refine Nonterminal.includes_tier ?_
    rw [strength_grouping]
    exact Nat.le_of_not_lt h

theorem isDerivable_atLeast (least : Nat) (e : Expr) :
    (atLeast least e).grouping.isDerivable = e.grouping.isDerivable := by
  rw [grouping_atLeast]
  split <;> rfl

theorem bare_atLeast (least : Nat) (e : Expr) :
    (atLeast least e).grouping.bare = e.grouping.bare := by
  rw [grouping_atLeast]
  split <;> rfl

/-- Between the conditional operator and the unary ones there are binary operators only. -/
theorem isBinary_or_tier (e : Expr) :
    (∃ span op l r, e = .binary span op l r) ∨
      e.grouping.nonterminal = .tier e.tier ∧ (∀ op, e.isBinary op = false) ∧
        (e.tier < .shortCircuit ∨ .exponentiation < e.tier) := by
  fun_cases grouping e with
  | case1 | case2 | case4 => exact .inr ⟨rfl, fun _ => rfl, of_decide_eq_true rfl⟩
  | case3 span op l r => exact .inl ⟨span, op, l, r, rfl⟩
  | case5 _ _ _ hbinary _ =>
    refine .inr ⟨rfl, ?_⟩
    cases e with
    | binary => exact (hbinary _ _ _ _ rfl).elim
    | newCall span ctxt f args => cases args <;> exact ⟨fun _ => rfl, of_decide_eq_true rfl⟩
    | _ => exact ⟨fun _ => rfl, of_decide_eq_true rfl⟩

end Node

namespace BinaryOp

/-- Parentheses are missing on the left exactly where operands clash. -/
theorem leftSides_any_atLeast (op : BinaryOp) (l : Expr) :
    op.leftSides.any (·.includes (atLeast op.precedence l).grouping.nonterminal)
      = !op.clashesLeft l := by
  cases op with
  | or | nullish | exp =>
    obtain ⟨span, op', a, b, rfl⟩ | ⟨hown, hbinary, htier⟩ := l.isBinary_or_tier
    · rw [grouping_atLeast, grouping]
      cases op' <;> rfl
    · rw [grouping_atLeast, apply_ite Grouping.nonterminal, hown, strength_eq]
      simp only [clashesLeft, hbinary]
      generalize l.tier = t at htier
      cases t <;> first | rfl | exact absurd htier (by decide)
  | _ => exact (Bool.or_false _).trans (includes_atLeast _ l)

theorem rightSide_includes_atLeast (op : BinaryOp) (r : Expr) :
    op.rightSide.includes (atLeast (op.precedence + 1) r).grouping.nonterminal
      = !op.clashesRight r := by
  cases op with
  | nullish =>
    obtain ⟨span, op', a, b, rfl⟩ | ⟨hown, hbinary, htier⟩ := r.isBinary_or_tier
    · rw [grouping_atLeast, grouping]
      cases op' <;> rfl
    · rw [grouping_atLeast, apply_ite Grouping.nonterminal, hown, strength_eq]
      simp only [clashesRight, hbinary]
      generalize r.tier = t at htier
      cases t <;> first | rfl | exact absurd htier (by decide)
  -- parenthesised more often than it has to be
  | exp =>
    exact Nonterminal.includes_trans (m := .tier .unary) rfl (includes_atLeast .unary r)
  | _ => exact includes_atLeast _ r

end BinaryOp

namespace Grouping

/-- Builds an expression from operands by the builders for operators. -/
def build : Grouping → Expr
  | operand e => e
  | paren g => .paren .none g.build
  | unary op g => Build.unary op g.build
  | binary op l r => Build.binary op l.build r.build
  | cond t a b => Build.cond t.build a.build b.build

def operands : Grouping → List Expr
  | operand e => [e]
  | paren g | unary _ g => g.operands
  | binary _ l r => l.operands ++ r.operands
  | cond t a b => t.operands ++ a.operands ++ b.operands

/-- With the operators of the operands. -/
def expand : Grouping → Grouping
  | operand e => e.grouping
  | paren g => paren g.expand
  | unary op g => unary op g.expand
  | binary op l r => binary op l.expand r.expand
  | cond t a b => cond t.expand a.expand b.expand

/-- Whether a binary operator anywhere clashes with one of its operands. -/
def clashes : Grouping → Bool
  | operand _ => false
  | paren g | unary _ g => g.clashes
  | binary op l r =>
    op.clashesLeft l.build || op.clashesRight r.build || (l.clashes || r.clashes)
  | cond t a b => t.clashes || a.clashes || b.clashes

theorem bare_build (g : Grouping) : g.build.grouping.bare = g.expand.bare := by
  induction g with
  | operand e => rfl
  | paren g ih =>
    rw [build, grouping]
    exact ih
  | unary op g ih =>
    rw [build, Build.unary, grouping]
    simp only [expand, bare, bare_atLeast, ih]
  | binary op l r ihl ihr =>
    rw [build, Build.binary, grouping]
    simp only [expand, bare, bare_atLeast, ihl, ihr]
  | cond t a b iht iha ihb =>
    rw [build, Build.cond, grouping]
    simp only [expand, bare, bare_atLeast, iht, iha, ihb]

theorem isDerivable_build {g : Grouping}
    (h : ∀ e ∈ g.operands, e.grouping.isDerivable = true) :
    g.build.grouping.isDerivable = !g.clashes := by
  induction g with
  | operand e => exact h e (List.mem_singleton.mpr rfl)
  | paren g ih =>
    rw [build, grouping]
    exact ih h
  | unary op g ih =>
    rw [build, Build.unary, grouping]
    have hfits : (Nonterminal.tier .unary).includes
        (atLeast unaryStrength g.build).grouping.nonterminal = true := includes_atLeast .unary _
    simp only [isDerivable, isDerivable_atLeast, ih h, hfits, clashes, Bool.true_and]
  | binary op l r ihl ihr =>
    simp only [operands, List.mem_append] at h
    have hl := ihl fun e he => h e (.inl he)
    have hr := ihr fun e he => h e (.inr he)
    rw [build, Build.binary, grouping]
    simp only [isDerivable, isDerivable_atLeast, op.leftSides_any_atLeast,
      op.rightSide_includes_atLeast, hl, hr, clashes, Bool.not_or]
  | cond t a b iht iha ihb =>
    simp only [operands, List.mem_append] at h
    have ht := iht fun e he => h e (.inl (.inl he))
    have ha := iha fun e he => h e (.inl (.inr he))
    have hb := ihb fun e he => h e (.inr he)
    have htest : (Nonterminal.tier .shortCircuit).includes
        (atLeast (condStrength + 1) t.build).grouping.nonterminal = true :=
      includes_atLeast .shortCircuit _
    have hbranch (e : Expr) : (Nonterminal.tier .assignment).includes
        (atLeast assignStrength e).grouping.nonterminal = true := includes_atLeast .assignment _
    rw [build, Build.cond, grouping]
    simp only [isDerivable, isDerivable_atLeast, htest, hbranch, ht, ha, hb, clashes, Bool.not_or,
      Bool.true_and]

/-- However operands that read back are nested under operators, the builders keep what is grouped
with what. The expression reads back exactly if no operator clashes with its operands: `**` with a
power or a unary operator on its left, `??` with `||` on its left or `&&` on either side, and `||`
with `??` on its left. -/
theorem build_readsBack_iff {g : Grouping} (h : ∀ e ∈ g.operands, e.grouping.ReadsBack) :
    g.build.grouping.bare = g.expand.bare ∧
      (g.build.grouping.ReadsBack ↔ g.clashes = false) := by
  have hoperands : ∀ e ∈ g.operands, e.grouping.isDerivable = true :=
    fun e he => (readsBack_iff _).mp (h e he)
  refine ⟨g.bare_build, ?_⟩
  rw [readsBack_iff, isDerivable_build hoperands, Bool.not_eq_true']

theorem readsBack_of_isOperand {e : Expr} (h : e.isOperand = true) : e.grouping.ReadsBack := by
  rw [readsBack_iff]
  fun_cases grouping e with
  | case1 | case2 | case3 | case4 => cases h
  | case5 => exact h

/-- `(p ?? q) || r` -/
def givenFactor : Expr :=
  .binary .none .or (.paren .none (.binary .none .nullish (name "p") (name "q"))) (name "r")

/-- `-(a ? b : c) * ((p ?? q) || r) < s - (s - a)` -/
def comparison : Grouping :=
  let x (s : String) : Grouping := .operand (name s)
  .binary .lt
    (.binary .mul (.unary .minus (.cond (x "a") (x "b") (x "c"))) (.operand givenFactor))
    (.binary .sub (x "s") (.binary .sub (x "s") (x "a")))

theorem build_readsBack_iff_comparison :
    (∀ e ∈ comparison.operands, e.grouping.ReadsBack) ∧ comparison.clashes = false ∧
      comparison.build.grouping.bare = comparison.expand.bare ∧
      comparison.build.grouping.ReadsBack := by
  have hname (s : String) : (name s).grouping.ReadsBack := readsBack_of_isOperand rfl
  have hfactor : givenFactor.grouping.ReadsBack := by
    rw [readsBack_iff]
    simp only [givenFactor, name, grouping]
    rfl
  have hoperands : ∀ e ∈ comparison.operands, e.grouping.ReadsBack := by
    simp [comparison, operands, hname, hfactor]
  obtain ⟨hbare, hiff⟩ := build_readsBack_iff hoperands
  exact ⟨hoperands, rfl, hbare, hiff.mpr rfl⟩

/-- `a ** b ** c`, built from the power of `a` and `b`. -/
def powerOfPower : Grouping :=
  .binary .exp (.binary .exp (.operand (name "a")) (.operand (name "b"))) (.operand (name "c"))

/-- `a ** b ** c`, where `b` is raised to `c` first. -/
def powerToPower : Grouping :=
  .binary .exp (.operand (name "a")) (.binary .exp (.operand (name "b")) (.operand (name "c")))

/-- `-a ** b`, `a || b ?? c`, `a && b ?? c`, `a ?? b && c` and `a ?? b || c`. -/
def mixtures : List Grouping :=
  let a : Grouping := .operand (name "a")
  let b : Grouping := .operand (name "b")
  let c : Grouping := .operand (name "c")
  [.binary .exp (.unary .minus a) b, .binary .nullish (.binary .or a b) c,
    .binary .nullish (.binary .and a b) c, .binary .nullish a (.binary .and b c),
    .binary .or (.binary .nullish a b) c]

/-- The power of a power and mixtures of operators are built without the parentheses they need, and
the first reads as the other power of a power. -/
theorem build_readsBack_fails :
    (∀ g ∈ powerOfPower :: mixtures,
      (∀ e ∈ g.operands, e.grouping.ReadsBack) ∧ ¬g.build.grouping.ReadsBack) ∧
    Derives (.tier .expression) powerOfPower.build.grouping.terminals powerToPower := by
  have hoperands : ∀ g ∈ powerOfPower :: mixtures, ∀ e ∈ g.operands, e.isOperand = true := by
    decide
  have hclashes : ∀ g ∈ powerOfPower :: mixtures, g.clashes = true := by decide
  refine ⟨fun g hg => ?_, ?_⟩
  · have hread : ∀ e ∈ g.operands, e.grouping.ReadsBack :=
      fun e he => readsBack_of_isOperand (hoperands g hg e he)
    refine ⟨hread, ?_⟩
    rw [readsBack_iff, isDerivable_build fun e he => (readsBack_iff _).mp (hread e he),
      hclashes g hg]
    exact Bool.false_ne_true
  · have hbuild : powerOfPower.build = .binary .none .exp
        (.binary .none .exp (name "a") (name "b")) (name "c") := rfl
    rw [hbuild]
    simp only [name, grouping]
    have hother : powerToPower.isDerivable = true := rfl
    exact .unit rfl (derives_of_isDerivable hother)

end Grouping

end PlainJs

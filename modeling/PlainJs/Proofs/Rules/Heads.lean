import PlainJs.Proofs.Outline

namespace PlainJs

namespace Node

/-- A part of which only the presence is left. -/
def faint : {c : Cat} → Node c → Node c
  | .opt c, k => if k.isPresent then .some (blank c) else .none
  | c, _ => blank c

/-- An expression without its parts. -/
def head (e : Expr) : Expr := e.mapParts faint

/-- The expressions that stand outermost in a tree, without their parts. -/
def heads : {c : Cat} → Node c → List Expr
  | .expr, e => [e.head]
  | _, .cons a l => a.heads ++ l.heads
  | _, .some a => a.heads
  | _, .exprPat e => [e.head]
  | _, .computedKey _ e => [e.head]
  | _, .plainArg e => [e.head]
  | _, .spreadArg _ e => [e.head]
  | _, .exprCallee e => [e.head]
  | _, _ => []

/-- Whether a tree is a list of clauses with at least one clause. -/
def hasClauses : {c : Cat} → Node c → Bool
  | .list .clause, .cons _ _ => true
  | _, _ => false

/-- Trees with the same outermost expressions, apart from the parts of these. -/
structure SameHeads {c : Cat} (n n' : Node c) : Prop where
  heads : n.heads = n'.heads
  present : n.isPresent = n'.isPresent
  hasClauses : n.hasClauses = n'.hasClauses

variable {c : Cat} {n n' : Node c}

theorem SameHeads.refl (n : Node c) : SameHeads n n := ⟨rfl, rfl, rfl⟩

theorem heads_expr (e : Expr) : e.heads = [e.head] := by cases e <;> rfl

theorem faint_eq (h : n.isPresent = n'.isPresent) : n.faint = n'.faint := by
  cases c with
  | opt c => rw [faint, faint, h]
  | _ => rfl

theorem SameHeads.head_eq {e e' : Expr} (h : SameHeads e e') : e.head = e'.head := by
  have hheads := h.heads
  rw [heads_expr, heads_expr] at hheads
  exact List.head_eq_of_cons_eq hheads

/-- What only depends on the outermost form of an expression. -/
theorem SameHeads.congr {β : Type} {e e' : Expr} (h : SameHeads e e') (f : Expr → β)
    (hf : ∀ e, f e.head = f e) : f e = f e' := by
  rw [← hf e, ← hf e', h.head_eq]

theorem hasClauses_eq {P : ∀ {d : Cat}, Node d → Node d → Prop} (h : Parts P n n') :
    n.hasClauses = n'.hasClauses := by
  refine h.form_eq hasClauses fun m => ?_
  cases m with
  | @nil c => cases c <;> rfl
  | @cons c a l => cases c <;> rfl
  | _ => rfl

theorem heads_eq (hc : c ≠ .expr) (h : Parts SameHeads n n') : n.heads = n'.heads := by
  cases n
  all_goals
    first
      | exact absurd rfl hc
      | obtain rfl := h
        rfl
      | obtain ⟨a, ha, rfl⟩ := h
        first | rfl | exact ha.heads | exact congrArg (fun e => [e]) ha.head_eq
      | obtain ⟨a, ha, b, hb, rfl⟩ := h
        first | rfl | exact congrArg₂ (· ++ ·) ha.heads hb.heads
      | obtain ⟨a, ha, b, hb, c, hc, rfl⟩ := h
        rfl
      | obtain ⟨a, ha, b, hb, c, hc, d, hd, rfl⟩ := h
        rfl

theorem SameHeads.of_parts (h : Parts SameHeads n n') : SameHeads n n' := by
  refine ⟨?_, h.form_eq isPresent fun m => by cases m <;> rfl, hasClauses_eq h⟩
  by_cases hc : c = .expr
  · subst hc
    have hhead : n.head = n'.head := h.mapParts_eq fun hk => faint_eq hk.present
    rw [heads_expr, heads_expr, hhead]
  · exact heads_eq hc h

/-- No expression and no clause stands outermost in statements. -/
theorem heads_of_isMute (hc : c.isMute = true) (n : Node c) :
    n.heads = [] ∧ n.hasClauses = false := by
  induction n with
  | @cons c a l iha ihl =>
    refine ⟨by simp [heads, iha hc, ihl hc], ?_⟩
    cases c <;> first | rfl | cases hc
  | @nil c => exact ⟨rfl, by cases c <;> rfl⟩
  | _ => first | exact ⟨rfl, rfl⟩ | cases hc

theorem SameHeads.of_isMute (hc : c.isMute = true) (n n' : Node c) : SameHeads n n' := by
  obtain ⟨hheads, hclauses⟩ := heads_of_isMute hc n
  obtain ⟨hheads', hclauses'⟩ := heads_of_isMute hc n'
  exact ⟨hheads.trans hheads'.symm, (SameOutline.of_isMute hc n n').present,
    hclauses.trans hclauses'.symm⟩

end Node

end PlainJs

import PlainJs.Proofs.Temporaries
import PlainJs.Proofs.Visited

namespace PlainJs

/-- A scope that a node opens. -/
structure Opening where
  kind : ScopeKind
  span : Span
  bindAs : BindingKind
  params : List Ident

namespace Node

variable {c d : Cat} {n : Node c} {k : Node d}

def opening : {c : Cat} → Node c → Option Opening
  | _, .func span _ _ _ params _ _ | _, .arrow span _ _ _ params _
  | _, .ctorMember span _ _ params _ => .some ⟨.function, span, .param, params.boundIdents⟩
  | _, .setterProp span _ target _ => .some ⟨.function, span, .param, target.boundIdents⟩
  | _, .getterProp span _ _ | _, .staticBlock span _ => .some ⟨.function, span, .param, []⟩
  | _, .handler span target _ => .some ⟨.catch, span, .catchParam, target.boundIdents⟩
  | _, .block span _ _ | _, .forStmt span _ _ _ _ | _, .forInStmt span _ _ _
  | _, .forOfStmt span _ _ _ _ => .some ⟨.block, span, .param, []⟩
  | _, _ => .none

/-- The parts of a node that lie in the scope that it opens. -/
def inside : {c : Cat} → Node c → List (Sigma Node)
  | _, .func _ _ _ _ params _ body | _, .ctorMember _ _ _ params body =>
    [⟨_, params⟩, ⟨_, body.bodyStmts⟩]
  | _, .arrow _ _ _ _ params (.blockBody body) => [⟨_, params⟩, ⟨_, body.blockStmts⟩]
  | _, .arrow _ _ _ _ params (.exprBody value) => [⟨_, params⟩, ⟨_, value⟩]
  | _, .setterProp _ _ target body => [⟨_, target⟩, ⟨_, body.bodyStmts⟩]
  | _, .getterProp _ _ body => [⟨_, body.bodyStmts⟩]
  | _, .staticBlock _ body => [⟨_, body.blockStmts⟩]
  | _, .handler _ target body => [⟨_, target⟩, ⟨_, body.blockStmts⟩]
  | _, .block _ _ stmts => [⟨_, stmts⟩]
  | _, .forStmt _ init test next body => [⟨_, init⟩, ⟨_, test⟩, ⟨_, next⟩, ⟨_, body⟩]
  | _, .forInStmt _ head subject body | _, .forOfStmt _ _ head subject body =>
    [⟨_, head⟩, ⟨_, subject⟩, ⟨_, body⟩]
  | _, _ => []

/-- The parts of a node that lie in the scope around it. -/
def outside : {c : Cat} → Node c → List (Sigma Node)
  | _, .func _ _ _ _ _ decorators _ => [⟨_, decorators⟩]
  | _, .ctorMember _ _ key _ _ | _, .setterProp _ key _ _ | _, .getterProp _ key _ => [⟨_, key⟩]
  | _, .arrow .. | _, .staticBlock .. | _, .handler .. | _, .block .. | _, .forStmt ..
  | _, .forInStmt .. | _, .forOfStmt .. => []
  | _, n => n.children

theorem outside_sublist (n : Node c) : n.outside.Sublist n.children := by
  cases n with
  | func => exact List.singleton_sublist.mpr (.tail _ (.head _))
  | ctorMember | setterProp | getterProp => exact List.singleton_sublist.mpr (.head _)
  | arrow | staticBlock | handler | block | forStmt | forInStmt | forOfStmt => exact List.nil_sublist _
  | _ => exact List.Sublist.refl _

theorem mem_children_of_mem_outside (hk : ⟨d, k⟩ ∈ n.outside) : ⟨d, k⟩ ∈ n.children :=
  n.outside_sublist.subset hk

/-- What lies in a scope is a part of the node or the inner side of one. -/
inductive Trims : Sigma Node → Sigma Node → Prop
  | same (k : Sigma Node) : Trims k k
  | block (b : Block) : Trims ⟨_, b.blockStmts⟩ ⟨_, b⟩
  | body (b : Node (.opt .block)) : Trims ⟨_, b.bodyStmts⟩ ⟨_, b⟩
  | arrowBlock (b : Block) : Trims ⟨_, b.blockStmts⟩ ⟨_, blockBody b⟩
  | arrowExpr (e : Expr) : Trims ⟨_, e⟩ ⟨_, exprBody e⟩

theorem inside_trims (n : Node c) : List.SublistForall₂ Trims n.inside n.children := by
  cases n with
  | func => exact .cons (.same _) (.cons_right (.cons (.body _) .nil))
  | ctorMember | setterProp => exact .cons_right (.cons (.same _) (.cons (.body _) .nil))
  | arrow _ _ _ _ params body =>
    cases body with
    | blockBody b => exact .cons (.same _) (.cons (.arrowBlock _) .nil)
    | exprBody e => exact .cons (.same _) (.cons (.arrowExpr _) .nil)
  | getterProp => exact .cons_right (.cons (.body _) .nil)
  | staticBlock => exact .cons (.block _) .nil
  | handler => exact .cons (.same _) (.cons (.block _) .nil)
  | block => exact .cons (.same _) .nil
  | forStmt =>
    exact .cons (.same _) (.cons (.same _) (.cons (.same _) (.cons (.same _) .nil)))
  | forInStmt | forOfStmt => exact .cons (.same _) (.cons (.same _) (.cons (.same _) .nil))
  | _ => exact .nil

theorem exists_trims {l l' : List (Sigma Node)} {k : Sigma Node} (h : List.SublistForall₂ Trims l l')
    (hk : k ∈ l) : ∃ k' ∈ l', Trims k k' := by
  induction h with
  | nil => cases hk
  | cons htrims _ ih =>
    rcases List.mem_cons.mp hk with rfl | hk
    · exact ⟨_, .head _, htrims⟩
    · exact (ih hk).imp fun _ h => ⟨.tail _ h.1, h.2⟩
  | cons_right _ ih => exact (ih hk).imp fun _ h => ⟨.tail _ h.1, h.2⟩

theorem Trims.sizeOf_le {a b : Sigma Node} (h : Trims a b) : sizeOf a.2 ≤ sizeOf b.2 := by
  cases h with
  | same => exact Nat.le_refl _
  | block b => exact Nat.le_of_lt b.sizeOf_blockStmts_lt
  | body b => exact b.sizeOf_bodyStmts_le
  | arrowBlock b =>
    have := b.sizeOf_blockStmts_lt
    simp only [blockBody.sizeOf_spec]
    omega
  | arrowExpr e =>
    simp only [exprBody.sizeOf_spec]
    omega

theorem sizeOf_lt_of_mem_inside (hk : ⟨d, k⟩ ∈ n.inside) : sizeOf k < sizeOf n := by
  obtain ⟨k', hk', htrims⟩ := exists_trims n.inside_trims hk
  exact Nat.lt_of_le_of_lt htrims.sizeOf_le (sizeOf_lt_of_mem_children hk')

/-- What holds of a tree whenever it holds of what lies in and around its scope holds of all trees. -/
@[elab_as_elim]
theorem scopeInduction {P : ∀ {c : Cat}, Node c → Prop}
    (step : ∀ {c : Cat} (n : Node c), (∀ {d : Cat} {k : Node d}, ⟨d, k⟩ ∈ n.outside → P k) →
      (∀ {d : Cat} {k : Node d}, ⟨d, k⟩ ∈ n.inside → P k) → P n)
    {c : Cat} (n : Node c) : P n :=
  step n (fun {_ k} _ => scopeInduction step k) fun {_ k} _ => scopeInduction step k
termination_by sizeOf n
decreasing_by
  · exact sizeOf_lt_of_mem_children (mem_children_of_mem_outside ‹_›)
  · exact sizeOf_lt_of_mem_inside ‹_›

/-- The parts of a node that are visited before a scope is opened, or without one. -/
def ahead : {c : Cat} → Node c → List (Sigma Node)
  | _, .func .. | _, .ctorMember .. => []
  | _, n => n.outside

theorem ahead_sublist (n : Node c) : n.ahead.Sublist n.outside := by
  cases n with
  | func | ctorMember => exact List.nil_sublist _
  | _ => exact List.Sublist.refl _

section

variable {o : Opening}

theorem inside_eq_nil (ho : n.opening = .none) : n.inside = [] := by
  cases n <;> first | rfl | cases ho

theorem ahead_eq_children (ho : n.opening = .none) : n.ahead = n.children := by
  cases n <;> first | rfl | cases ho

end

end Node

namespace ScopeTable

open Node

variable {stack : List Nat} {c : Cat} {n : Node c}

/-- Visits parts one after the other. -/
def visit (stack : List Nat) (l : List (Sigma Node)) : Collect Unit :=
  l.forM fun k => collect stack k.2

theorem visit_attach (stack : List Nat) (l : List (Sigma Node)) :
    (l.attach.forM fun ⟨⟨_, k⟩, _⟩ => collect stack k) = visit stack l := by
  have hmap : forM (l.attach.map Subtype.val) (fun k : Sigma Node => collect stack k.2) =
      forM l.attach fun k => collect stack k.1.2 := List.forM_map
  rw [List.attach_map_subtype_val] at hmap
  exact hmap.symm

/-- Notes what a node declares and the names that it holds itself. -/
def noteOwn (stack : List Nat) (n : Node c) : Collect Unit := do
  bindOwn stack n
  n.ownLabels.forM fun l => modify (·.addLabel l)
  noteNames (ownIdents n)

/-- A node without a scope of its own. -/
theorem collect_other (stack : List Nat) (ho : n.opening = .none) :
    collect stack n = (do noteOwn stack n; visit stack n.ahead) := by
  rw [ahead_eq_children ho]
  induction stack, c, n using collect.induct with
  | case1 stack span label body =>
    rw [collect]
    rfl
  | case2 stack span label | case3 stack span label =>
    rw [collect]
    cases label <;> rfl
  | case16 stack c n h₁ h₂ h₃ h₄ h₅ h₆ h₇ h₈ h₉ h₁₀ h₁₁ h₁₂ h₁₃ h₁₄ h₁₅ =>
    have hlabels : n.ownLabels = [] := by
      unfold ownLabels
      split
      · exact (h₁ _ _ _ rfl .rfl).elim
      · exact (h₂ _ _ rfl .rfl).elim
      · exact (h₃ _ _ rfl .rfl).elim
      · rfl
    rw [collect.eq_16 stack n h₁ h₂ h₃ h₄ h₅ h₆ h₇ h₈ h₉ h₁₀ h₁₁ h₁₂ h₁₃ h₁₄ h₁₅, visit_attach,
      noteOwn, hlabels]
    rfl
  | _ => cases ho

/-- A node with a scope of its own. -/
theorem collect_opening {o : Opening} (ho : n.opening = .some o) :
    collect stack n = (do
      visit stack n.ahead
      let stack ← enter stack o.kind o.span o.bindAs o.params
      visit stack n.inside) := by
  cases n with
  | arrow span ctxt isAsync isGenerator params body =>
    cases ho
    cases body <;> (rw [collect]; rfl)
  | func | ctorMember | setterProp | getterProp | staticBlock | handler | block | forStmt | forInStmt
  | forOfStmt =>
    cases ho
    rw [collect]
    rfl
  | _ => cases ho

end ScopeTable

end PlainJs

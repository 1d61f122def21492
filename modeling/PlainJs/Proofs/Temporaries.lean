import PlainJs.Proofs.Execution
import PlainJs.Scope.Analysis

namespace PlainJs

namespace Node

/-- The labels that a node holds itself. -/
def ownLabels : {c : Cat} → Node c → List String
  | _, .labeledStmt _ label _ => [label.name]
  | _, .breakStmt _ label | _, .continueStmt _ label => label.toList.map (·.name)
  | _, _ => []

/-- The names that a node holds itself: labels and identifiers. -/
def ownNames {c : Cat} (n : Node c) : List String :=
  n.ownLabels ++ (ScopeTable.ownIdents n).map (·.name)

/-- The names that occur in a tree. -/
def names {c : Cat} (n : Node c) : List String :=
  n.ownNames ++ n.children.attach.flatMap fun ⟨⟨_, k⟩, _⟩ => names k
termination_by sizeOf n
decreasing_by exact sizeOf_lt_of_mem_children ‹_›

theorem mem_names {c : Cat} {n : Node c} {x : String} :
    x ∈ n.names ↔ x ∈ n.ownNames ∨ ∃ d k, ⟨d, k⟩ ∈ n.children ∧ x ∈ names k := by
  rw [names]
  simp

/-- None of the names occurs in the tree. -/
def Clear (temps : List String) {c : Cat} (n : Node c) : Prop := ∀ x ∈ n.names, x ∉ temps

theorem Clear.part {temps : List String} {c d : Cat} {n : Node c} {k : Node d}
    (h : n.Clear temps) (hk : ⟨d, k⟩ ∈ n.children) : k.Clear temps :=
  fun x hx => h x (mem_names.mpr (.inr ⟨d, k, hk, hx⟩))

theorem Clear.own {temps : List String} {c : Cat} {n : Node c} {x : String}
    (h : n.Clear temps) (hx : x ∈ n.ownNames) : x ∉ temps :=
  h x (mem_names.mpr (.inl hx))

theorem children_mapParts (g : ∀ {d : Cat}, Node d → Node d) {c : Cat} (n : Node c) :
    (n.mapParts g).children = n.children.map fun k => ⟨k.1, g k.2⟩ := by
  cases n <;> rfl

theorem ownNames_mapParts (g : ∀ {d : Cat}, Node d → Node d) {c : Cat} (n : Node c) :
    (n.mapParts g).ownNames = n.ownNames := by
  cases n <;> rfl

theorem names_nil {c : Cat} : (nil : Node (.list c)).names = [] := by
  rw [names]
  rfl

theorem names_skeleton {c : Cat} (n : Node c) : n.skeleton.names ⊆ n.names := by
  fun_induction skeleton n with
  | case1 span ctxt stmts =>
    intro x hx
    rw [mem_names] at hx ⊢
    rcases hx with hx | ⟨d, k, hk, hx⟩
    · exact .inl hx
    · cases List.mem_singleton.mp hk
      rw [names_nil] at hx
      cases hx
  | case2 c n hn ih =>
    intro x hx
    change x ∈ (n.mapParts skeleton).names at hx
    rw [mem_names, ownNames_mapParts, children_mapParts] at hx
    rcases hx with hx | ⟨d, k, hk, hx⟩
    · exact mem_names.mpr (.inl hx)
    · obtain ⟨⟨d', k'⟩, hk', he⟩ := List.mem_map.mp hk
      cases he
      exact mem_names.mpr (.inr ⟨_, _, hk', ih _ hk' hx⟩)

theorem Clear.skeleton {temps : List String} {c : Cat} {n : Node c} (h : n.Clear temps) :
    n.skeleton.Clear temps :=
  fun x hx => h x (names_skeleton n hx)

end Node

namespace Interp

variable {U V A : Type}

/-- A relation between states that does not look at the user part, which is the same in both. -/
structure Neutral (R : State U V → State U V → Prop) : Prop where
  user_eq : ∀ {s s'}, R s s' → s.user = s'.user
  update : ∀ {s s'} (u : U), R s s' → R { s with user := u } { s' with user := u }

variable {R : State U V → State U V → Prop}

theorem keep_lift (hR : Neutral R) (a : Action U V A) : (lift a).Keep R (lift a) := by
  intro s s' hs
  change Alike _ (Part.map _ (a.run.run s.user)) (Part.map _ (a.run.run s'.user))
  rw [← hR.user_eq hs]
  refine (Alike.refl_of (Q := Eq) fun _ _ => rfl).map ?_
  rintro r _ rfl
  exact ⟨rfl, hR.update _ hs⟩

variable {I : Interp U V} {temps : List String}

theorem isTemporary_eq_false {c : Cat} {n : Node c} (h : n.Clear temps) :
    isTemporary temps n = false := by
  fun_induction isTemporary temps n with
  | case1 id => simpa using h.own (List.mem_singleton.mpr rfl)
  | case2 span e ih => exact ih (h.part (List.mem_singleton.mpr rfl))
  | case3 span e ih => exact ih (h.part (List.mem_singleton.mpr rfl))
  | case4 span o k ih => exact ih (h.part (.head _))
  | case5 span id e =>
    have hp := h.part (.head _)
    simpa using hp.own (List.mem_singleton.mpr rfl)
  | case6 => rfl

theorem tempTarget?_eq_none {p : Pat} (h : p.Clear temps) : tempTarget? temps p = none := by
  cases p with
  | binder id => exact if_neg (h.own (List.mem_singleton.mpr rfl))
  | _ => rfl

/-- Code without temporaries does not touch them. -/
theorem keep_eval (hR : Neutral R) {e : Expr} (h : e.Clear temps) (bs : List (Body U V)) :
    (eval I temps e bs).Keep R (eval I temps e bs) := by
  fun_induction eval I temps e bs with
  | case1 bs span e ih => exact ih (h.part (.head _))
  | case2 | case3 => exact .pure _
  | case5 bs span e ih => exact (ih (h.part (.head _))).bind fun _ => .pure _
  | case7 bs id hid => exact absurd hid (h.own (.head _))
  | case9 bs span p e x hx =>
    rw [tempTarget?_eq_none (h.part (.head _))] at hx
    cases hx
  | case10 bs span p e _ he =>
    rw [isTemporary_eq_false (h.part (.tail _ (.head _)))] at he
    cases he
  | case13 bs span l r hl | case14 bs span l r hl | case15 bs span l r hl
  | case16 bs span l r hl =>
    rw [isTemporary_eq_false (h.part (.head _))] at hl
    cases hl
  | case18 bs span o k x _ ho =>
    rw [isTemporary_eq_false (h.part (.head _))] at ho
    cases ho
  | case21 bs span ctxt callee args it hcall =>
    obtain ⟨_, id, _, rfl, _, hid⟩ : LoopCall.Fits temps args callee (.next it) :=
      hcall ▸ loopCall_fits args callee
    have href := ((h.part (.head _)).part (.head _)).part (.head _)
    exact absurd hid (href.own (.head _))
  | case22 bs span ctxt callee args o hcall ih =>
    obtain ⟨_, _, rfl⟩ : LoopCall.Fits temps args callee (.iterator o) :=
      hcall ▸ loopCall_fits args callee
    have ho := ((h.part (.head _)).part (.head _)).part (.head _)
    exact (ih ho).bind fun v => keep_lift hR _
  | case23 bs span ctxt callee args e hcall ih =>
    obtain ⟨_, rfl⟩ : LoopCall.Fits temps args callee (.keys e) :=
      hcall ▸ loopCall_fits args callee
    have he := ((h.part (.tail _ (.head _))).part (.head _)).part (.head _)
    exact (ih he).bind fun v => keep_lift hR _
  | _ => exact keep_lift hR _

end Interp

end PlainJs

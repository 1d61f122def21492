import PlainJs.Proofs.Parts

namespace PlainJs

/-- The same runs with no order between the states. -/
def Course.untimed {m : Type → Type} [Monad m] {σ : Type} (r : Course m σ) : Course m σ where
  run := r.run
  run_pure := r.run_pure
  run_bind := r.run_bind
  Le _ _ := True
  refl _ := trivial
  trans _ _ := trivial

namespace Node

variable {m : Type → Type} [Monad m] {σ : Type} {c : Cat}

/-- What holds of a tree whenever it holds of its parts holds of all trees. -/
@[elab_as_elim]
theorem partsInduction {P : ∀ {c : Cat}, Node c → Prop}
    (step : ∀ {c : Cat} (n : Node c), (∀ {d : Cat} {k : Node d}, ⟨d, k⟩ ∈ n.children → P k) → P n)
    {c : Cat} (n : Node c) : P n :=
  step n fun {_ k} _ => partsInduction step k
termination_by sizeOf n
decreasing_by exact sizeOf_lt_of_mem_children ‹_›

/-- What holds of patterns, of the elements of array patterns and of the properties of object
patterns, each whenever it holds of the patterns inside. -/
theorem patternInduction {P : Pat → Prop} {E : Node (.list (.opt .pat)) → Prop}
    {Q : Node (.list .patProp) → Prop} (binder : ∀ id, P (.binder id))
    (defaultPat : ∀ span p e, P p → P (.defaultPat span p e))
    (arrayPat : ∀ span optional elems, E elems → P (.arrayPat span optional elems))
    (objectPat : ∀ span optional props, Q props → P (.objectPat span optional props))
    (restPat : ∀ span dots p, P p → P (.restPat span dots p)) (exprPat : ∀ e, P (.exprPat e))
    (invalidPat : ∀ span, P (.invalidPat span)) (noElems : E .nil)
    (hole : ∀ rest, E rest → E (.cons .none rest))
    (elem : ∀ p rest, P p → E rest → E (.cons (.some p) rest)) (noProps : Q .nil)
    (keyedPat : ∀ k p rest, P p → Q rest → Q (.cons (.keyedPat k p) rest))
    (shortPat : ∀ span id default rest, Q rest → Q (.cons (.shortPat span id default) rest))
    (restProp : ∀ span dots p rest, P p → Q rest → Q (.cons (.restProp span dots p) rest)) :
    (∀ p, P p) ∧ (∀ elems, E elems) ∧ ∀ props, Q props := by
  -- the three are proved together, for all trees below a size
  have below (size : Nat) : (∀ p : Pat, sizeOf p < size → P p) ∧
      (∀ elems : Node (.list (.opt .pat)), sizeOf elems < size → E elems) ∧
        ∀ props : Node (.list .patProp), sizeOf props < size → Q props := by
    induction size with
    | zero => exact ⟨fun _ h => absurd h (Nat.not_lt_zero _),
        fun _ h => absurd h (Nat.not_lt_zero _), fun _ h => absurd h (Nat.not_lt_zero _)⟩
    | succ size ih =>
      obtain ⟨hpat, helems, hprops⟩ := ih
      have part {c d : Cat} {n : Node c} {k : Node d} (hn : sizeOf n < size + 1)
          (hk : ⟨d, k⟩ ∈ n.children) : sizeOf k < size :=
        Nat.lt_of_lt_of_le (sizeOf_lt_of_mem_children hk) (Nat.le_of_lt_succ hn)
      refine ⟨fun p h => ?_, fun elems h => ?_, fun props h => ?_⟩
      · cases p with
        | binder id => exact binder id
        | defaultPat span p e => exact defaultPat span p e (hpat p (part h (.head _)))
        | arrayPat span optional elems =>
          exact arrayPat span optional elems (helems elems (part h (.head _)))
        | objectPat span optional props =>
          exact objectPat span optional props (hprops props (part h (.head _)))
        | restPat span dots p => exact restPat span dots p (hpat p (part h (.head _)))
        | exprPat e => exact exprPat e
        | invalidPat span => exact invalidPat span
      · cases elems with
        | nil => exact noElems
        | cons a rest =>
          have ha := part h (.head _)
          have hrest := helems rest (part h (.tail _ (.head _)))
          cases a with
          | none => exact hole rest hrest
          | some p => exact elem p rest (hpat p (part (Nat.lt_succ_of_lt ha) (.head _))) hrest
      · cases props with
        | nil => exact noProps
        | cons a rest =>
          have ha := Nat.lt_succ_of_lt (part h (.head _))
          have hrest := hprops rest (part h (.tail _ (.head _)))
          cases a with
          | keyedPat k p => exact keyedPat k p rest (hpat p (part ha (.tail _ (.head _)))) hrest
          | shortPat span id default => exact shortPat span id default rest hrest
          | restProp span dots p => exact restProp span dots p rest (hpat p (part ha (.head _))) hrest
  exact ⟨fun p => (below _).1 p (Nat.lt_succ_self _),
    fun elems => (below _).2.1 elems (Nat.lt_succ_self _),
    fun props => (below _).2.2 props (Nat.lt_succ_self _)⟩

/-- Parts that are visited one after the other, with what each visit makes of its part. -/
inductive Visited (V : σ → ∀ {d : Cat}, Node d → Node d → σ → Prop) :
    σ → List (Sigma Node) → List (Sigma Node) → σ → Prop
  | nil (s : σ) : Visited V s [] [] s
  | cons {s t u : σ} {d : Cat} {k k' : Node d} {l l' : List (Sigma Node)} :
      V s k k' t → Visited V t l l' u → Visited V s (⟨d, k⟩ :: l) (⟨d, k'⟩ :: l') u

variable {V V' : σ → ∀ {d : Cat}, Node d → Node d → σ → Prop}

theorem visited_visit (r : Course m σ) {α : Type} {ds : List Cat} (args : Args ds)
    {f : {d : Cat} → (k : Node d) → ⟨d, k⟩ ∈ args.toList → m (Node d)}
    (h : ∀ {d : Cat} (k : Node d) (hk : ⟨d, k⟩ ∈ args.toList) (s : σ),
      V s k (r.run (f k hk) s).1 (r.run (f k hk) s).2) (g : Args ds → α) (s : σ) :
    ∃ args' t, r.run (args.visit (fun k hk => f k hk) fun args => pure (g args)) s = (g args', t) ∧
      Visited V s args.toList args'.toList t := by
  induction ds generalizing s with
  | nil => exact ⟨args, s, r.run_pure _ s, .nil s⟩
  | cons d ds ih =>
    have hhead := h args.1 (.head _) s
    obtain ⟨rest, t, hrun, hrest⟩ := ih args.2 (f := fun k hk => f k (.tail _ hk))
      (fun k hk => h k (.tail _ hk)) (fun rest => g ((r.run (f args.1 (.head _)) s).1, rest))
      (r.run (f args.1 (.head _)) s).2
    refine ⟨((r.run (f args.1 (.head _)) s).1, rest), t, ?_, .cons hhead hrest⟩
    rw [Args.visit, r.run_bind]
    exact hrun

/-- A traversal visits the parts in turn and keeps the form of the tree. -/
theorem visited_traverse (r : Course m σ) {n : Node c}
    {f : {d : Cat} → (k : Node d) → ⟨d, k⟩ ∈ n.children → m (Node d)}
    (h : ∀ {d : Cat} (k : Node d) (hk : ⟨d, k⟩ ∈ n.children) (s : σ),
      V s k (r.run (f k hk) s).1 (r.run (f k hk) s).2) (s : σ) :
    Visited V s n.children (r.run (n.traverse fun k hk => f k hk) s).1.children
        (r.run (n.traverse fun k hk => f k hk) s).2 ∧
      Parts (fun k k' => ∃ s t, V s k k' t) n (r.run (n.traverse fun k hk => f k hk) s).1 := by
  refine ⟨?_, ?_⟩
  · obtain ⟨form, args, rfl⟩ := n.exists_form
    rw [form.traverse_node]
    obtain ⟨args', t, hrun, hvisited⟩ := visited_visit r args
      (f := fun k hk => f k (form.children_node args ▸ hk)) (fun k _ s => h k _ s) form.node s
    rw [hrun, form.children_node, form.children_node]
    exact hvisited
  · exact (Parts.of_traverse (r := r.untimed) (s := s) (P := fun _ {_} k k' => ∃ s t, V s k k' t)
      (fun _ hk => hk) (fun k hk s _ => ⟨trivial, _, _, h k hk s⟩) s trivial).2

/-- What every visit gives to its part holds of all parts in the end. -/
theorem parts_traverse (r : Course m σ) {P : ∀ {d : Cat}, Node d → Node d → Prop} {n : Node c}
    {f : {d : Cat} → (k : Node d) → ⟨d, k⟩ ∈ n.children → m (Node d)}
    (h : ∀ {d : Cat} (k : Node d) (hk : ⟨d, k⟩ ∈ n.children) (s : σ), P k (r.run (f k hk) s).1)
    (s : σ) : Parts P n (r.run (n.traverse fun k hk => f k hk) s).1 :=
  (visited_traverse r (V := fun _ {_} k k' _ => P k k') h s).2.imp fun _ hk =>
    hk.choose_spec.choose_spec

theorem Visited.imp {s t : σ} {l l' : List (Sigma Node)} (h : Visited V s l l' t)
    (hV : ∀ {s t : σ} {d : Cat} {k k' : Node d}, ⟨d, k⟩ ∈ l → V s k k' t → V' s k k' t) :
    Visited V' s l l' t := by
  induction h with
  | nil s => exact .nil s
  | cons hk _ ih => exact .cons (hV (.head _) hk) (ih fun hmem => hV (.tail _ hmem))

theorem Visited.le {r : Course m σ} {s t : σ} {l l' : List (Sigma Node)} (h : Visited V s l l' t)
    (hV : ∀ {s t : σ} {d : Cat} {k k' : Node d}, V s k k' t → r.Le s t) : r.Le s t := by
  induction h with
  | nil s => exact r.refl s
  | cons hk _ ih => exact r.trans (hV hk) ih

/-- Every part is visited in a state between the first and the last one. -/
theorem Visited.exists_of_mem {r : Course m σ} {s t : σ} {l l' : List (Sigma Node)}
    (h : Visited V s l l' t)
    (hV : ∀ {s t : σ} {d : Cat} {k k' : Node d}, V s k k' t → r.Le s t) {d : Cat} {k : Node d}
    (hk : ⟨d, k⟩ ∈ l) :
    ∃ u v, ∃ k' : Node d, ⟨d, k'⟩ ∈ l' ∧ r.Le s u ∧ V u k k' v ∧ r.Le v t := by
  induction h with
  | nil => cases hk
  | @cons s t u d k k' l l' hv hvs ih =>
    cases hk with
    | head => exact ⟨_, _, _, .head _, r.refl _, hv, hvs.le hV⟩
    | tail _ hk =>
      obtain ⟨u, v, k'', hk'', hu, hv', hle⟩ := ih hk
      exact ⟨u, v, k'', .tail _ hk'', r.trans (hV hv) hu, hv', hle⟩

/-- A traversal that leaves every part alone leaves the tree alone. -/
theorem traverse_eq_pure [LawfulMonad m] {n : Node c}
    {f : {d : Cat} → (k : Node d) → ⟨d, k⟩ ∈ n.children → m (Node d)}
    (h : ∀ {d : Cat} (k : Node d) (hk : ⟨d, k⟩ ∈ n.children), f k hk = pure k) :
    (n.traverse fun k hk => f k hk) = pure n := by
  obtain rfl : @f = fun {_} k _ => pure k := by
    funext d k hk
    exact h k hk
  obtain ⟨form, args, rfl⟩ := n.exists_form
  rw [form.traverse_node, Args.visit_pure (fun k => k), Args.map_id]

theorem mapParts_eq_self {g : ∀ {d : Cat}, Node d → Node d} {n : Node c}
    (h : ∀ {d : Cat} {k : Node d}, ⟨d, k⟩ ∈ n.children → g k = k) : n.mapParts g = n :=
  congrArg Id.run (traverse_eq_pure (m := Id) fun _ hk => h hk)

end Node

end PlainJs

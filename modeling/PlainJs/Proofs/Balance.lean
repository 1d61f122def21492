import PlainJs.Proofs.Weight

namespace PlainJs

open Node

variable {c : Cat} {n n' : Node c}

/-- What stands around the parts only depends on the form of a tree. -/
theorem Frame.enter_eq {P : ∀ {d : Cat}, Node d → Node d → Prop} (fr : Frame) (h : Parts P n n') :
    fr.enter n = fr.enter n' :=
  h.form_eq fr.enter fun m => by cases m <;> rfl

namespace Measure

variable {known : List Diagnostic} {w w' : Measure known} {T : Terms} {fr : Frame}

/-- Two ways to weigh that differ only at the nodes of a given form; the first one gives these no
weight. -/
structure Turns (w w' : Measure known) (form : ∀ {c : Cat}, Node c → Bool) : Prop where
  held : w'.held = w.held
  admits : w'.admits = w.admits
  agree : ∀ {fr : Frame} {c : Cat} {n : Node c}, form n = false → w'.own fr n = w.own fr n
  rewritten : ∀ {fr : Frame} {c : Cat} {n : Node c}, form n = true → w.own fr n = 0

/-- Between the contexts `s` and `t` a part has been lowered at its cost. -/
def Paid (w w' : Measure known) (T : Terms) (fr : Frame) (s : Context) {d : Cat} (k k' : Node d)
    (t : Context) : Prop :=
  T.pre s → s.Calm t ∧ (w.Ends t → T.post t →
    w'.of fr k' + w.held s.names = w.of fr k + w.held t.names)

/-- Trees of the same form have parts of the same weight if their parts agree one by one. -/
theorem inner_eq {P : ∀ {d : Cat}, Node d → Node d → Prop} {fr' : Frame} (h : Parts P n n')
    (hP : ∀ {d : Cat} {k k' : Node d}, P k k' → w'.of (fr'.enter n) k' = w.of (fr.enter n) k) :
    w'.inner fr' n' = w.inner fr n := by
  rw [inner, inner, ← fr'.enter_eq h]
  have hparts := h.children
  generalize n.children = l at hparts
  generalize n'.children = l' at hparts
  induction hparts with
  | nil => rfl
  | cons hk _ ih =>
    obtain ⟨hk⟩ := hk
    simp only [List.map_cons, List.sum_cons, ih, hP hk]

theorem sum_of_visited {s t : Context} {l l' : List (Sigma Node)}
    (h : Visited (w.Paid w' T fr) s l l' t) (hs : T.pre s) :
    s.Calm t ∧ (w.Ends t → T.post t →
      (l'.map fun k => w'.of fr k.2).sum + w.held s.names =
        (l.map fun k => w.of fr k.2).sum + w.held t.names) := by
  induction h with
  | nil s => exact ⟨.refl, fun _ _ => rfl⟩
  | cons hk _ ih =>
    obtain ⟨hsteps, hweight⟩ := hk hs
    obtain ⟨hsteps', hweight'⟩ := ih (T.up hsteps hs)
    refine ⟨hsteps.trans hsteps', fun hends hpost => ?_⟩
    have h₁ := hweight (hends.before hsteps'.steps) (T.down hsteps' hpost)
    have h₂ := hweight' hends hpost
    simp only [List.map_cons, List.sum_cons]
    omega

/-- A traversal costs what its visits cost. -/
theorem Costs.traverse_inner {f : {d : Cat} → (k : Node d) → ⟨d, k⟩ ∈ n.children → Lower (Node d)}
    (h : ∀ {d : Cat} (k : Node d) (hk : ⟨d, k⟩ ∈ n.children),
      w.Costs T (w'.of (fr.enter n)) (w.of (fr.enter n) k) (f k hk)) :
    w.Costs T (w'.inner fr) (w.inner fr n) (n.traverse fun k hk => f k hk) := by
  intro s hs
  obtain ⟨hvisited, hparts⟩ := visited_traverse lowering (V := w.Paid w' T (fr.enter n))
    (fun k hk s hs => h k hk s hs) s
  have hsum := sum_of_visited hvisited hs
  have henter := fr.enter_eq hparts
  refine ⟨hsum.1, fun hends hpost => ?_⟩
  have hweight := hsum.2 hends hpost
  rw [henter] at hweight
  simp only [inner, henter]
  exact hweight

/-- A traversal costs what the tree weighs if the new tree counts what the old one counts. -/
theorem Costs.traverse {R : ∀ {d : Cat}, Node d → Node d → Prop}
    {f : {d : Cat} → (k : Node d) → ⟨d, k⟩ ∈ n.children → Lower (Node d)}
    (hR : ∀ {d : Cat} (k : Node d) (hk : ⟨d, k⟩ ∈ n.children) (s : Context),
      R k ((f k hk).run s).1)
    (hown : ∀ {n' : Node c}, Parts R n n' → w'.own fr n' = w.own fr n)
    (h : ∀ {d : Cat} (k : Node d) (hk : ⟨d, k⟩ ∈ n.children),
      w.Costs T (w'.of (fr.enter n)) (w.of (fr.enter n) k) (f k hk)) :
    w.Costs T (w'.of fr) (w.of fr n) (n.traverse fun k hk => f k hk) := by
  intro s hs
  have hself := hown (parts_traverse lowering hR s)
  obtain ⟨hsteps, hweight⟩ := Costs.traverse_inner h s hs
  refine ⟨hsteps, fun hends hpost => ?_⟩
  have hinner := hweight hends hpost
  rw [of_eq, of_eq]
  change w'.own fr (lowering.run (n.traverse fun k hk => f k hk) s).1 + _ + _ = _
  omega

end Measure

namespace Frame

/-- Two frames make no difference for what a node counts itself. -/
def Agrees (fr fr' : Frame) {c : Cat} (n : Node c) : Prop :=
  (∀ x ∈ n.ownLabels, x ∈ fr.labels ↔ x ∈ fr'.labels) ∧ (n.isLeave = true → fr.caught = fr'.caught)

theorem mem_labels_enter {fr fr' : Frame} {x : String} (h : x ∈ fr.labels ↔ x ∈ fr'.labels)
    (n : Node c) : x ∈ (fr.enter n).labels ↔ x ∈ (fr'.enter n).labels := by
  unfold enter
  split
  · simp [h]
  · exact h
  · split
    · exact h
    · split
      · exact Iff.rfl
      · exact h

theorem caught_enter {fr fr' : Frame} (h : fr.caught = fr'.caught) (n : Node c) :
    (fr.enter n).caught = (fr'.enter n).caught := by
  unfold enter
  split
  · exact h
  · rfl
  · split
    · rfl
    · split
      · rfl
      · exact h

end Frame

/-- A way to weigh that follows labels through a pass. A label that is put on a statement weighs
`markLabel`, and a jump to such a label weighs `jump`. -/
structure Weight (known : List Diagnostic) extends Measure known where
  markLabel : String → Nat
  jump : String → Nat
  /-- Whether the weight of a node depends on what stands around it. -/
  sees : Prop
  own_handler : ∀ {fr : Frame} {span : Span} {id : Ident} {body : Block},
    own fr (.handler span (.some (.binder id)) body) = mark id.name
  own_class : ∀ {fr : Frame} {declare : Bool} {name : Ident} {a : Node .cls},
    own fr (.declClass declare name a) = mark name.name + own fr (.classExpr (.some name) a)
  own_labeled : ∀ {fr : Frame} {span : Span} {label : Ident} {body : Stmt},
    (sees → label.name ∉ fr.labels) → own fr (.labeledStmt span label body) = markLabel label.name
  own_break : ∀ {fr : Frame} {span : Span} {label : Ident},
    (sees → label.name ∈ fr.labels) → own fr (.breakStmt span (some label)) = jump label.name
  own_leave : ∀ {fr : Frame} {span : Span},
    (sees → fr.caught = true) → own fr (.breakStmt span none) = 0
  own_frame : ∀ {fr fr' : Frame} {c : Cat} {n : Node c},
    (sees → fr.Agrees fr' n) → own fr n = own fr' n
  held_freshLabel : ∀ (s : NameSupply) (hint : String),
    held (s.freshLabel hint).2 = markLabel (s.pick hint) + held s

/-- Whether there are statements in the trees of a category that are not inside a function. -/
def Cat.hasStmts : Cat → Bool
  | .stmt | .block | .clause | .handler | .item | .program | .arrowBody => true
  | .list c | .opt c => c.hasStmts
  | _ => false

namespace Node

theorem noStmts_own (hc : c.hasStmts = false) :
    n.ownLabels = [] ∧ n.isLeave = false ∧ n.isLoop = false ∧ n.isSwitch = false ∧
      n.isLabeled = false := by
  cases n <;> first | exact ⟨rfl, rfl, rfl, rfl, rfl⟩ | cases hc

theorem noStmts_part {d : Cat} {k : Node d} (hc : c.hasStmts = false)
    (hf : n.isFunctionLike = false) (hk : ⟨d, k⟩ ∈ n.children) : d.hasStmts = false := by
  have key : ∀ k ∈ n.children, k.1.hasStmts = false := by
    cases n
    all_goals
      first
        | exact Bool.noConfusion hf
        | exact Bool.noConfusion hc
        | repeat'
            first
              | exact List.forall_mem_nil _
              | refine List.forall_mem_cons.mpr ⟨by first | rfl | exact hc, ?_⟩
  exact key _ hk

end Node

namespace Weight

variable {known : List Diagnostic} {w : Weight known} {fr fr' : Frame}

/-- Labels that do not occur in a tree make no difference for its weight. -/
theorem of_congr (n : Node c)
    (h : w.sees → (∀ x ∈ n.labelNames, x ∈ fr.labels ↔ x ∈ fr'.labels) ∧ fr.caught = fr'.caught) :
    w.of fr n = w.of fr' n := by
  induction n using partsInduction generalizing fr fr' with
  | step n ih =>
    have hown : w.own fr n = w.own fr' n := w.own_frame fun hs =>
      ⟨fun x hx => (h hs).1 x (mem_labelNames.mpr (.inl hx)), fun _ => (h hs).2⟩
    rw [Measure.of_eq, Measure.of_eq, hown, Measure.inner, Measure.inner]
    congr 2
    refine List.map_congr_left fun k hk => ih hk fun hs => ⟨fun x hx => ?_, ?_⟩
    · exact Frame.mem_labels_enter ((h hs).1 x (mem_labelNames.mpr (.inr ⟨_, _, hk, hx⟩))) n
    · exact Frame.caught_enter (h hs).2 n

/-- What stands around it makes no difference for a tree without statements outside functions. -/
theorem of_eq_of_noStmts (n : Node c) (hc : c.hasStmts = false) : w.of fr n = w.of fr' n := by
  induction n using partsInduction generalizing fr fr' with
  | @step c n ih =>
    obtain ⟨hlabels, hleave, hloop, hswitch, hlabeled⟩ := noStmts_own hc (n := n)
    have hown : w.own fr n = w.own fr' n := w.own_frame fun _ =>
      ⟨fun x hx => absurd hx (by rw [hlabels]; exact List.not_mem_nil), fun h =>
        Bool.noConfusion (hleave.symm.trans h)⟩
    rw [Measure.of_eq, Measure.of_eq, hown, Measure.inner, Measure.inner]
    congr 2
    refine List.map_congr_left fun k hk => ?_
    have henter (fr : Frame) :
        fr.enter n = if n.isFunctionLike then .top else fr := by
      cases n <;> first | rfl | cases hc
    cases hf : n.isFunctionLike with
    | true => rw [henter, henter, if_pos hf, if_pos hf]
    | false =>
      simp only [henter, hf]
      exact ih hk (noStmts_part hc hf hk)

end Weight

end PlainJs

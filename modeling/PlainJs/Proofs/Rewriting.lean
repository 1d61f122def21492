import PlainJs.Proofs.Balance
import PlainJs.Proofs.Sites

namespace PlainJs

open Node

namespace Weight

variable {known : List Diagnostic}

/-- Counts the nodes with labels outside `R`. -/
def labelsOutside (known : List Diagnostic) (R : List String) : Weight known where
  own _ {_} n := if n.ownLabels ⊆ R then 0 else 1
  mark _ := 0
  held s := s.madeLabels.countP (· ∉ R)
  markLabel x := if x ∈ R then 0 else 1
  jump x := if x ∈ R then 0 else 1
  sees := False
  own_glue {_ _ n} h := by
    have hlabels : n.ownLabels = [] := by cases n <;> first | rfl | cases h
    rw [hlabels, if_pos (List.nil_subset _)]
  own_declarator := (if_pos (List.nil_subset _)).trans List.sum_map_zero.symm
  own_parts h := by rw [h.form_eq ownLabels fun m => by cases m <;> rfl]
  held_fresh _ _ _ _ := (Nat.zero_add _).symm
  own_handler := by simp [ownLabels]
  own_class := by simp [ownLabels]
  own_labeled _ := by simp [ownLabels]
  own_break _ := by simp [ownLabels]
  own_leave _ := by simp [ownLabels]
  own_frame _ := rfl
  held_freshLabel s hint := by
    rw [NameSupply.freshLabel, List.countP_cons, Nat.add_comm]
    by_cases h : s.pick hint ∈ R <;> simp [NameSupply.fresh, h]

/-- Counts the breaks without a label that find nothing to leave. -/
def strays (known : List Diagnostic) : Weight known where
  own fr {_} n := if n.isLeave && !fr.caught then 1 else 0
  mark _ := 0
  held := NameSupply.unweighed
  markLabel _ := 0
  jump _ := 0
  sees := True
  own_glue {_ _ n} h := by
    have hleave : n.isLeave = false := by cases n <;> first | rfl | cases h
    rw [hleave]
    rfl
  own_declarator := @Node.unweighed_declarator
  own_parts h := by rw [h.form_eq isLeave fun m => by cases m <;> rfl]
  held_fresh := NameSupply.unweighed_fresh
  own_handler := rfl
  own_class := rfl
  own_labeled _ := rfl
  own_break _ := rfl
  own_leave h := by simp [h trivial]
  own_frame {_ _ _ n} h := by
    cases hn : n.isLeave with
    | false => rfl
    | true => rw [(h trivial).2 hn]
  held_freshLabel := NameSupply.unweighed_freshLabel

variable {R N : List String} {c : Cat} {n n' : Node c} {fr : Frame} {s t : Context}

theorem spares_labelsOutside (R : List String) : (labelsOutside known R).Spares := by
  intro fr c n h
  have hlabels : n.ownLabels = [] := by cases n <;> first | rfl | cases h
  simp [labelsOutside, hlabels]

theorem of_eq_zero {w : Measure known} : w.of fr n = 0 ↔
    w.own fr n = 0 ∧ ∀ k ∈ n.children, w.of (fr.enter n) k.2 = 0 := by
  rw [Measure.of_eq, Nat.add_eq_zero_iff, Measure.inner, List.sum_eq_zero_iff_forall_eq_nat,
    List.forall_mem_map]

theorem labelsOutside_eq_zero : (labelsOutside known R).of fr n = 0 ↔ n.labelNames ⊆ R := by
  induction n using partsInduction generalizing fr with
  | step n ih =>
    have hown : (labelsOutside known R).own fr n = 0 ↔ n.ownLabels ⊆ R := by simp [labelsOutside]
    rw [of_eq_zero, hown]
    refine ⟨fun ⟨h₁, h₂⟩ x hx => ?_, fun h => ⟨fun x hx => ?_, fun k hk => ?_⟩⟩
    · rcases mem_labelNames.mp hx with hx | ⟨d, k, hk, hx⟩
      · exact h₁ hx
      · exact (ih hk).mp (h₂ _ hk) hx
    · exact h (mem_labelNames.mpr (.inl hx))
    · exact (ih hk).mpr (labelNames_part h hk)

/-- The labels that have been made are known. -/
theorem held_labelsOutside (h : s.Steps t) (hR : t.names.reserved ⊆ R) :
    (labelsOutside known R).held t.names = (labelsOutside known R).held s.names := by
  induction h with
  | refl => rfl
  | @fresh t hint _ _ ih => exact ih fun x hx => hR (.tail _ hx)
  | @freshLabel t hint _ _ ih =>
    refine ((labelsOutside known R).held_freshLabel t.names hint).trans ?_
    have hpick : t.names.pick hint ∈ R := hR (.head _)
    rw [ih fun x hx => hR (.tail _ hx)]
    simp [labelsOutside, hpick]
  | record _ _ _ ih => exact ih hR

/-- What a pass assumes: the supply knows the labels in `N`, and jumps to labels that it hands out
weigh nothing. -/
def terms (w : Weight known) (N : List String) : Terms where
  pre s := w.sees → N ⊆ s.names.reserved
  post t := ∀ x ∈ t.names.reserved, w.jump x = 0
  up h hs hw := List.Subset.trans (hs hw) h.grows.reserved
  down h ht x hx := ht x (h.grows.reserved hx)

theorem labels_enter (h : fr.labels ⊆ N) (hn : n.labelNames ⊆ N) : (fr.enter n).labels ⊆ N := by
  unfold Frame.enter
  split
  · exact List.cons_subset.mpr ⟨hn (mem_labelNames.mpr (.inl (.head _))), h⟩
  · exact h
  · split
    · exact h
    · split
      · exact List.nil_subset _
      · exact h

end Weight

/-- Whether a node can place a name or a label, or jumps to one. -/
def Node.isPlacing : {c : Cat} → Node c → Bool
  | _, .declarator .. | _, .handler .. | _, .declClass .. | _, .classExpr .. | _, .labeledStmt ..
  | _, .breakStmt .. => true
  | _, _ => false

/-- A test that generated code passes, whatever its parts are. -/
structure Lenient (known : List Diagnostic) (test : ∀ {c : Cat}, Node c → Bool) : Prop where
  glue : ∀ {c : Cat} {n : Node c}, n.isGlue known = true → test n = true
  placing : ∀ {c : Cat} {n : Node c}, n.isPlacing = true → test n = true
  parts : ∀ {c : Cat} {n n' : Node c},
    Parts (fun k k' => SameOutline k k' ∧ (n.isSwitch = true → k.declSpans = k'.declSpans)) n n' →
      test n = test n'

namespace Weight

variable {known : List Diagnostic} {test : ∀ {c : Cat}, Node c → Bool}

/-- Counts the nodes that fail a test. -/
def failures (h : Lenient known test) : Weight known where
  own _ {_} n := if test n then 0 else 1
  mark _ := 0
  held := NameSupply.unweighed
  markLabel _ := 0
  jump _ := 0
  sees := False
  own_glue hn := if_pos (h.glue hn)
  own_declarator := (if_pos (h.placing rfl)).trans List.sum_map_zero.symm
  own_parts hparts := by rw [h.parts hparts]
  held_fresh := NameSupply.unweighed_fresh
  own_handler := if_pos (h.placing rfl)
  own_class {_ _ _ _} := by rw [if_pos (h.placing rfl), if_pos (h.placing rfl)]
  own_labeled _ := if_pos (h.placing rfl)
  own_break _ := if_pos (h.placing rfl)
  own_leave _ := if_pos (h.placing rfl)
  own_frame _ := rfl
  held_freshLabel := NameSupply.unweighed_freshLabel

theorem failures_eq_zero {h : Lenient known test} {fr : Frame} {c : Cat} {n : Node c} :
    (failures h).of fr n = 0 ↔ n.all test = true := by
  induction n using partsInduction generalizing fr with
  | step n ih =>
    have hown : (failures h).own fr n = 0 ↔ test n = true := by simp [failures]
    rw [of_eq_zero, hown, all_iff]
    exact and_congr_right fun _ =>
      ⟨fun h _ _ hk => (ih hk).mp (h _ hk), fun h _ hk => (ih hk).mpr (h hk)⟩

end Weight

/-- Variable declarations weigh nothing themselves. -/
def Measure.Plain {known : List Diagnostic} (w : Measure known) : Prop :=
  ∀ (fr : Frame) (v : VarDecl), w.own fr (.declVar v) = 0

/-- Whether a node is no `for-of` loop that has an initializer in its head. -/
def Node.hasPlainHead : {c : Cat} → Node c → Bool
  | _, .forOfStmt _ _ head _ _ => !head.declShape.any (·.isInitialised)
  | _, _ => true

namespace Weight

variable {known : List Diagnostic} {N : List String} {c : Cat} {n : Node c} {fr : Frame}

/-- Names that are handed out weigh nothing if jumps to them do. -/
def Idle (w : Weight known) : Prop := ∀ {s t : Context}, s.Steps t →
  (∀ x ∈ t.names.reserved, w.jump x = 0) → w.held t.names = w.held s.names

/-- Rewriting statements of the given form may lose some of a tree, unless that weighs nothing. -/
def Clean (w : Weight known) (form : ∀ {c : Cat}, Node c → Bool) (fr : Frame) (n : Node c) : Prop :=
  w.Idle ∧ w.of fr n = 0 ∨ w.Plain ∧ n.all (fun k => !form k || k.hasPlainHead) = true

theorem idle_labelsOutside (R : List String) : (labelsOutside known R).Idle := by
  refine fun h hjump => held_labelsOutside h fun x hx => ?_
  have hx := hjump x hx
  by_contra hmem
  simp [labelsOutside, hmem] at hx

variable {form : ∀ {c : Cat}, Node c → Bool}

theorem Clean.part {w : Weight known} {d : Cat} {k : Node d} (h : w.Clean form fr n)
    (hk : ⟨d, k⟩ ∈ n.children) : w.Clean form (fr.enter n) k :=
  h.imp (fun ⟨hidle, hzero⟩ => ⟨hidle, (of_eq_zero.mp hzero).2 _ hk⟩)
    fun ⟨hplain, hheads⟩ => ⟨hplain, all_part hheads hk⟩

/-- A weight that looks at what stands around needs to know the labels in and around a tree, and
that no `break` is astray. -/
def Tracks (w : Weight known) (N : List String) (fr : Frame) (n : Node c) : Prop :=
  w.sees → n.labelNames ⊆ N ∧ fr.labels ⊆ N ∧ (strays known).of fr n = 0

/-- What a pass needs to know to keep the weight of a tree. -/
structure Ready (w : Weight known) (form : ∀ {c : Cat}, Node c → Bool) (N : List String) (fr : Frame)
    (n : Node c) : Prop where
  tracks : w.Tracks N fr n
  clean : w.Clean form fr n

theorem Ready.part {w : Weight known} {d : Cat} {k : Node d} (h : w.Ready form N fr n)
    (hk : ⟨d, k⟩ ∈ n.children) : w.Ready form N (fr.enter n) k where
  tracks hs := by
    obtain ⟨hlabels, hfr, hstray⟩ := h.tracks hs
    exact ⟨labelNames_part hlabels hk, labels_enter hfr hlabels, (of_eq_zero.mp hstray).2 _ hk⟩
  clean := h.clean.part hk

end Weight

namespace Weight

variable {known : List Diagnostic} {w : Weight known} {N : List String} {c : Cat} {fr : Frame}

theorem costs_freshLabel {T : Terms} (hint : String) (h : hint ∈ NameSupply.labelHints) :
    w.Costs T (fun id => w.markLabel id.name) 0 (Lower.freshLabel hint) := by
  refine fun s _ => ⟨.freshLabel h .refl, fun _ _ => ?_⟩
  rw [run_freshLabel, Context.withFreshLabel, w.held_freshLabel, Nat.zero_add]
  rfl

/-- A label that is made does not occur among those that are known. -/
theorem freshLabel_notMem (hint : String) (s : Context) (hs : (w.terms N).pre s) :
    w.sees → ((Lower.freshLabel hint).run s).1.name ∉ N :=
  fun h hmem => s.names.pick_notMem hint (hs h hmem)

theorem of_labeled {label : Ident} (body : Stmt) (h : w.sees → label.name ∉ fr.labels) :
    w.of fr (Build.labeled label body) =
      w.markLabel label.name + w.of (fr.label label.name) body := by
  rw [Build.labeled, Measure.of_eq, w.own_labeled h]
  rfl

theorem of_label {l : String} (n : Node c) (h : w.sees → l ∉ n.labelNames) :
    w.of (fr.label l) n = w.of fr n := by
  refine w.of_congr n fun hs => ⟨fun x hx => ?_, rfl⟩
  rw [Frame.labels_label, List.mem_cons, or_iff_right]
  rintro rfl
  exact h hs hx

theorem of_leave (h : fr.caught = true) : w.of fr (Build.breakTo none) = 0 := by
  rw [Build.breakTo, Measure.of_eq, w.own_leave fun _ => h]
  rfl

end Weight

/-- Two weights before and after a pass that rewrites statements of one form. -/
structure Weight.Turns {known : List Diagnostic} (w w' : Weight known)
    (form : ∀ {c : Cat}, Node c → Bool) : Prop extends w.toMeasure.Turns w'.toMeasure form where
  sees : w'.sees = w.sees
  jump : w'.jump = w.jump
  spares : w'.Spares

namespace Lower

variable {α β : Type} {P : β → Prop}

/-- Whatever a computation gives has a property. -/
def Yields (P : β → Prop) (x : Lower β) : Prop := ∀ s : Context, P (x.run s).1

theorem Yields.pure {b : β} (h : P b) : Yields P (pure b) := fun _ => h

theorem Yields.bind {x : Lower α} {f : α → Lower β} (h : ∀ a, Yields P (f a)) :
    Yields P (x >>= f) := fun s => h (x.run s).1 (x.run s).2

/-- A traversal comes to every part in some context on the way. -/
theorem exists_visit {f : {d : Cat} → Node d → Lower (Node d)}
    (hf : ∀ {d : Cat} (k : Node d) (s : Context), s.Steps ((f k).run s).2) {c d : Cat} {n : Node c}
    {k : Node d} (hk : ⟨d, k⟩ ∈ n.children) (s : Context) :
    let r := (n.traverse fun k _ => f k).run s
    ∃ u : Context, s.Steps u ∧ ((f k).run u).2.Steps r.2 ∧ ⟨d, ((f k).run u).1⟩ ∈ r.1.children := by
  have hvisited := (visited_traverse stepping (n := n) (V := fun s {_} k k' t => (f k).run s = (k', t))
    (f := fun k _ => f k) (fun _ _ _ => rfl) s).1
  have hsteps {s t : Context} {d : Cat} {k k' : Node d} (hrun : (f k).run s = (k', t)) :
      s.Steps t := by
    have h := hf k s
    rwa [hrun] at h
  obtain ⟨u, v, k', hk', hu, hrun, hv⟩ := hvisited.exists_of_mem (r := stepping) hsteps hk
  exact ⟨u, hu, by rw [hrun]; exact hv, by rw [hrun]; exact hk'⟩

end Lower

theorem Node.all_of_mem_nodes {test : ∀ {d : Cat}, Node d → Bool} {c : Cat} {n : Node c}
    (h : n.all test = true) {d : Cat} {k : Node d} (hk : ⟨d, k⟩ ∈ n.nodes) : k.all test = true := by
  induction n using partsInduction with
  | step n ih =>
    obtain heq | ⟨m, hm, hk⟩ := mem_nodes.mp hk
    · cases heq
      exact h
    · exact ih hm (all_part h hm) hk

theorem Node.all_eq_false {test : ∀ {d : Cat}, Node d → Bool} {c : Cat} {n : Node c} :
    n.all test = false ↔ ∃ k ∈ n.nodes, test k.2 = false := by
  constructor
  · contrapose!
    intro h
    induction n using partsInduction with
    | step n ih =>
      simp only [ne_eq, Bool.not_eq_false] at h ih ⊢
      exact all_iff.mpr ⟨h _ mem_nodes_self, fun hk => ih hk fun m hm => h m (mem_nodes_of_part hk hm)⟩
  · rintro ⟨k, hk, hfails⟩
    refine Bool.eq_false_iff.mpr fun hall => ?_
    rw [(all_iff.mp (all_of_mem_nodes hall hk)).1] at hfails
    cases hfails

/-- A pass that leaves every statement alone leaves the tree alone. -/
theorem Lower.bottomUp_eq_pure {f : Stmt → Lower Stmt} {test : ∀ {d : Cat}, Node d → Bool} {c : Cat}
    {n : Node c} (hf : ∀ k : Stmt, test k = true → f k = pure k) (h : n.all test = true) :
    Lower.bottomUp f n = pure n := by
  induction n using partsInduction with
  | @step c n ih =>
    rw [Lower.bottomUp, traverse_eq_pure fun k hk => ih hk (all_part h hk), pure_bind]
    cases c <;> first | rfl | exact hf n (all_iff.mp h).1

/-- A rewriting of statements of one form. -/
structure Rewrites (known : List Diagnostic) (f : Stmt → Lower Stmt)
    (form : ∀ {c : Cat}, Node c → Bool) : Prop where
  form_parts : ∀ {P : ∀ {d : Cat}, Node d → Node d → Prop} {c : Cat} {n n' : Node c},
    Parts P n n' → form n = form n'
  isStmt : ∀ {c : Cat} {n : Node c}, form n = true → c = .stmt
  ownLabels : ∀ {c : Cat} {n : Node c}, form n = true → n.ownLabels = []
  isLeave : ∀ {c : Cat} {n : Node c}, form n = true → n.isLeave = false
  other : ∀ k : Stmt, form k = false → f k = pure k
  declSpans : ∀ (k : Stmt) (s : Context), k.declSpans = ((f k).run s).1.declSpans
  /-- A rewritten statement weighs what its parts have weighed. -/
  costs : ∀ (w : Weight known) (N : List String) (fr : Frame) (k : Stmt), form k = true →
    w.Tracks N fr k → w.Spares → (w.inner fr k = 0 ∨ w.Plain ∧ k.hasPlainHead = true) →
      w.Costs (w.terms N) (w.of fr) (w.inner fr k) (f k)

namespace Rewrites

variable {known : List Diagnostic} {f : Stmt → Lower Stmt} {form : ∀ {c : Cat}, Node c → Bool}
  {c : Cat} {N : List String}

/-- The parts of a tree when the pass has gone through them. -/
theorem run_bottomUp (n : Node c) (s : Context) : (Lower.bottomUp f n).run s =
    let r := (n.traverse fun k _ => Lower.bottomUp f k).run s
    (Lower.onStmt f r.1).run r.2 := by
  rw [Lower.bottomUp]
  rfl

theorem calm (hf : Rewrites known f form) (k : Stmt) (s : Context) :
    s.Calm ((f k).run s).2 := by
  cases hk : form k with
  | false =>
    rw [hf.other k hk]
    exact .refl
  | true =>
    let L := Weight.labelsOutside known k.labelNames
    have hzero : L.of .top k = 0 := Weight.labelsOutside_eq_zero.mpr (List.Subset.refl _)
    rw [Measure.of_eq] at hzero
    exact (hf.costs L [] .top k hk False.elim (Weight.spares_labelsOutside _) (.inl (by omega)) s
      False.elim).1

theorem onStmt_eq_pure (hf : Rewrites known f form) {n : Node c} (hn : form n = false) :
    Lower.onStmt f n = pure n := by
  cases c <;> first | rfl | exact hf.other n hn

/-- The pass keeps what a tree declares on its surface. -/
theorem outline (hf : Rewrites known f form) (n : Node c) (s : Context) :
    Kept n ((Lower.bottomUp f n).run s).1 := by
  induction n using partsInduction generalizing s with
  | @step c n ih =>
    have hkept := Kept.of_parts (parts_traverse lowering (fun _ hk s => ih hk s) s)
    rw [run_bottomUp]
    by_cases hc : c = .stmt
    · subst hc
      exact ⟨.of_isMute rfl _ _, hkept.spans.trans (hf.declSpans _ _)⟩
    · simp only [Lower.onStmt_of_ne hc]
      exact hkept

section

variable {n n' : Node c} {fr : Frame} {s t : Context} {w w' : Weight known}

theorem hasPlainHead_parts (h : Parts SameOutline n n') : n.hasPlainHead = n'.hasPlainHead := by
  cases n
  all_goals
    first
      | obtain rfl := h
        rfl
      | obtain ⟨a, ha, rfl⟩ := h
        rfl
      | obtain ⟨a, ha, b, hb, rfl⟩ := h
        rfl
      | obtain ⟨a, ha, b, hb, c, hc, rfl⟩ := h
        first | rfl | exact congrArg (fun l => !List.any l (·.isInitialised)) ha.decls
      | obtain ⟨a, ha, b, hb, c, hc, d, hd, rfl⟩ := h
        rfl

/-- The parts of a tree have been lowered, and every weight of them has been kept. -/
structure Through (form : ∀ {c : Cat}, Node c → Bool) (w : Weight known) (fr : Frame) (s : Context)
    (n n' : Node c) (t : Context) : Prop where
  parts : Parts Kept n n'
  calm : s.Calm t
  ready : w.Ready form s.names.reserved fr n
  inner : ∀ v v' : Weight known, v.Turns v' form → (v.sees → w.sees) → v.Clean form fr n →
    v.Ends t → (∀ x ∈ t.names.reserved, v.jump x = 0) →
      v'.inner fr n' + v.held s.names = v.inner fr n + v.held t.names

/-- What the labels and breaks of a tree need is known when its parts have been lowered. -/
theorem Through.tracks_end (hf : Rewrites known f form) (h : Through form w fr s n n' t)
    (hn : form n = true) (hknown : t.diagnostics ⊆ known) : w.Tracks t.names.reserved fr n' := by
  intro hs
  obtain ⟨hlabels, hfr, hstray⟩ := h.ready.tracks hs
  have hn' : form n' = true := (hf.form_parts h.parts).symm.trans hn
  refine ⟨?_, List.Subset.trans hfr h.calm.grows.reserved, ?_⟩
  · let L := Weight.labelsOutside known t.names.reserved
    have hown {fr : Frame} {c : Cat} {m : Node c} (hm : form m = true) : L.own fr m = 0 := by
      simp [L, Weight.labelsOutside, hf.ownLabels hm]
    have hzero : L.of fr n = 0 :=
      Weight.labelsOutside_eq_zero.mpr (List.Subset.trans hlabels h.calm.grows.reserved)
    have hbalance := h.inner L L
      ⟨⟨rfl, rfl, fun _ => rfl, hown⟩, rfl, rfl, Weight.spares_labelsOutside _⟩ False.elim
      (.inl ⟨Weight.idle_labelsOutside _, hzero⟩) ⟨hknown, fun _ _ => trivial⟩
      fun x hx => if_pos hx
    have hheld : L.held t.names = L.held s.names :=
      Weight.held_labelsOutside h.calm.steps (List.Subset.refl _)
    refine Weight.labelsOutside_eq_zero.mp (?_ : L.of fr n' = 0)
    rw [Measure.of_eq] at hzero ⊢
    have hown' : L.own fr n' = 0 := hown hn'
    omega
  · let S := Weight.strays known
    have hown {fr : Frame} {c : Cat} {m : Node c} (hm : form m = true) : S.own fr m = 0 := by
      simp [S, Weight.strays, hf.isLeave hm]
    have hspares : S.Spares := by
      intro fr c n h
      have hleave : n.isLeave = false := by cases n <;> first | rfl | cases h
      simp [S, Weight.strays, hleave]
    have hbalance := h.inner S S ⟨⟨rfl, rfl, fun _ => rfl, hown⟩, rfl, rfl, hspares⟩ (fun _ => hs)
      (.inl ⟨fun _ _ => rfl, hstray⟩) ⟨hknown, fun _ _ => trivial⟩
      fun _ _ => rfl
    change S.inner fr n' + 0 = S.inner fr n + 0 at hbalance
    change S.of fr n = 0 at hstray
    change S.of fr n' = 0
    rw [Measure.of_eq] at hstray ⊢
    have hown' : S.own fr n' = 0 := hown hn'
    omega

/-- A tree whose parts have been lowered keeps its weight when it is rewritten, if it is. -/
theorem Through.onStmt (hf : Rewrites known f form) (h : Through form w fr s n n' t)
    (hturn : w.Turns w' form) :
    let r := (Lower.onStmt f n').run t
    t.Calm r.2 ∧ (w.Ends r.2 → (∀ x ∈ r.2.names.reserved, w.jump x = 0) →
      w'.of fr r.1 + w.held s.names = w.of fr n + w.held r.2.names) := by
  have hheld : w'.held = w.held := hturn.held
  cases hn : form n with
  | false =>
    have hrun : Lower.onStmt f n' = pure n' :=
      hf.onStmt_eq_pure ((hf.form_parts h.parts).symm.trans hn)
    rw [hrun]
    refine ⟨.refl, fun hends hpost => ?_⟩
    have hown : w'.own fr n = w'.own fr n' :=
      w'.own_parts (h.parts.imp fun _ hk => ⟨hk.outline, fun _ => hk.spans⟩)
    have hbalance := h.inner w w' hturn id h.ready.clean hends hpost
    change w'.of fr n' + _ = _ + w.held t.names
    rw [Measure.of_eq, Measure.of_eq, ← hown, hturn.agree hn]
    omega
  | true =>
    obtain rfl := hf.isStmt hn
    have hcalm := hf.calm n' t
    refine ⟨hcalm, fun hends hpost => ?_⟩
    have hends' := hends.before hcalm.steps
    have hpost' : ∀ x ∈ t.names.reserved, w.jump x = 0 :=
      fun x hx => hpost x (hcalm.grows.reserved hx)
    have hbalance := h.inner w w' hturn id h.ready.clean hends' hpost'
    have htracks : w'.Tracks t.names.reserved fr n' :=
      fun hs => h.tracks_end hf hn hends'.known (hturn.sees ▸ hs)
    have hclean : w'.inner fr n' = 0 ∨ w'.Plain ∧ n'.hasPlainHead = true := by
      refine h.ready.clean.imp (fun ⟨hidle, hzero⟩ => ?_) fun ⟨hplain, hheads⟩ => ⟨?_, ?_⟩
      · rw [Measure.of_eq] at hzero
        have hheld := hidle h.calm.steps hpost'
        omega
      · intro fr v
        have hv : form (declVar v) = false :=
          Bool.eq_false_iff.mpr fun hv => Cat.noConfusion (hf.isStmt hv)
        rw [hturn.agree hv, hplain]
      · have hhead : (!form n || n.hasPlainHead) = true := (all_iff.mp hheads).1
        have hsame := hasPlainHead_parts (h.parts.imp fun _ hk => hk.outline)
        rwa [hn, Bool.not_true, Bool.false_or, hsame] at hhead
    have hcosts := hf.costs w' t.names.reserved fr n' ((hf.form_parts h.parts).symm.trans hn) htracks
      hturn.spares hclean t fun _ => List.Subset.refl _
    have hbalance' := hcosts.2 (hends.of_admits hturn.admits.symm) fun x hx => (congrFun hturn.jump x).trans (hpost x hx)
    change w'.of fr ((f n').run t).1 + _ = _ + w.held ((f n').run t).2.names
    rw [hheld] at hbalance'
    rw [Measure.of_eq n, hturn.rewritten hn]
    omega

end

/-- The pass keeps every weight. -/
theorem costs_bottomUp (hf : Rewrites known f form) (n : Node c) {w w' : Weight known}
    (hturn : w.Turns w' form) {fr : Frame} (hready : w.Ready form N fr n) :
    w.Costs (w.terms N) (w'.of fr) (w.of fr n) (Lower.bottomUp f n) := by
  induction n using partsInduction generalizing w w' fr with
  | @step c n ih =>
    intro s hs
    have hparts {v v' : Weight known} (hturn : v.Turns v' form) (hready : v.Ready form N fr n) :
        v.Costs (v.terms N) (v'.inner fr) (v.inner fr n)
          (n.traverse fun k _ => Lower.bottomUp f k) :=
      Measure.Costs.traverse_inner fun k hk => ih hk hturn (hready.part hk)
    have hthrough : Through form w fr s n ((n.traverse fun k _ => Lower.bottomUp f k).run s).1
        ((n.traverse fun k _ => Lower.bottomUp f k).run s).2 := by
      refine ⟨parts_traverse lowering (fun k _ s => hf.outline k s) s,
        (hparts hturn hready s hs).1, ⟨fun h => ?_, hready.clean⟩, ?_⟩
      · obtain ⟨hlabels, hfr, hstray⟩ := hready.tracks h
        exact ⟨List.Subset.trans hlabels (hs h), List.Subset.trans hfr (hs h), hstray⟩
      · intro v v' hturn hv hclean
        exact (hparts hturn ⟨fun h => hready.tracks (hv h), hclean⟩ s fun h => hs (hv h)).2
    obtain ⟨hcalm, hweight⟩ := hthrough.onStmt hf hturn
    rw [run_bottomUp]
    exact ⟨hthrough.calm.trans hcalm, hweight⟩

theorem calm_bottomUp (hf : Rewrites known f form) (n : Node c) (s : Context) :
    s.Calm ((Lower.bottomUp f n).run s).2 := by
  let L := Weight.labelsOutside known n.labelNames
  have hzero : L.of .top n = 0 := Weight.labelsOutside_eq_zero.mpr (List.Subset.refl _)
  have hform {fr : Frame} {c : Cat} {m : Node c} (hm : form m = true) : L.own fr m = 0 := by
    simp [L, Weight.labelsOutside, hf.ownLabels hm]
  exact (hf.costs_bottomUp n
    ⟨⟨rfl, rfl, fun _ => rfl, hform⟩, rfl, rfl, Weight.spares_labelsOutside _⟩
    (N := []) ⟨False.elim, .inl ⟨Weight.idle_labelsOutside _, hzero⟩⟩ s False.elim).1

theorem steps_onStmt (hf : Rewrites known f form) (n : Node c) (s : Context) :
    s.Steps ((Lower.onStmt f n).run s).2 := by
  by_cases hc : c = .stmt
  · subst hc
    exact (hf.calm n s).steps
  · rw [Lower.onStmt_of_ne hc]
    exact .refl

theorem steps_traverse (hf : Rewrites known f form) (n : Node c) (s : Context) :
    s.Steps ((n.traverse fun k _ => Lower.bottomUp f k).run s).2 :=
  (visited_traverse stepping (V := fun s {_} _ _ t => s.Steps t)
    (fun k _ s => (hf.calm_bottomUp k s).steps) s).1.le (r := stepping) id

/-- Every part of a tree is lowered in some context on the way. -/
theorem exists_visit (hf : Rewrites known f form) {n : Node c} {d : Cat} {k : Node d}
    (hk : ⟨d, k⟩ ∈ n.children) (s : Context) :
    let r := (n.traverse fun k _ => Lower.bottomUp f k).run s
    ∃ u : Context, s.Steps u ∧ ((Lower.bottomUp f k).run u).2.Steps r.2 ∧
      ⟨d, ((Lower.bottomUp f k).run u).1⟩ ∈ r.1.children :=
  Lower.exists_visit (fun k s => (hf.calm_bottomUp k s).steps) hk s

/-- Every node of a tree is lowered in some context on the way. -/
theorem exists_run (hf : Rewrites known f form) {n : Node c} {d : Cat} {k : Node d}
    (hk : ⟨d, k⟩ ∈ n.nodes) (s : Context) :
    ∃ u : Context, s.Steps u ∧
      ((Lower.bottomUp f k).run u).2.Steps ((Lower.bottomUp f n).run s).2 := by
  induction n using partsInduction generalizing s with
  | step n ih =>
    obtain heq | ⟨m, hm, hk⟩ := mem_nodes.mp hk
    · cases heq
      exact ⟨s, .refl, .refl⟩
    · obtain ⟨u, hu, hv, -⟩ := hf.exists_visit hm s
      obtain ⟨w, hw, hend⟩ := ih hm hk u
      rw [run_bottomUp n]
      exact ⟨w, hu.trans hw, (hend.trans hv).trans (hf.steps_onStmt _ _)⟩

end Rewrites

/-- A pass over a program of one statement whose parts it leaves alone. -/
theorem Lower.run_bottomUp_script {f : Stmt → Lower Stmt} {k : Stmt}
    (h : ∀ {d : Cat} (m : Node d), ⟨d, m⟩ ∈ k.children → bottomUp f m = pure m) (span : Span)
    (interpreter : Option String) (s : Context) :
    (bottomUp f (.scriptProgram span interpreter (.ofList [k]))).run s =
      (.scriptProgram span interpreter (.ofList [((f k).run s).1]), ((f k).run s).2) := by
  have hk : bottomUp f k = f k := by
    rw [bottomUp, Node.traverse_eq_pure h, pure_bind]
    rfl
  have hnil : bottomUp f (.nil : Node (.list .stmt)) = pure .nil := by
    rw [bottomUp]
    rfl
  have hlist : (bottomUp f (.ofList [k])).run s = (.ofList [((f k).run s).1], ((f k).run s).2) := by
    rw [Rewrites.run_bottomUp]
    change (Node.cons ((bottomUp f k).run s).1 ((bottomUp f .nil).run ((bottomUp f k).run s).2).1,
      ((bottomUp f .nil).run ((bottomUp f k).run s).2).2) = _
    rw [hk, hnil]
    rfl
  rw [Rewrites.run_bottomUp]
  change (Node.scriptProgram span interpreter ((bottomUp f (.ofList [k])).run s).1,
    ((bottomUp f (.ofList [k])).run s).2) = _
  rw [hlist]

end PlainJs

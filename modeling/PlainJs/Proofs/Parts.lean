import Mathlib.Data.List.Forall2
import PlainJs.Proofs.Forms

namespace PlainJs

/-- A value of which only a property is known. -/
structure Choice (α : Type) where
  holds : α → Prop

namespace Choice

instance : Monad Choice where
  pure a := ⟨fun b => b = a⟩
  bind x f := ⟨fun b => ∃ a, x.holds a ∧ (f a).holds b⟩

@[simp] theorem holds_pure {α : Type} (a b : α) : (pure a : Choice α).holds b ↔ b = a := Iff.rfl

@[simp] theorem holds_bind {α β : Type} (x : Choice α) (f : α → Choice β) (b : β) :
    (x >>= f).holds b ↔ ∃ a, x.holds a ∧ (f a).holds b := Iff.rfl

end Choice

/-- A way to run computations on a state, and the order in which their states may follow each
other. -/
structure Course (m : Type → Type) [Monad m] (σ : Type) where
  run : {α : Type} → m α → σ → α × σ
  run_pure : ∀ {α : Type} (a : α) (s : σ), run (pure a) s = (a, s)
  run_bind : ∀ {α β : Type} (x : m α) (f : α → m β) (s : σ),
    run (x >>= f) s = run (f (run x s).1) (run x s).2
  Le : σ → σ → Prop
  refl : ∀ s, Le s s
  trans : ∀ {s t u}, Le s t → Le t u → Le s u

namespace Course

variable {m : Type → Type} [Monad m] {σ α β : Type} {r : Course m σ} {s : σ}

/-- From any state after `s`, `x` moves on and gives a value that `X` grants at the state where it
ends. -/
def Meets (r : Course m σ) (s : σ) (x : m α) (X : σ → Choice α) : Prop :=
  ∀ t, r.Le s t → r.Le t (r.run x t).2 ∧ (X (r.run x t).2).holds (r.run x t).1

theorem Meets.pure (a : α) : r.Meets s (Pure.pure a) fun _ => Pure.pure a := by
  intro t _
  rw [r.run_pure]
  exact ⟨r.refl t, rfl⟩

theorem Meets.bind {x : m α} {X : σ → Choice α} {f : α → m β} {F : σ → α → Choice β}
    (mono : ∀ t u a, r.Le t u → (X t).holds a → (X u).holds a)
    (hx : r.Meets s x X) (hf : ∀ a, r.Meets s (f a) fun t => F t a) :
    r.Meets s (x >>= f) fun t => X t >>= F t := by
  intro t ht
  obtain ⟨h₁, ha⟩ := hx t ht
  obtain ⟨h₂, hb⟩ := hf (r.run x t).1 _ (r.trans ht h₁)
  rw [r.run_bind]
  exact ⟨r.trans h₁ h₂, _, mono _ _ _ h₂ ha, hb⟩

end Course

namespace Args

variable {P P' : ∀ {d : Cat}, Node d → Node d → Prop} {ds : List Cat} {args args' : Args ds}

/-- Parts that are related, each with the one in its place. -/
def Related (P : ∀ {d : Cat}, Node d → Node d → Prop) : {ds : List Cat} → Args ds → Args ds → Prop
  | [], _, _ => True
  | _ :: _, args, args' => P args.1 args'.1 ∧ args.2.Related P args'.2

theorem Related.imp (h : args.Related P args')
    (hP : ∀ {d : Cat} {k k' : Node d}, ⟨d, k⟩ ∈ args.toList → P k k' → P' k k') :
    args.Related P' args' := by
  induction ds with
  | nil => trivial
  | cons d ds ih => exact ⟨hP (.head _) h.1, ih h.2 fun hk => hP (.tail _ hk)⟩

theorem Related.map_eq {g : ∀ {d : Cat}, Node d → Node d} (h : args.Related P args')
    (hP : ∀ {d : Cat} {k k' : Node d}, P k k' → g k = g k') : args.map g = args'.map g := by
  induction ds with
  | nil => rfl
  | cons d ds ih => exact congrArg₂ Prod.mk (hP h.1) (ih h.2)

theorem related_map (g : ∀ {d : Cat}, Node d → Node d) (args : Args ds) :
    args.Related (fun k k' => k' = g k) (args.map g) := by
  induction ds with
  | nil => trivial
  | cons d ds ih => exact ⟨rfl, ih args.2⟩

/-- What is known of the parts after visits that only know their own part. -/
theorem holds_visit {α : Type} {next : Args ds → Choice α} {b : α} :
    (args.visit (fun k _ => (⟨P k⟩ : Choice _)) next).holds b ↔
      ∃ args', args.Related P args' ∧ (next args').holds b := by
  induction ds with
  | nil => exact ⟨fun h => ⟨args, trivial, h⟩, fun ⟨_, _, h⟩ => h⟩
  | cons d ds ih =>
    rw [visit, Choice.holds_bind]
    constructor
    · rintro ⟨a, ha, h⟩
      obtain ⟨rest, hrest, h⟩ := ih.mp h
      exact ⟨(a, rest), ⟨ha, hrest⟩, h⟩
    · rintro ⟨args', ⟨ha, hrest⟩, h⟩
      exact ⟨args'.1, ha, ih.mpr ⟨args'.2, hrest, h⟩⟩

theorem meets_visit {m : Type → Type} [Monad m] {σ α : Type} {r : Course m σ} {s : σ}
    {P : σ → ∀ {d : Cat}, Node d → Node d → Prop} {ds : List Cat} {args : Args ds}
    {f : {d : Cat} → (k : Node d) → ⟨d, k⟩ ∈ args.toList → m (Node d)} {g : Args ds → α}
    (mono : ∀ {s t} {d : Cat} {k k' : Node d}, r.Le s t → P s k k' → P t k k')
    (h : ∀ {d : Cat} (k : Node d) (hk : ⟨d, k⟩ ∈ args.toList),
      r.Meets s (f k hk) fun t => ⟨P t k⟩) :
    r.Meets s (args.visit (fun k hk => f k hk) fun args => pure (g args)) fun t =>
      args.visit (fun k _ => ⟨P t k⟩) fun args => pure (g args) := by
  induction ds with
  | nil => exact .pure _
  | cons d ds ih =>
    exact .bind (fun _ _ _ hs hp => mono hs hp) (h _ _) fun a => ih fun k hk => h k (.tail _ hk)

end Args

namespace Node

variable {P P' : ∀ {d : Cat}, Node d → Node d → Prop} {c : Cat} {n n' : Node c}

/-- Trees of the same form whose parts are related. -/
def Parts (P : ∀ {d : Cat}, Node d → Node d → Prop) (n n' : Node c) : Prop :=
  (n.traverse fun k _ => (⟨P k⟩ : Choice _)).holds n'

theorem parts_node_iff {form : Form c} {args : Args form.places} :
    Parts P (form.node args) n' ↔ ∃ args', args.Related P args' ∧ n' = form.node args' := by
  rw [Parts, form.traverse_node]
  exact Args.holds_visit

/-- Trees of the same form are one form that is filled twice. -/
theorem Parts.exists_form (h : Parts P n n') : ∃ (form : Form c) (args args' : Args form.places),
    form.node args = n ∧ form.node args' = n' ∧ args.Related P args' := by
  obtain ⟨form, args, rfl⟩ := n.exists_form
  obtain ⟨args', hargs, rfl⟩ := parts_node_iff.mp h
  exact ⟨form, args, args', rfl, rfl, hargs⟩

theorem Parts.of_traverse {m : Type → Type} [Monad m] {σ : Type} {r : Course m σ} {s : σ}
    {P : σ → ∀ {d : Cat}, Node d → Node d → Prop}
    {f : {d : Cat} → (k : Node d) → ⟨d, k⟩ ∈ n.children → m (Node d)}
    (mono : ∀ {s t} {d : Cat} {k k' : Node d}, r.Le s t → P s k k' → P t k k')
    (h : ∀ {d : Cat} (k : Node d) (hk : ⟨d, k⟩ ∈ n.children),
      r.Meets s (f k hk) fun t => ⟨P t k⟩) :
    r.Meets s (n.traverse fun k hk => f k hk) fun t => n.traverse fun k _ => ⟨P t k⟩ := by
  obtain ⟨form, args, rfl⟩ := n.exists_form
  rw [form.traverse_node]
  simp only [form.traverse_node]
  exact Args.meets_visit mono fun k _ => h k _

/-- Two parts in the same place. -/
inductive Paired (P : ∀ {d : Cat}, Node d → Node d → Prop) : Sigma Node → Sigma Node → Prop
  | mk {d : Cat} {k k' : Node d} : P k k' → Paired P ⟨d, k⟩ ⟨d, k'⟩

theorem paired_of_related {ds : List Cat} {args args' : Args ds} (h : args.Related P args') :
    List.Forall₂ (Paired P) args.toList args'.toList := by
  induction ds with
  | nil => exact .nil
  | cons d ds ih => exact .cons (.mk h.1) (ih h.2)

theorem Parts.children (h : Parts P n n') :
    List.Forall₂ (Paired P) n.children n'.children := by
  obtain ⟨form, args, args', rfl, rfl, hargs⟩ := h.exists_form
  rw [form.children_node, form.children_node]
  exact paired_of_related hargs

theorem flatMap_eq_of_paired {β : Type} {g : ∀ {d : Cat}, Node d → List β} {l l' : List (Sigma Node)}
    (h : List.Forall₂ (Paired P) l l') (hP : ∀ {d : Cat} {k k' : Node d}, P k k' → g k = g k') :
    (l.flatMap fun k => g k.2) = l'.flatMap fun k => g k.2 := by
  induction h with
  | nil => rfl
  | cons hk _ ih =>
    obtain ⟨hk⟩ := hk
    simp only [List.flatMap_cons, ih, hP hk]

theorem Parts.imp (h : Parts P n n')
    (hP : ∀ {d : Cat} {k k' : Node d}, ⟨d, k⟩ ∈ n.children → P k k' → P' k k') :
    Parts P' n n' := by
  obtain ⟨form, args, args', rfl, rfl, hargs⟩ := h.exists_form
  rw [form.children_node] at hP
  exact parts_node_iff.mpr ⟨args', hargs.imp hP, rfl⟩

/-- A tree with changed parts. -/
def mapParts (g : ∀ {d : Cat}, Node d → Node d) (n : Node c) : Node c :=
  Id.run (n.traverse fun k _ => pure (g k))

theorem mapParts_node (g : ∀ {d : Cat}, Node d → Node d) {form : Form c}
    (args : Args form.places) : (form.node args).mapParts g = form.node (args.map g) := by
  rw [mapParts, form.traverse_node, Args.visit_pure]
  rfl

theorem Parts.mapParts_eq {g : ∀ {d : Cat}, Node d → Node d} (h : Parts P n n')
    (hP : ∀ {d : Cat} {k k' : Node d}, P k k' → g k = g k') : n.mapParts g = n'.mapParts g := by
  obtain ⟨form, args, args', rfl, rfl, hargs⟩ := h.exists_form
  rw [mapParts_node, mapParts_node, hargs.map_eq hP]

/-- Some tree of each category. -/
def blank : (c : Cat) → Node c
  | .expr => .atom .none (.bool false)
  | .pat => .invalidPat .none
  | .patProp => .shortPat .none (.ofName "") .none
  | .key => .fixedKey .none (.name "")
  | .prop => .shortProp (.ofName "")
  | .arg => .plainArg (.atom .none (.bool false))
  | .callee => .superCallee .none
  | .func => .func .none 0 false false .nil .nil .none
  | .param => .param .none .nil (.invalidPat .none)
  | .decorator => .decorator .none (.atom .none (.bool false))
  | .cls => .cls .none 0 .nil .nil .none
  | .member => .emptyMember .none
  | .arrowBody => .exprBody (.atom .none (.bool false))
  | .block => .block .none 0 .nil
  | .stmt => .emptyStmt .none
  | .decl => .declVar (.varDecl .none 0 .var false .nil)
  | .varDecl => .varDecl .none 0 .var false .nil
  | .declarator => .declarator .none false (.invalidPat .none) .none
  | .clause => .clause .none .none .nil
  | .handler => .handler .none .none (.block .none 0 .nil)
  | .forInit => .initExpr (.atom .none (.bool false))
  | .forHead => .headPat (.invalidPat .none)
  | .item => .stmtItem (.emptyStmt .none)
  | .program => .scriptProgram .none Option.none .nil
  | .list _ => .nil
  | .opt _ => .none

/-- What only depends on the form of a tree is the same for trees of the same form. -/
theorem Parts.form_eq {β : Type} (h : Parts P n n') (f : Node c → β)
    (hf : ∀ m : Node c, f (m.mapParts fun {d} _ => blank d) = f m) : f n = f n' := by
  rw [← hf n, ← hf n', h.mapParts_eq fun _ => rfl]

/-- The parts of a changed tree are the changed parts. -/
theorem Parts.of_mapParts (g : ∀ {d : Cat}, Node d → Node d) (n : Node c) :
    Parts (fun k k' => k' = g k) n (n.mapParts g) := by
  obtain ⟨form, args, rfl⟩ := n.exists_form
  exact parts_node_iff.mpr ⟨args.map g, args.related_map g, mapParts_node g args⟩

theorem mapParts_id (n : Node c) : (n.mapParts fun k => k) = n := by
  obtain ⟨form, args, rfl⟩ := n.exists_form
  rw [mapParts_node, Args.map_id]

/-- A tree has its own form. -/
theorem Parts.refl (h : ∀ {d : Cat} {k : Node d}, ⟨d, k⟩ ∈ n.children → P k k) : Parts P n n := by
  have hid := Parts.of_mapParts (fun k => k) n
  rw [mapParts_id] at hid
  exact hid.imp fun hk he => he.symm ▸ h hk

end Node

end PlainJs

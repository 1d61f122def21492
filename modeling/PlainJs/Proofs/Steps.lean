import PlainJs.Proofs.FreshNames
import PlainJs.Proofs.Parts

namespace PlainJs

namespace Context

/-- A context after a name has been made. -/
def withFresh (t : Context) (hint : String) : Context :=
  { t with names := (t.names.fresh hint).2 }

/-- A context after a label has been made. -/
def withFreshLabel (t : Context) (hint : String) : Context :=
  { t with names := (t.names.freshLabel hint).2 }

/-- The contexts that come after `s` while something is lowered. -/
inductive Steps (s : Context) : Context → Prop
  | refl : Steps s s
  | fresh {t : Context} (hint : String) (stem : hint ∈ NameSupply.hints) :
      Steps s t → Steps s (t.withFresh hint)
  | freshLabel {t : Context} (hint : String) (stem : hint ∈ NameSupply.labelHints) :
      Steps s t → Steps s (t.withFreshLabel hint)
  | record {t : Context} (d : Diagnostic) (first : d.isFatal = true → t.hasFatal = false) :
      Steps s t → Steps s (t.record d)

/-- How a context may change while a tree is lowered. -/
structure Grows (s t : Context) : Prop where
  config : t.config = s.config
  reserved : s.names.reserved ⊆ t.names.reserved
  diagnostics : ∃ new, t.diagnostics = s.diagnostics ++ new

theorem Grows.refl (s : Context) : s.Grows s :=
  ⟨rfl, List.Subset.refl _, [], (List.append_nil _).symm⟩

theorem Grows.trans {s t u : Context} (h : s.Grows t) (h' : t.Grows u) : s.Grows u := by
  obtain ⟨new, hnew⟩ := h.diagnostics
  obtain ⟨new', hnew'⟩ := h'.diagnostics
  exact ⟨h'.config.trans h.config, List.Subset.trans h.reserved h'.reserved, new ++ new', by
    rw [hnew', hnew, List.append_assoc]⟩

theorem Grows.subset {s t : Context} (h : s.Grows t) : s.diagnostics ⊆ t.diagnostics := by
  obtain ⟨new, hnew⟩ := h.diagnostics
  exact hnew ▸ List.subset_append_left _ _

theorem Grows.hasFatal {s t : Context} (h : s.Grows t) (ht : t.hasFatal = false) :
    s.hasFatal = false := by
  obtain ⟨new, hnew⟩ := h.diagnostics
  simp only [Context.hasFatal, hnew, List.any_append, Bool.or_eq_false_iff] at ht
  exact ht.1

theorem grows_withFresh (t : Context) (hint : String) : t.Grows (t.withFresh hint) :=
  ⟨rfl, List.subset_cons_self _ _, [], (List.append_nil _).symm⟩

theorem grows_withFreshLabel (t : Context) (hint : String) : t.Grows (t.withFreshLabel hint) :=
  ⟨rfl, List.subset_cons_self _ _, [], (List.append_nil _).symm⟩

namespace Steps

variable {s t u : Context}

theorem trans (h : s.Steps t) (h' : t.Steps u) : s.Steps u := by
  induction h' with
  | refl => exact h
  | fresh hint stem _ ih => exact .fresh hint stem ih
  | freshLabel hint stem _ ih => exact .freshLabel hint stem ih
  | record d first _ ih => exact .record d first ih

theorem grows (h : s.Steps t) : s.Grows t := by
  induction h with
  | refl => exact .refl s
  | fresh hint _ _ ih => exact ih.trans (grows_withFresh _ hint)
  | freshLabel hint _ _ ih => exact ih.trans (grows_withFreshLabel _ hint)
  | record d _ _ ih => exact ih.trans ⟨rfl, List.Subset.refl _, [d], rfl⟩

theorem made (h : s.Steps t) : s.names.made ⊆ t.names.made := by
  induction h with
  | refl => exact List.Subset.refl _
  | fresh _ _ _ ih | freshLabel _ _ _ ih => exact List.subset_cons_of_subset _ ih
  | record _ _ _ ih => exact ih

theorem scopes (h : s.Steps t) : t.scopes = s.scopes := by
  induction h with
  | refl => rfl
  | fresh _ _ _ ih | freshLabel _ _ _ ih | record _ _ _ ih => exact ih

/-- A name that has been made comes from one of the hints. -/
theorem stems (h : s.Steps t) {x : String} (hx : x ∈ t.names.reserved) :
    x ∈ s.names.reserved ∨
      ∃ hint ∈ NameSupply.hints ++ NameSupply.labelHints, NameSupply.Stems hint x := by
  induction h with
  | refl => exact .inl hx
  | @fresh t hint stem _ ih | @freshLabel t hint stem _ ih =>
    rcases List.mem_cons.mp hx with rfl | hx
    · exact .inr ⟨hint, by simp [stem], t.names.stems_pick hint⟩
    · exact ih hx
  | record _ _ _ ih => exact ih hx

end Steps

/-- What comes after `s` without anything fatal being recorded. -/
structure Calm (s t : Context) : Prop where
  steps : s.Steps t
  hasFatal : t.hasFatal = s.hasFatal

namespace Calm

variable {s t u : Context}

theorem refl : s.Calm s := ⟨.refl, rfl⟩

theorem fresh {hint : String} (stem : hint ∈ NameSupply.hints) (h : s.Calm t) :
    s.Calm (t.withFresh hint) :=
  ⟨.fresh hint stem h.steps, h.hasFatal⟩

theorem freshLabel {hint : String} (stem : hint ∈ NameSupply.labelHints) (h : s.Calm t) :
    s.Calm (t.withFreshLabel hint) :=
  ⟨.freshLabel hint stem h.steps, h.hasFatal⟩

theorem record (d : Diagnostic) (hd : d.isFatal = false) (h : s.Calm t) : s.Calm (t.record d) := by
  refine ⟨.record d (fun h => Bool.noConfusion (hd.symm.trans h)) h.steps, ?_⟩
  rw [← h.hasFatal]
  simp [Context.hasFatal, Context.record, hd]

theorem trans (h : s.Calm t) (h' : t.Calm u) : s.Calm u :=
  ⟨h.steps.trans h'.steps, h'.hasFatal.trans h.hasFatal⟩

theorem grows (h : s.Calm t) : s.Grows t := h.steps.grows

end Calm

end Context

/-- A supply that has started with the names in `base` and has handed out every name once. -/
structure NameSupply.Tidy (base : List String) (s : NameSupply) : Prop where
  known : base ⊆ s.reserved
  made : s.made ⊆ s.reserved
  labels : s.madeLabels.Sublist s.made
  nodup : s.made.Nodup
  apart : ∀ x ∈ s.made, x ∉ base

namespace NameSupply

variable {base : List String} {s : NameSupply}

theorem tidy_avoiding (names : List String) : (avoiding names).Tidy names :=
  ⟨List.Subset.refl _, List.nil_subset _, .slnil, .nil, nofun⟩

theorem Tidy.fresh (h : s.Tidy base) (hint : String) : (s.fresh hint).2.Tidy base where
  known := List.subset_cons_of_subset _ h.known
  made := List.cons_subset_cons _ h.made
  labels := h.labels.cons _
  nodup := List.nodup_cons.mpr ⟨fun hmem => s.pick_notMem hint (h.made hmem), h.nodup⟩
  apart := by
    refine List.forall_mem_cons.mpr ⟨fun hmem => ?_, h.apart⟩
    exact s.pick_notMem hint (h.known hmem)

theorem Tidy.freshLabel (h : s.Tidy base) (hint : String) : (s.freshLabel hint).2.Tidy base :=
  { h.fresh hint with labels := h.labels.cons_cons _ }

end NameSupply

theorem Context.Steps.tidy {base : List String} {s t : Context} (h : s.Steps t)
    (hs : s.names.Tidy base) : t.names.Tidy base := by
  induction h with
  | refl => exact hs
  | fresh hint _ _ ih => exact ih.fresh hint
  | freshLabel hint _ _ ih => exact ih.freshLabel hint
  | record _ _ _ ih => exact ih

theorem run_fresh (t : Context) (hint : String) :
    (Lower.fresh hint).run t = (.ofName (t.names.pick hint), t.withFresh hint) := rfl

theorem run_freshLabel (t : Context) (hint : String) :
    (Lower.freshLabel hint).run t = (.ofName (t.names.pick hint), t.withFreshLabel hint) := rfl

theorem Lower.onStmt_of_ne {f : Stmt → Lower Stmt} {c : Cat} (h : c ≠ .stmt) (n : Node c) :
    Lower.onStmt f n = pure n := by
  cases c <;> first | rfl | exact absurd rfl h

/-- Lowering as a run on the context. -/
def lowering : Course Lower Context where
  run x s := x.run s
  run_pure _ _ := rfl
  run_bind _ _ _ := rfl
  Le := Context.Grows
  refl := .refl
  trans := .trans

/-- Lowering as a run on contexts that follow each other step by step. -/
def stepping : Course Lower Context where
  run := lowering.run
  run_pure := lowering.run_pure
  run_bind := lowering.run_bind
  Le := Context.Steps
  refl _ := .refl
  trans := .trans

end PlainJs

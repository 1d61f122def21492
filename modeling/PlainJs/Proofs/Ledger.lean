import Mathlib.Algebra.BigOperators.Group.List.Basic
import PlainJs.Proofs.Carried
import PlainJs.Proofs.Collected

namespace PlainJs

namespace Node

/-- The names that a node declares itself. -/
def ownDeclared : {c : Cat} → Node c → List String
  | _, .declarator _ _ target _ | _, .param _ _ target => target.boundIdents.map (·.name)
  | _, .arrow _ _ _ _ params _ => params.boundIdents.map (·.name)
  | _, .setterProp _ _ target _ => target.boundIdents.map (·.name)
  | _, .handler _ target _ => target.boundIdents.map (·.name)
  | _, .declFunc _ name _ | _, .declClass _ name _ => [name.name]
  | _, .exportFunc _ name _ | _, .exportClass _ name _ => name.toList.map (·.name)
  | _, .importItem i => i.specifiers.map (·.here.name)
  | _, _ => []

/-- The label that a node puts on a statement. -/
def ownPlaced : {c : Cat} → Node c → List String
  | _, .labeledStmt _ label _ => [label.name]
  | _, _ => []

/-- The names that are declared in a tree, each as often as it is declared. -/
def declared {c : Cat} (n : Node c) : List String := n.gather ownDeclared

/-- The labels of the statements in a tree, each as often as it is there. -/
def placed {c : Cat} (n : Node c) : List String := n.gather ownPlaced

variable {own : ∀ {d : Cat}, Node d → List String} {c : Cat} {n n' : Node c} {x : String}

theorem gather_subset_names (hown : ∀ {d : Cat} (k : Node d), own k ⊆ k.names) (n : Node c) :
    n.gather own ⊆ n.names := by
  induction n using partsInduction with
  | step n ih =>
    intro x hx
    rw [gather] at hx
    rcases List.mem_append.mp hx with hx | hx
    · exact hown n hx
    · obtain ⟨⟨k, hk⟩, -, hx⟩ := List.mem_flatMap.mp hx
      exact mem_names.mpr (.inr ⟨_, _, hk, ih hk hx⟩)

theorem placed_subset_names (n : Node c) : n.placed ⊆ n.names := by
  refine gather_subset_names (fun k x hx => mem_names.mpr (.inl (List.mem_append_left _ ?_))) n
  unfold ownPlaced at hx
  split at hx
  · exact hx
  · cases hx

theorem declared_subset_names (n : Node c) : n.declared ⊆ n.names := by
  refine gather_subset_names (fun k x hx => ?_) n
  have bound {d : Cat} {target : Node d} (hk : ⟨d, target⟩ ∈ k.children)
      (hx : x ∈ target.boundIdents.map (·.name)) : x ∈ k.names := by
    obtain ⟨id, hid, rfl⟩ := List.mem_map.mp hx
    exact mem_names.mpr (.inr ⟨_, _, hk, mem_names_of_boundIdents hid⟩)
  have here (hx : x ∈ (ScopeTable.ownIdents k).map (·.name)) : x ∈ k.names :=
    mem_names.mpr (.inl (List.mem_append_right _ hx))
  unfold ownDeclared at hx
  split at hx
  · exact bound (.head _) hx
  · exact bound (.tail _ (.head _)) hx
  · exact bound (.head _) hx
  · exact bound (.tail _ (.head _)) hx
  · exact bound (.head _) hx
  · exact here hx
  · exact here hx
  · exact here hx
  · exact here hx
  · obtain ⟨i, hi, rfl⟩ := List.mem_map.mp hx
    refine here (List.mem_map_of_mem (List.mem_flatMap.mpr ⟨i, hi, ?_⟩))
    cases i <;> exact .head _
  · cases hx

theorem ownDeclared_of_parts (h : Parts SameOutline n n') : n.ownDeclared = n'.ownDeclared := by
  cases n
  all_goals
    first
      | obtain rfl := h
        rfl
      | obtain ⟨a, ha, rfl⟩ := h
        rfl
      | obtain ⟨a, ha, b, hb, rfl⟩ := h
        first
          | rfl
          | exact congrArg (List.map (·.name)) ha.idents
          | exact congrArg (List.map (·.name)) hb.idents
      | obtain ⟨a, ha, b, hb, c, hc, h⟩ := h
        first
          | obtain rfl := h
          | obtain ⟨d, hd, rfl⟩ := h
        first
          | rfl
          | exact congrArg (List.map (·.name)) hb.idents

end Node

open Node

namespace Weight

variable {known : List Diagnostic} {all : Bool} {x : String} {fr : Frame}

theorem count_singleton_append (y : String) (l : List String) (x : String) :
    (y :: l).count x = [y].count x + l.count x := by
  rw [← List.count_append, List.singleton_append]

/-- Counts the statements with a given label, and with `all` the declarations of this name too. -/
def tally (known : List Diagnostic) (all : Bool) (x : String) : Weight known where
  own _ {_} n := (if all then n.ownDeclared.count x else 0) + n.ownPlaced.count x
  mark y := if all then [y].count x else 0
  held s := (if all then s.made else s.madeLabels).count x
  markLabel y := [y].count x
  jump _ := 0
  sees := False
  own_glue {_ _ n} h := by
    have hown : n.ownDeclared = [] ∧ n.ownPlaced = [] := by
      cases n <;> first | exact ⟨rfl, rfl⟩ | cases h
    simp [hown.1, hown.2]
  own_declarator := by
    intro fr span definite p init
    cases all with
    | false => simp [ownPlaced]
    | true =>
      simp only [ownDeclared, ownPlaced, if_true, List.count_nil, Nat.add_zero]
      induction p.boundIdents with
      | nil => rfl
      | cons id ids ih =>
        rw [List.map_cons, List.map_cons, List.sum_cons, ← ih, count_singleton_append]
  own_parts h := by
    rw [ownDeclared_of_parts (h.imp fun _ hk => hk.1),
      h.form_eq ownPlaced fun m => by cases m <;> rfl]
  held_fresh s hint _ _ := by
    cases all with
    | false => exact (Nat.zero_add _).symm
    | true => exact count_singleton_append _ _ _
  own_handler := rfl
  own_class {_ _ _ _} := by cases all <;> rfl
  own_labeled _ := by simp [ownDeclared, ownPlaced]
  own_break _ := by simp [ownDeclared, ownPlaced]
  own_leave _ := by simp [ownDeclared, ownPlaced]
  own_frame _ := rfl
  held_freshLabel s hint := by cases all <;> exact count_singleton_append _ _ _

theorem tally_eq {c : Cat} (n : Node c) : (tally known all x).of fr n =
    (if all then n.declared.count x else 0) + n.placed.count x := by
  induction n using partsInduction generalizing fr with
  | step n ih =>
    rw [Measure.of_eq, Measure.inner, List.map_congr_left fun k hk => ih hk, declared, placed,
      count_gather, count_gather, List.sum_map_add]
    cases all with
    | false => simp [tally, placed]
    | true =>
      simp only [tally, declared, placed, if_true]
      omega

theorem carried_tally (known : List Diagnostic) (all : Bool) (x : String) :
    (tally known all x).Carried where
  own_form stage {fr c n} h := by
    have hown : n.ownDeclared = [] ∧ n.ownPlaced = [] := by
      cases n <;> first | exact ⟨rfl, rfl⟩ | (cases stage <;> exact Bool.noConfusion h)
    simp [tally, hown.1, hown.2]
  blind := id
  jump _ := rfl
  admits _ := trivial

end Weight

namespace Lowering

/-- All stages together place what the supply hands out, and nothing else. -/
theorem tally_stages {p : Program} (cx : Context) (hheads : p.all hasPlainHead = true) (all : Bool)
    (x : String) :
    let r := (stages p).run cx
    let w := Weight.tally r.2.diagnostics all x
    w.of .top r.1 + w.held cx.names = w.of .top p + w.held r.2.names :=
  carried_stages cx hheads _ (Weight.carried_tally _ all x)

theorem count_stages (config : Config) {p : Program} (hheads : p.all hasPlainHead = true)
    (all : Bool) (x : String) :
    let r := (stages p).run (.start config p)
    (if all then r.1.declared.count x else 0) + r.1.placed.count x =
      (if all then p.declared.count x else 0) + p.placed.count x +
        (if all then r.2.names.made else r.2.names.madeLabels).count x := by
  have h := tally_stages (.start config p) hheads all x
  have hstart (known : List Diagnostic) :
      (Weight.tally known all x).held (Context.start config p).names = 0 := by cases all <;> rfl
  dsimp only at h
  rw [Weight.tally_eq, Weight.tally_eq, hstart, Nat.add_zero] at h
  exact h

end Lowering

namespace NameSupply

/-- The identifiers that have been handed out. -/
def madeIdents (s : NameSupply) : List String := s.made.filter fun x => !s.isMadeLabel x

variable {base : List String} {s : NameSupply}

theorem Tidy.count_made (h : s.Tidy base) (x : String) :
    s.made.count x = s.madeIdents.count x + s.madeLabels.count x := by
  by_cases hx : x ∈ s.madeLabels
  · have hident : x ∉ s.madeIdents := by simp [madeIdents, isMadeLabel, hx]
    rw [List.count_eq_one_of_mem h.nodup (h.labels.subset hx),
      List.count_eq_one_of_mem (h.nodup.sublist h.labels) hx, List.count_eq_zero_of_not_mem hident]
  · have hident : (!s.isMadeLabel x) = true := by simp [isMadeLabel, hx]
    rw [madeIdents, List.count_filter (p := fun x => !s.isMadeLabel x) hident, List.count_eq_zero_of_not_mem hx, Nat.add_zero]

end NameSupply

/-- Names are conserved and fresh names are fresh. The supply hands out no name twice and none that
occurs in the program. In the lowered program each label that has been handed out is on one
statement, and the names that are declared are those of the given program and, once each, the
identifiers that have been handed out. -/
theorem lowerProgram_conserves_names (config : Config) (p : Program)
    (hvalid : config.validate = .ok ()) (hopen : p.all isOpen = true)
    (hheads : p.all hasPlainHead = true) :
    let r := (Lowering.run p).run (.start config p)
    lowerProgram config p = .ok ⟨r.1, r.2.diagnostics⟩ ∧
      r.2.names.made.Nodup ∧ (∀ x ∈ r.2.names.made, x ∉ p.names) ∧
      (∀ l ∈ r.2.names.madeLabels, r.1.placed.count l = 1) ∧
      (∀ x ∈ r.2.names.madeIdents, r.1.declared.count x = 1) ∧
      r.1.declared.Perm (p.declared ++ r.2.names.madeIdents) := by
  intro r
  have hprogram : r.1 = ((Lowering.stages p).run (.start config p)).1 := rfl
  have hnames : r.2.names = ((Lowering.stages p).run (.start config p)).2.names :=
    Lowering.names_finish _ _
  have htidy : r.2.names.Tidy (Context.start config p).names.reserved :=
    hnames ▸ (Lowering.steps_stages p _).tidy (NameSupply.tidy_avoiding _)
  have hfresh : ∀ x ∈ r.2.names.made, x ∉ p.names :=
    fun x hx hmem => htidy.apart x hx (names_subset_reserved config hopen hmem)
  have hplaced (x : String) :
      r.1.placed.count x = p.placed.count x + r.2.names.madeLabels.count x := by
    have h := Lowering.count_stages config hheads false x
    rw [hnames, hprogram]
    simpa using h
  have hdeclared (x : String) :
      r.1.declared.count x = p.declared.count x + r.2.names.madeIdents.count x := by
    have h := Lowering.count_stages config hheads true x
    have hmade := htidy.count_made x
    have hlabels := hplaced x
    rw [hnames] at hmade hlabels ⊢
    rw [hprogram] at hlabels ⊢
    simp only [if_true] at h
    omega
  refine ⟨Lowering.lowerProgram_eq hvalid p, htidy.nodup, hfresh, fun l hl => ?_, fun x hx => ?_, ?_⟩
  · have hold : l ∉ p.placed :=
      fun h => hfresh l (htidy.labels.subset hl) (placed_subset_names p h)
    rw [hplaced, List.count_eq_zero_of_not_mem hold,
      List.count_eq_one_of_mem (htidy.nodup.sublist htidy.labels) hl]
  · have hmade : x ∈ r.2.names.made := List.mem_of_mem_filter hx
    have hold : x ∉ p.declared := fun h => hfresh x hmade (declared_subset_names p h)
    have hnodup : r.2.names.madeIdents.Nodup := htidy.nodup.filter _
    rw [hdeclared, List.count_eq_zero_of_not_mem hold, List.count_eq_one_of_mem hnodup hx]
  · refine List.perm_iff_count.mpr fun x => ?_
    rw [hdeclared, List.count_append]

/-- `for (const [a, b] of xs) { if (a) continue; f(b); }` -/
def pairRounds : Program :=
  let names : Pat := .arrayPat .none false
    (.ofList [.some (.binder (.ofName "a")), .some (.binder (.ofName "b"))])
  .scriptProgram .none none (.ofList [
    .forOfStmt .none false
      (.headDecl (.varDecl .none 0 .const false (.ofList [.declarator .none false names .none])))
      (Build.name "xs")
      (Build.blockStmt .none [Build.ifElse (Build.name "a") (.continueStmt .none none) none,
        Build.exprStmt (Build.call (Build.name "f") [Build.name "b"])])])

theorem lowerProgram_conserves_names_pairRounds :
    let r := (Lowering.run pairRounds).run (.start .default pairRounds)
    Config.default.validate = .ok () ∧ pairRounds.all isOpen = true ∧
      pairRounds.all hasPlainHead = true ∧
        r.1.declared.Perm (pairRounds.declared ++ r.2.names.madeIdents) := by
  have hvalid : Config.default.validate = .ok () := by decide +kernel
  have hopen : pairRounds.all isOpen = true := by decide +kernel
  have hheads : pairRounds.all hasPlainHead = true := by decide +kernel
  exact ⟨hvalid, hopen, hheads,
    (lowerProgram_conserves_names .default pairRounds hvalid hopen hheads).2.2.2.2.2⟩

end PlainJs

import PlainJs.Proofs.Carried
import PlainJs.Proofs.Collected

namespace PlainJs

/-- How far a declaration reaches. -/
inductive Reach
  | scope | function | program
deriving DecidableEq

namespace Span

/-- Neither range reaches into the other. -/
def apart (a b : Span) : Bool := a.hi ≤ b.lo || b.hi ≤ a.lo

theorem apart_comm (a b : Span) : a.apart b = b.apart a := Bool.or_comm _ _

/-- A range that is not empty does not lie in one that is apart from it. -/
theorem not_contains_of_apart {a b : Span} (h : a.apart b = true) (hb : b.lo < b.hi) :
    a.contains b = false := by
  simp only [apart, Bool.or_eq_true, decide_eq_true_eq] at h
  rw [contains, Bool.and_eq_false_iff, decide_eq_false_iff_not, decide_eq_false_iff_not]
  omega

end Span

namespace Node

variable {c d : Cat} {n : Node c} {k : Node d} {x : String}

/-- What a node declares itself, and how far that reaches. -/
def ownBindings : {c : Cat} → Node c → Reach × List Ident
  | _, .varDecl _ _ kind _ decls =>
    (if kind = .var then .function else .scope, decls.boundIdents)
  | _, .declFunc _ name _ | _, .declClass _ name _ => (.scope, [name])
  | _, .importItem i => (.program, i.specifiers.map (·.here))
  | _, _ => (.scope, [])

def ownBinds (reach : Reach) (n : Node c) : List String :=
  if n.ownBindings.1 = reach then n.ownBindings.2.map (·.name) else []

/-- The names that a tree declares for a place around it. A `var` reaches out of all scopes but those of
functions. -/
def binds (reach : Reach) {c : Cat} (n : Node c) : List String :=
  n.ownBinds reach ++ n.outside.attach.flatMap (fun ⟨⟨_, k⟩, _⟩ => k.binds reach) ++
    if reach = .function ∧ n.isFunctionLike = false then
      n.inside.attach.flatMap fun ⟨⟨_, k⟩, _⟩ => k.binds reach
    else []
termination_by sizeOf n
decreasing_by
  · exact sizeOf_lt_of_mem_children (mem_children_of_mem_outside ‹_›)
  · exact sizeOf_lt_of_mem_inside ‹_›

theorem binds_eq (reach : Reach) (n : Node c) : n.binds reach =
    n.ownBinds reach ++ n.outside.flatMap (fun k => k.2.binds reach) ++
      if reach = .function ∧ n.isFunctionLike = false then
        n.inside.flatMap fun k => k.2.binds reach
      else [] := by
  rw [binds]
  simp [List.flatMap]

/-- The parameters that the scope of a node starts with. -/
def ownParams (n : Node c) : List Ident := n.opening.toList.flatMap (·.params)

/-- The names that the scope of a node brings in. -/
def opens (n : Node c) : List String :=
  n.ownParams.map (·.name) ++ n.inside.flatMap (fun k => k.2.binds .scope) ++
    if n.isFunctionLike then n.inside.flatMap fun k => k.2.binds .function else []

/-- The names that are in scope in all of a program. -/
def globals (p : Program) : List String := p.binds .scope ++ p.binds .function ++ p.binds .program

/-- `Inside E n E' k`: where the names in `E` are in scope at `n`, those in `E'` are in scope at `k`, which
lies somewhere in `n`. -/
inductive Inside : List String → {c : Cat} → Node c → List String → {d : Cat} → Node d → Prop
  | here (E : List String) {c : Cat} (n : Node c) : Inside E n E n
  | outside {E E' : List String} {c d e : Cat} {n : Node c} {k : Node d} {m : Node e} :
      ⟨d, k⟩ ∈ n.outside → Inside E k E' m → Inside E n E' m
  | inside {E E' : List String} {c d e : Cat} {n : Node c} {k : Node d} {m : Node e} :
      ⟨d, k⟩ ∈ n.inside → Inside (n.opens ++ E) k E' m → Inside E n E' m

/-- The source range of a node that opens a scope, or of a declarator. -/
def region : {c : Cat} → Node c → List Span
  | _, .declarator span _ _ _ => [span]
  | _, n => n.opening.toList.map (·.span)

def regions (n : Node c) : List Span := n.gather region

/-- Whether the range of a node is one of source text around the ranges in its parts, and those of
different parts are apart. -/
def isLaidOut {c : Cat} (n : Node c) : Bool :=
  n.region.all (fun r => !r.isDummy && r.lo < r.hi &&
    n.children.all fun k => k.2.regions.all r.contains) &&
  decide (n.children.Pairwise fun a b => ∀ r ∈ a.2.regions, ∀ r' ∈ b.2.regions, r.apart r' = true)

theorem mem_regions {r : Span} :
    r ∈ n.regions ↔ r ∈ n.region ∨ ∃ k ∈ n.children, r ∈ k.2.regions := by
  rw [regions, gather_eq, List.mem_append, List.mem_flatMap]
  rfl

theorem regions_part (hk : ⟨d, k⟩ ∈ n.children) : k.regions ⊆ n.regions :=
  fun _ hr => mem_regions.mpr (.inr ⟨_, hk, hr⟩)

theorem regions_nil : (nil : Node (.list c)).regions = [] := by
  rw [regions, gather_eq]
  rfl

theorem regions_blockStmts (b : Block) : b.blockStmts.regions ⊆ b.regions := by
  cases b with
  | block span ctxt stmts => exact regions_part (n := .block span ctxt stmts) (.head _)

theorem Trims.regions_subset {a b : Sigma Node} (h : Trims a b) : a.2.regions ⊆ b.2.regions := by
  cases h with
  | same => exact List.Subset.refl _
  | block b => exact b.regions_blockStmts
  | body b =>
    cases b with
    | none =>
      change (nil : Node (.list .stmt)).regions ⊆ _
      rw [regions_nil]
      exact List.nil_subset _
    | some b => exact List.Subset.trans b.regions_blockStmts (regions_part (n := .some b) (.head _))
  | arrowBlock b =>
    exact List.Subset.trans b.regions_blockStmts (regions_part (n := .blockBody b) (.head _))
  | arrowExpr e => exact regions_part (n := .exprBody e) (.head _)

theorem Trims.all {a b : Sigma Node} {test : ∀ {d : Cat}, Node d → Bool} (h : Trims a b)
    (hnil : test (.nil : Node (.list .stmt)) = true) (hb : b.2.all test = true) :
    a.2.all test = true := by
  cases h with
  | same => exact hb
  | block b => exact all_blockStmts hb
  | body b => exact all_bodyStmts hnil hb
  | arrowBlock b => exact all_blockStmts (all_part hb (.head _))
  | arrowExpr e => exact all_part hb (.head _)

theorem isLaidOut_iff : n.isLaidOut = true ↔
    (∀ r ∈ n.region, r.isDummy = false ∧ r.lo < r.hi ∧
      ∀ k ∈ n.children, ∀ r' ∈ k.2.regions, r.contains r' = true) ∧
    n.children.Pairwise fun a b => ∀ r ∈ a.2.regions, ∀ r' ∈ b.2.regions, r.apart r' = true := by
  simp only [isLaidOut, Bool.and_eq_true, List.all_eq_true, Bool.not_eq_true', decide_eq_true_eq,
    and_assoc]

theorem all_outside {test : ∀ {d : Cat}, Node d → Bool} (h : n.all test = true) :
    ∀ k ∈ n.outside, k.2.all test = true :=
  fun _ hk => all_part h (mem_children_of_mem_outside hk)

theorem all_inside {test : ∀ {d : Cat}, Node d → Bool} (h : n.all test = true)
    (hnil : test (.nil : Node (.list .stmt)) = true) : ∀ k ∈ n.inside, k.2.all test = true := by
  intro k hk
  obtain ⟨k', hk', htrims⟩ := exists_trims n.inside_trims hk
  exact htrims.all hnil (all_part h hk')

/-- Parts with ranges that are apart, each one laid out. -/
structure LaidOut (l : List (Sigma Node)) : Prop where
  apart : l.Pairwise fun a b => ∀ r ∈ a.2.regions, ∀ r' ∈ b.2.regions, r.apart r' = true
  parts : ∀ k ∈ l, k.2.all isLaidOut = true

theorem laidOut_outside (h : n.all isLaidOut = true) : LaidOut n.outside where
  apart := ((isLaidOut_iff.mp (all_iff.mp h).1).2).sublist n.outside_sublist
  parts := all_outside h

theorem laidOut_inside (h : n.all isLaidOut = true) : LaidOut n.inside where
  apart := by
    have hapart := (isLaidOut_iff.mp (all_iff.mp h).1).2
    have htrims := n.inside_trims
    generalize n.children = l at hapart htrims
    generalize n.inside = parts at htrims
    induction htrims with
    | nil => exact .nil
    | cons htrims hrest ih =>
      obtain ⟨hhead, htail⟩ := List.pairwise_cons.mp hapart
      refine .cons (fun b hb r hr r' hr' => ?_) (ih htail)
      obtain ⟨b', hb', htrims'⟩ := exists_trims hrest hb
      exact hhead b' hb' r (htrims.regions_subset hr) r' (htrims'.regions_subset hr')
    | cons_right _ ih => exact ih (List.pairwise_cons.mp hapart).2
  parts := all_inside h (by decide)

theorem isNonempty_of_mem_regions {r : Span} (h : n.all isLaidOut = true) (hr : r ∈ n.regions) :
    r.isDummy = false ∧ r.lo < r.hi := by
  induction n using partsInduction with
  | step n ih =>
    rcases mem_regions.mp hr with hr | ⟨k, hk, hr⟩
    · have hown := (isLaidOut_iff.mp (all_iff.mp h).1).1 r hr
      exact ⟨hown.1, hown.2.1⟩
    · exact ih hk (all_part h hk) hr

/-- Whether the analysis of scopes looks at everything in a node, and at scopes in a key before those
around it. -/
def isCharted : {c : Cat} → Node c → Bool
  | _, .getterProp _ key _ | _, .setterProp _ key _ _ => key.regions.isEmpty
  | _, n => n.isOpen

theorem regions_inside {k : Sigma Node} (hk : k ∈ n.inside) : ∃ k' ∈ n.children,
    k.2.regions ⊆ k'.2.regions := by
  obtain ⟨k', hk', htrims⟩ := exists_trims n.inside_trims hk
  exact ⟨k', hk', htrims.regions_subset⟩

theorem region_subset_of_inside {E E' : List String} {m : Node d} (h : Inside E n E' m) :
    m.region ⊆ n.regions := by
  induction h with
  | here E n => exact fun r hr => mem_regions.mpr (.inl hr)
  | outside hk _ ih => exact List.Subset.trans ih (regions_part (mem_children_of_mem_outside hk))
  | inside hk _ ih =>
    obtain ⟨k', hk', hsub⟩ := regions_inside hk
    exact List.Subset.trans ih (List.Subset.trans hsub (regions_part hk'))

section

variable {o : Opening}

theorem opens_eq_nil (ho : n.opening = .none) : n.opens = [] := by
  simp [opens, ownParams, ho, inside_eq_nil ho]

theorem region_eq (ho : n.opening = .some o) : n.region = [o.span] := by
  cases n <;> first | cases ho; rfl | cases ho

theorem ownBinds_eq_nil (ho : n.opening = .some o) (reach : Reach) : n.ownBinds reach = [] := by
  have hown : n.ownBindings = (.scope, []) := by cases n <;> first | rfl | cases ho
  simp [ownBinds, hown]

/-- Only the scopes of functions hold a `var`. -/
theorem kind_opening (ho : n.opening = .some o) :
    (o.kind == .function || o.kind == .program) = n.isFunctionLike := by
  cases n <;> first | cases ho; rfl | cases ho

theorem regions_outside_eq_nil (ho : n.opening = .some o) (hn : n.isCharted = true) :
    ∀ k ∈ n.outside, k.2.regions = [] := by
  cases n with
  | func _ _ _ _ _ decorators _ =>
    refine List.forall_mem_singleton.mpr ?_
    cases decorators with
    | nil => exact regions_nil
    | cons => cases hn
  | ctorMember _ _ key _ _ =>
    refine List.forall_mem_singleton.mpr ?_
    cases key with
    | fixedKey =>
      rw [regions, gather_eq]
      rfl
    | computedKey => cases hn
  | setterProp | getterProp => exact List.forall_mem_singleton.mpr (List.isEmpty_iff.mp hn)
  | arrow | staticBlock | handler | block | forStmt | forInStmt | forOfStmt => exact List.forall_mem_nil _
  | _ => cases ho

end

end Node

end PlainJs

import Mathlib.Algebra.GroupWithZero.Nat
import PlainJs.Proofs.Collected
import PlainJs.Proofs.Outline

namespace PlainJs

/-- What declares a name in the scope of a list of statements. -/
inductive DeclForm
  | binding
  | function
  /-- A function behind a label. -/
  | labeled
deriving DecidableEq

namespace Node

/-- What a tree declares in the scope around it. -/
def surface : {c : Cat} → Node c → List (DeclForm × Ident)
  | _, .cons a l => a.surface ++ l.surface
  | _, .some a => a.surface
  | _, .clause _ _ body => body.surface
  | _, .labeledStmt _ _ body => body.surface.map fun d => (.labeled, d.2)
  | _, .declStmt d => d.surface
  | _, .initDecl v => v.surface
  | _, .headDecl v => v.surface
  | _, .headUsing _ _ decls => decls.boundIdents.map fun id => (.binding, id)
  | _, .declVar v => v.surface
  | _, .declFunc _ name _ => [(.function, name)]
  | _, .declClass _ name _ => [(.binding, name)]
  | _, .declUsing _ _ decls => decls.boundIdents.map fun id => (.binding, id)
  | _, .varDecl _ _ kind _ decls =>
    if kind = .var then [] else decls.boundIdents.map fun id => (.binding, id)
  | _, .stmtItem s => s.surface
  | _, .importItem i => i.specifiers.map fun s => (.binding, s.here)
  | _, .exportDecl _ d => d.surface
  | _, .exportFunc _ name _ => name.toList.map fun id => (.function, id)
  | _, .exportClass _ name _ => name.toList.map fun id => (.binding, id)
  | _, _ => []

/-- The names that a tree declares in the scope around it. -/
def lexicals {c : Cat} (n : Node c) : List Ident := n.surface.map (·.2)

/-- The `var` names of a tree: they are declared in the function around it. -/
def vars : {c : Cat} → Node c → List Ident
  | _, .cons a l => a.vars ++ l.vars
  | _, .some a => a.vars
  | _, .blockBody b => b.vars
  | _, .block _ _ stmts => stmts.vars
  | _, .blockStmt b => b.vars
  | _, .withStmt _ _ body => body.vars
  | _, .labeledStmt _ _ body => body.vars
  | _, .ifStmt _ _ yes no => yes.vars ++ no.vars
  | _, .switchStmt _ _ clauses => clauses.vars
  | _, .clause _ _ body => body.vars
  | _, .tryStmt _ body catching last => body.vars ++ catching.vars ++ last.vars
  | _, .handler _ _ body => body.vars
  | _, .whileStmt _ _ body => body.vars
  | _, .doWhileStmt _ _ body => body.vars
  | _, .forStmt _ init _ _ body => init.vars ++ body.vars
  | _, .forInStmt _ head _ body => head.vars ++ body.vars
  | _, .forOfStmt _ _ head _ body => head.vars ++ body.vars
  | _, .declStmt d => d.vars
  | _, .initDecl v => v.vars
  | _, .headDecl v => v.vars
  | _, .declVar v => v.vars
  | _, .varDecl _ _ kind _ decls => if kind = .var then decls.boundIdents else []
  | _, .stmtItem s => s.vars
  | _, .exportDecl _ d => d.vars
  | _, _ => []

/-- The names of the scope that a node opens for its parts of category `d`. -/
def opened {c : Cat} (n : Node c) (d : Cat) : List Ident :=
  match n with
  | .block _ _ stmts => stmts.lexicals
  -- the subject of a `switch` is outside the scope of its clauses
  | .switchStmt _ _ clauses => if d = .list .clause then clauses.lexicals else []
  | .func _ _ _ _ params _ body =>
    if d = .list .param then params.boundIdents
    else if d = .opt .block then params.boundIdents ++ body.vars
    else []
  | .arrow _ _ _ _ params body =>
    if d = .arrowBody then params.boundIdents ++ body.vars else params.boundIdents
  | .ctorMember _ _ _ params body =>
    if d = .list .param then params.boundIdents
    else if d = .opt .block then params.boundIdents ++ body.vars
    else []
  | .getterProp _ _ body => if d = .opt .block then body.vars else []
  | .setterProp _ _ p body =>
    if d = .pat then p.boundIdents
    else if d = .opt .block then p.boundIdents ++ body.vars
    else []
  | .staticBlock _ body => body.vars
  | .handler _ p _ => p.boundIdents
  | .forStmt _ init _ _ _ => init.lexicals
  | .forInStmt _ head _ _ => head.lexicals
  | .forOfStmt _ _ head _ _ => head.lexicals
  | .function name _ => name.toList
  | .classExpr name _ => name.toList
  | .declClass _ name _ => [name]
  | .exportClass _ name _ => name.toList
  | .moduleProgram _ _ items => items.lexicals ++ items.vars
  | .scriptProgram _ _ stmts => stmts.lexicals ++ stmts.vars
  | _ => []

/-- The identifiers of a node itself, each with the number of scopes of the node that declare it and
that it stands in. -/
def occurrences {c : Cat} (n : Node c) : List (Ident × Nat) :=
  match n with
  | .function name _ => name.toList.map fun id => (id, 1)
  | .classExpr name _ => name.toList.map fun id => (id, 1)
  -- the name of a class is declared around it and, once more, inside
  | .declClass _ name _ => [(name, 0), (name, 1)]
  | .exportClass _ name _ => name.toList.flatMap fun id => [(id, 0), (id, 1)]
  | n => (ScopeTable.ownIdents n).map fun id => (id, 0)

end Node

/-- How many of the scopes around a place declare a name. -/
abbrev Levels := String → Nat

namespace Levels

/-- No scope declares anything. -/
def outside : Levels := fun _ => 0

/-- Inside one more scope. -/
def within (E : Levels) (ids : List Ident) : Levels :=
  fun x => if x ∈ ids.map (·.name) then E x + 1 else E x

/-- The levels in the parts of category `d` of a node. -/
def enter (E : Levels) {c : Cat} (n : Node c) (d : Cat) : Levels := E.within (n.opened d)

@[simp] theorem within_nil (E : Levels) : E.within [] = E := rfl

theorem within_apply_congr {E E' : Levels} {ids ids' : List Ident} {x : String} (hE : E x = E' x)
    (h : x ∈ ids.map (·.name) ↔ x ∈ ids'.map (·.name)) : E.within ids x = E'.within ids' x := by
  simp only [within, h, hE]

end Levels

/-- An occurrence of a name: the identifier with its level. -/
abbrev Use := Ident × Nat

namespace Node

variable {c : Cat}

/-- What `own` finds at the nodes of a tree, each looked at with the levels there. -/
def scan (own : Levels → ∀ {c : Cat}, Node c → List Use) (E : Levels) {c : Cat} (n : Node c) :
    List Use :=
  own E n ++ n.children.attach.flatMap fun ⟨⟨d, k⟩, _⟩ => scan own (E.enter n d) k
termination_by sizeOf n
decreasing_by exact sizeOf_lt_of_mem_children ‹_›

/-- The occurrences of names at a node. -/
def ownUses (E : Levels) {c : Cat} (n : Node c) : List Use :=
  n.occurrences.map fun o => (o.1, E o.1.name + o.2)

/-- The occurrences of names in a tree that stands at the levels `E`. -/
def uses (E : Levels) (n : Node c) : List Use := n.scan @ownUses E

variable {own : Levels → ∀ {c : Cat}, Node c → List Use} {E : Levels} {n n' : Node c} {u : Use}

theorem scan_eq (own : Levels → ∀ {c : Cat}, Node c → List Use) (E : Levels) (n : Node c) :
    n.scan own E = own E n ++ n.children.flatMap fun k => k.2.scan own (E.enter n k.1) := by
  rw [scan, List.flatMap_subtype (g := fun k => k.2.scan own (E.enter n k.1)) fun _ _ => rfl,
    List.unattach_attach]

/-- How often an occurrence is found in the parts of a node. -/
def countParts (own : Levels → ∀ {c : Cat}, Node c → List Use) (E : Levels) (u : Use) (n : Node c) :
    Nat :=
  (n.children.map fun k => (k.2.scan own (E.enter n k.1)).count u).sum

theorem count_scan (own : Levels → ∀ {c : Cat}, Node c → List Use) (E : Levels) (u : Use)
    (n : Node c) : (n.scan own E).count u = (own E n).count u + n.countParts own E u := by
  rw [scan_eq, List.count_append, List.count_flatMap, countParts]
  rfl

/-- Trees that declare the same names. -/
structure SameDecls (n n' : Node c) : Prop where
  surface : n'.surface = n.surface
  vars : n'.vars = n.vars
  idents : n'.boundIdents = n.boundIdents

theorem SameDecls.refl (n : Node c) : SameDecls n n := ⟨rfl, rfl, rfl⟩

theorem SameDecls.trans {n'' : Node c} (h : SameDecls n n') (h' : SameDecls n' n'') :
    SameDecls n n'' :=
  ⟨h'.surface.trans h.surface, h'.vars.trans h.vars, h'.idents.trans h.idents⟩

theorem SameDecls.lexicals (h : SameDecls n n') : n'.lexicals = n.lexicals := by
  rw [Node.lexicals, h.surface, Node.lexicals]

theorem surface_varDecl (span : Span) (ctxt : Nat) (kind : VarKind) (declare : Bool)
    (decls : Node (.list .declarator)) : (varDecl span ctxt kind declare decls).surface =
      if kind = .var then [] else decls.boundIdents.map fun id => (.binding, id) := rfl

theorem vars_varDecl (span : Span) (ctxt : Nat) (kind : VarKind) (declare : Bool)
    (decls : Node (.list .declarator)) : (varDecl span ctxt kind declare decls).vars =
      if kind = .var then decls.boundIdents else [] := rfl

theorem SameDecls.of_parts (h : Parts SameDecls n n') : SameDecls n n' := by
  cases n
  all_goals
    first
      | obtain rfl := h
        exact .refl _
      | obtain ⟨a, ha, rfl⟩ := h
        refine ⟨?_, ?_, ?_⟩
        · first
            | rfl
            | exact ha.surface
            | exact congrArg (List.map _) ha.surface
            | exact congrArg (List.map _) ha.idents
            | rw [surface_varDecl, surface_varDecl, ha.idents]
        · first | rfl | exact ha.vars | rw [vars_varDecl, vars_varDecl, ha.idents]
        · first | rfl | exact ha.idents
      | obtain ⟨a, ha, b, hb, rfl⟩ := h
        refine ⟨?_, ?_, ?_⟩
        · first | rfl | exact hb.surface | exact congrArg₂ (· ++ ·) ha.surface hb.surface
        · first | rfl | exact hb.vars | exact congrArg₂ (· ++ ·) ha.vars hb.vars
        · first
            | rfl
            | exact ha.idents
            | exact hb.idents
            | exact congrArg₂ (· ++ ·) ha.idents hb.idents
      | obtain ⟨a, ha, b, hb, c, hc, rfl⟩ := h
        refine ⟨rfl, ?_, rfl⟩
        first
          | rfl
          | exact congrArg₂ (· ++ ·) hb.vars hc.vars
          | exact congrArg₂ (· ++ ·) ha.vars hc.vars
          | exact congrArg₂ (· ++ ·) (congrArg₂ (· ++ ·) ha.vars hb.vars) hc.vars
      | obtain ⟨a, ha, b, hb, c, hc, d, hd, rfl⟩ := h
        exact ⟨rfl, congrArg₂ (· ++ ·) ha.vars hd.vars, rfl⟩

theorem opened_of_parts (h : Parts SameDecls n n') (e : Cat) : n'.opened e = n.opened e := by
  cases n
  all_goals
    first
      | obtain rfl := h
        rfl
      | obtain ⟨a, ha, rfl⟩ := h
        first | rfl | exact ha.lexicals | exact ha.vars | exact congrArg₂ (· ++ ·) ha.lexicals ha.vars
      | obtain ⟨a, ha, b, hb, rfl⟩ := h
        first
          | rfl
          | exact ha.idents
          | exact congrArg (fun ids => if e = _ then ids else []) hb.lexicals
          | exact congrArg (fun ids => if e = _ then ids else []) hb.vars
          | exact congrArg₂ (fun ids vs => if e = _ then ids ++ vs else ids) ha.idents hb.vars
      | obtain ⟨a, ha, b, hb, c, hc, rfl⟩ := h
        first
          | rfl
          | exact ha.lexicals
          | exact congrArg₂ (fun ids vs => if e = _ then ids else if e = _ then ids ++ vs else [])
              ha.idents hc.vars
          | exact congrArg₂ (fun ids vs => if e = _ then ids else if e = _ then ids ++ vs else [])
              hb.idents hc.vars
      | obtain ⟨a, ha, b, hb, c, hc, d, hd, rfl⟩ := h
        first | rfl | exact ha.lexicals

theorem occurrences_of_parts {P : ∀ {d : Cat}, Node d → Node d → Prop} (h : Parts P n n') :
    n'.occurrences = n.occurrences :=
  (h.form_eq occurrences fun m => by cases m <;> rfl).symm

/-- Trees that declare the same names. Outside of the names in `T`, the occurrences in the second are
those in the first and what `extra` adds to them. -/
structure Rescoped (T : List String) (extra : Levels → ∀ {c : Cat}, Node c → List Use)
    (n n' : Node c) : Prop extends SameDecls n n' where
  uses : ∀ (E : Levels) (u : Use), u.1.name ∉ T →
    (n'.uses E).count u = (n.uses E).count u + (n.scan extra E).count u

variable {T : List String} {extra : Levels → ∀ {c : Cat}, Node c → List Use}

theorem Rescoped.mono {T' : List String} (h : Rescoped T extra n n') (hT : T ⊆ T') :
    Rescoped T' extra n n' :=
  ⟨h.toSameDecls, fun E u hu => h.uses E u fun hmem => hu (hT hmem)⟩

theorem Rescoped.enter_eq (h : Parts (Rescoped T extra) n n') (E : Levels) (d : Cat) :
    E.enter n' d = E.enter n d := by
  rw [Levels.enter, opened_of_parts (h.imp fun _ hk => hk.toSameDecls), Levels.enter]

/-- The parts of a node have the occurrences that they had, and what has been added. -/
theorem Rescoped.countParts (h : Parts (Rescoped T extra) n n') (E : Levels) {u : Use}
    (hu : u.1.name ∉ T) : n'.countParts @ownUses E u =
      n.countParts @ownUses E u + n.countParts extra E u := by
  simp only [Node.countParts, Rescoped.enter_eq h E]
  have hchildren := h.children
  generalize n.children = l at hchildren
  generalize n'.children = l' at hchildren
  induction hchildren with
  | nil => rfl
  | cons hk _ ih =>
    obtain @⟨d, k, k', hk⟩ := hk
    have hhead := hk.uses (E.enter n d) u hu
    rw [Node.uses, Node.uses] at hhead
    simp only [List.map_cons, List.sum_cons, ih, hhead]
    omega

/-- A node at which nothing is added. -/
theorem Rescoped.of_parts (hextra : ∀ E, extra E n = []) (h : Parts (Rescoped T extra) n n') :
    Rescoped T extra n n' where
  toSameDecls := .of_parts (h.imp fun _ hk => hk.toSameDecls)
  uses E u hu := by
    rw [Node.uses, Node.uses, count_scan, count_scan, count_scan, Rescoped.countParts h E hu, hextra,
      ownUses, occurrences_of_parts h, ← ownUses, List.count_nil]
    omega

theorem count_map_congr {α : Type} {id : α → Ident} {f g : α → Nat}
    (h : ∀ a, (id a).name ∉ T → f a = g a) (hu : u.1.name ∉ T) (l : List α) :
    (l.map fun a => (id a, f a)).count u = (l.map fun a => (id a, g a)).count u := by
  simp only [List.count, List.countP_map]
  refine List.countP_congr fun a _ => ?_
  simp only [Function.comp_apply, beq_iff_eq]
  constructor
  · rintro rfl
    rw [h a hu]
  · rintro rfl
    rw [h a hu]

theorem ownUses_congr {E' : Levels} (hE : ∀ x ∉ T, E x = E' x) (hu : u.1.name ∉ T) (n : Node c) :
    (ownUses E n).count u = (ownUses E' n).count u :=
  count_map_congr (fun _ ho => congrArg (· + _) (hE _ ho)) hu n.occurrences

theorem mem_ownIdents_of_occurrences {o : Ident × Nat} (h : o ∈ n.occurrences) :
    o.1 ∈ ScopeTable.ownIdents n := by
  unfold occurrences at h
  split at h
  case h_3 name _ =>
    rcases List.mem_pair.mp h with rfl | rfl <;> exact List.mem_singleton_self _
  case h_4 name _ =>
    obtain ⟨id, hid, ho⟩ := List.mem_flatMap.mp h
    rcases List.mem_pair.mp ho with rfl | rfl <;> exact hid
  all_goals
    obtain ⟨id, hid, rfl⟩ := List.mem_map.mp h
    exact hid

/-- What is found in a tree are names of the tree. -/
theorem mem_names_of_scan (hown : ∀ (E : Levels) {d : Cat} (k : Node d), ∀ u ∈ own E k,
    u.1.name ∈ k.names) (hu : u ∈ n.scan own E) : u.1.name ∈ n.names := by
  induction n using partsInduction generalizing E with
  | step n ih =>
    rw [scan_eq, List.mem_append, List.mem_flatMap] at hu
    obtain hu | ⟨k, hk, hu⟩ := hu
    · exact hown E n u hu
    · exact mem_names.mpr (.inr ⟨k.1, k.2, hk, ih hk hu⟩)

theorem mem_names_of_uses (hu : u ∈ n.uses E) : u.1.name ∈ n.names := by
  refine mem_names_of_scan (fun E d k u hu => ?_) hu
  obtain ⟨o, ho, rfl⟩ := List.mem_map.mp hu
  have hmem := mem_ownIdents_of_occurrences ho
  exact mem_names.mpr (.inl (List.mem_append_right _ (List.mem_map.mpr ⟨_, hmem, rfl⟩)))

/-- What a tree declares are names of the tree. -/
theorem mem_names_of_surface {d : DeclForm × Ident} (h : d ∈ n.surface) : d.2.name ∈ n.names := by
  induction n using partsInduction generalizing d with
  | step n ih =>
    have part {e : Cat} {k : Node e} (hk : ⟨e, k⟩ ∈ n.children) (h : d ∈ k.surface) :
        d.2.name ∈ n.names := mem_names.mpr (.inr ⟨e, k, hk, ih hk h⟩)
    have bound {e : Cat} {k : Node e} (hk : ⟨e, k⟩ ∈ n.children)
        (h : d ∈ k.boundIdents.map fun id => (DeclForm.binding, id)) : d.2.name ∈ n.names := by
      obtain ⟨id, hid, rfl⟩ := List.mem_map.mp h
      exact mem_names.mpr (.inr ⟨e, k, hk, mem_names_of_boundIdents hid⟩)
    have here (h : d.2 ∈ ScopeTable.ownIdents n) : d.2.name ∈ n.names :=
      mem_names.mpr (.inl (List.mem_append_right _ (List.mem_map_of_mem h)))
    unfold surface at h
    split at h
    · exact (List.mem_append.mp h).elim (part (.head _)) (part (.tail _ (.head _)))
    · exact part (.head _) h
    · exact part (.tail _ (.head _)) h
    · obtain ⟨e, he, rfl⟩ := List.mem_map.mp h
      have hname := ih (.head _) he
      exact mem_names.mpr (.inr ⟨_, _, .head _, hname⟩)
    · exact part (.head _) h
    · exact part (.head _) h
    · exact part (.head _) h
    · exact bound (.head _) h
    · exact part (.head _) h
    · rw [List.mem_singleton.mp h] at here ⊢
      exact here (.head _)
    · rw [List.mem_singleton.mp h] at here ⊢
      exact here (.head _)
    · exact bound (.head _) h
    · split at h
      · cases h
      · exact bound (.head _) h
    · exact part (.head _) h
    · obtain ⟨i, hi, rfl⟩ := List.mem_map.mp h
      refine here (List.mem_flatMap.mpr ⟨i, hi, ?_⟩)
      cases i <;> exact .head _
    · exact part (.head _) h
    · obtain ⟨id, hid, rfl⟩ := List.mem_map.mp h
      exact here hid
    · obtain ⟨id, hid, rfl⟩ := List.mem_map.mp h
      exact here hid
    · cases h

/-- How often an occurrence is found in a tree that stands at the levels `E`. -/
def tally (u : Use) (E : Levels) (n : Node c) : Nat := (n.uses E).count u

/-- How often an occurrence is found in trees that stand at the levels `E`. -/
def tallies (u : Use) (E : Levels) (l : List (Node c)) : Nat := (l.map (tally u E)).sum

theorem tally_eq (n : Node c) : tally u E n = (ownUses E n).count u + n.countParts @ownUses E u :=
  count_scan @ownUses E u n

/-- The level of a name depends on the scopes that declare this name. -/
theorem tally_congr {E' : Levels} (hE : ∀ x ∉ T, E x = E' x) (hu : u.1.name ∉ T) (n : Node c) :
    tally u E n = tally u E' n := by
  induction n using partsInduction generalizing E E' with
  | step n ih =>
    rw [tally_eq, tally_eq, ownUses_congr hE hu, countParts, countParts]
    congr 2
    refine List.map_congr_left fun k hk => ih hk fun x hx => ?_
    simp only [Levels.enter, Levels.within, hE x hx]

section

variable {d e : Cat} {a : Node d} {b : Node e}

theorem tally_leaf (hown : n.occurrences = []) (hparts : n.children = []) : tally u E n = 0 := by
  rw [tally_eq, ownUses, hown, countParts, hparts]
  rfl

theorem tally_one (hown : n.occurrences = []) (hparts : n.children = [⟨d, a⟩]) :
    tally u E n = tally u (E.enter n d) a := by
  rw [tally_eq, ownUses, hown, countParts, hparts]
  exact Nat.zero_add _

theorem tally_two (hown : n.occurrences = []) (hparts : n.children = [⟨d, a⟩, ⟨e, b⟩]) :
    tally u E n = tally u (E.enter n d) a + tally u (E.enter n e) b := by
  rw [tally_eq, ownUses, hown, countParts, hparts]
  simp [tally, uses]

theorem tally_three {d' : Cat} {a' : Node d'} (hown : n.occurrences = [])
    (hparts : n.children = [⟨d, a⟩, ⟨e, b⟩, ⟨d', a'⟩]) : tally u E n =
      tally u (E.enter n d) a + tally u (E.enter n e) b + tally u (E.enter n d') a' := by
  rw [tally_eq, ownUses, hown, countParts, hparts]
  simp [tally, uses, Nat.add_assoc]

end

@[simp] theorem tally_nil : tally u E (.nil : Node (.list c)) = 0 := tally_leaf rfl rfl

@[simp] theorem tally_cons (a : Node c) (l : Node (.list c)) :
    tally u E (.cons a l) = tally u E a + tally u E l := tally_two rfl rfl

@[simp] theorem tally_none : tally u E (.none : Node (.opt c)) = 0 := tally_leaf rfl rfl

@[simp] theorem tally_some (a : Node c) : tally u E (.some a) = tally u E a := tally_one rfl rfl

@[simp] theorem tallies_nil : tallies u E ([] : List (Node c)) = 0 := rfl

@[simp] theorem tallies_cons (a : Node c) (l : List (Node c)) :
    tallies u E (a :: l) = tally u E a + tallies u E l := rfl

@[simp] theorem tallies_append (l l' : List (Node c)) :
    tallies u E (l ++ l') = tallies u E l + tallies u E l' := by
  simp [tallies]

theorem tallies_flatMap {α : Type} (f : α → List (Node c)) (l : List α) :
    tallies u E (l.flatMap f) = (l.map fun a => tallies u E (f a)).sum := by
  induction l with
  | nil => rfl
  | cons a l ih => simp [ih]

theorem tallies_perm {l l' : List (Node c)} (h : l.Perm l') : tallies u E l = tallies u E l' :=
  (h.map _).sum_nat

@[simp] theorem tally_ofList (l : List (Node c)) : tally u E (.ofList l) = tallies u E l := by
  induction l with
  | nil => exact tally_nil
  | cons a l ih => rw [Node.ofList, tally_cons, ih, tallies_cons]

@[simp] theorem tallies_toList (l : Node (.list c)) : tallies u E l.toList = tally u E l := by
  rw [← tally_ofList, ofList_toList]

@[simp] theorem tally_ofOption (o : Option (Node c)) :
    tally u E (.ofOption o) = tallies u E o.toList := by
  cases o with
  | none => exact tally_none
  | some a => exact tally_some a

@[simp] theorem tally_ref (id : Ident) : tally u E (.ref id) = [(id, E id.name)].count u := by
  rw [tally_eq]
  rfl

@[simp] theorem tally_binder (id : Ident) : tally u E (.binder id) = [(id, E id.name)].count u := by
  rw [tally_eq]
  rfl

@[simp] theorem tally_atom (span : Span) (a : Atom) : tally u E (.atom span a) = 0 :=
  tally_leaf rfl rfl

@[simp] theorem tally_paren (span : Span) (a : Expr) : tally u E (.paren span a) = tally u E a :=
  tally_one rfl rfl

@[simp] theorem tally_atLeast (least : Nat) (a : Expr) :
    tally u E (a.atLeast least) = tally u E a := by
  unfold atLeast
  split <;> simp

@[simp] theorem tally_unary (span : Span) (op : UnaryOp) (a : Expr) :
    tally u E (.unary span op a) = tally u E a := tally_one rfl rfl

@[simp] theorem tally_binary (span : Span) (op : BinaryOp) (a b : Expr) :
    tally u E (.binary span op a b) = tally u E a + tally u E b := tally_two rfl rfl

@[simp] theorem tally_assign (span : Span) (op : AssignOp) (a : Pat) (b : Expr) :
    tally u E (.assign span op a b) = tally u E a + tally u E b := tally_two rfl rfl

@[simp] theorem tally_block (span : Span) (ctxt : Nat) (a : Node (.list .stmt)) :
    tally u E (.block span ctxt a) = tally u (E.within a.lexicals) a := tally_one rfl rfl

@[simp] theorem tally_blockStmt (a : Block) : tally u E (.blockStmt a) = tally u E a :=
  tally_one rfl rfl

@[simp] theorem tally_exprStmt (span : Span) (a : Expr) :
    tally u E (.exprStmt span a) = tally u E a := tally_one rfl rfl

@[simp] theorem tally_labeledStmt (span : Span) (label : Ident) (a : Stmt) :
    tally u E (.labeledStmt span label a) = tally u E a := tally_one rfl rfl

@[simp] theorem tally_ifStmt (span : Span) (a : Expr) (b : Stmt) (b' : Node (.opt .stmt)) :
    tally u E (.ifStmt span a b b') = tally u E a + tally u E b + tally u E b' := tally_three rfl rfl

@[simp] theorem tally_declStmt (a : Node .decl) : tally u E (.declStmt a) = tally u E a :=
  tally_one rfl rfl

@[simp] theorem tally_declVar (a : VarDecl) : tally u E (.declVar a) = tally u E a :=
  tally_one rfl rfl

@[simp] theorem tally_varDecl (span : Span) (ctxt : Nat) (kind : VarKind) (declare : Bool)
    (a : Node (.list .declarator)) :
    tally u E (.varDecl span ctxt kind declare a) = tally u E a := tally_one rfl rfl

@[simp] theorem tally_declarator (span : Span) (definite : Bool) (a : Pat) (b : Node (.opt .expr)) :
    tally u E (.declarator span definite a b) = tally u E a + tally u E b := tally_two rfl rfl

@[simp] theorem tally_clause (span : Span) (a : Node (.opt .expr)) (b : Node (.list .stmt)) :
    tally u E (.clause span a b) = tally u E a + tally u E b := tally_two rfl rfl

theorem tally_declClass (declare : Bool) (name : Ident) (a : Node .cls) :
    tally u E (.declClass declare name a) =
      [(name, E name.name)].count u + tally u E (.classExpr (Option.some name) a) := by
  rw [tally_eq, tally_eq, ← Nat.add_assoc, ← List.count_append]
  rfl

theorem tally_switchStmt (span : Span) (a : Expr) (b : Node (.list .clause)) :
    tally u E (.switchStmt span a b) = tally u E a + tally u (E.within b.lexicals) b :=
  tally_two rfl rfl

@[simp] theorem tally_exprStmt_build (a : Expr) : tally u E (Build.exprStmt a) = tally u E a := by
  unfold Build.exprStmt
  split <;> simp

@[simp] theorem tally_declare (kind : VarKind) (id : Ident) (init : Option Expr) :
    tally u E (Build.declare kind id init) =
      [(id, E id.name)].count u + tallies u E init.toList := by
  simp [Build.declare, Build.declarePat]

end Node

end PlainJs

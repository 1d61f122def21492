import PlainJs.Lowering.Context
import PlainJs.Proofs.Jumps
import PlainJs.Proofs.Scopes.Walk

namespace PlainJs

namespace Node

/-- Whether the analysis of scopes looks at everything in a node that can hold a name. -/
def isOpen : {c : Cat} → Node c → Bool
  | _, .func _ _ _ _ _ decorators _ => decorators.toList.isEmpty
  | _, .ctorMember _ _ (.fixedKey ..) _ _ => true
  | _, .ctorMember .. => false
  | _, _ => true

variable {c : Cat} {n : Node c} {l : List String}

theorem mem_names_of_boundIdents {id : Ident} (h : id ∈ n.boundIdents) : id.name ∈ n.names := by
  induction n using partsInduction with
  | step n ih =>
    have part {d : Cat} {k : Node d} (hk : ⟨d, k⟩ ∈ n.children) (h : id ∈ k.boundIdents) :
        id.name ∈ n.names := mem_names.mpr (.inr ⟨d, k, hk, ih hk h⟩)
    have here (h : id ∈ ScopeTable.ownIdents n) : id.name ∈ n.names :=
      mem_names.mpr (.inl (List.mem_append_right _ (List.mem_map_of_mem h)))
    unfold boundIdents at h
    split at h
    · cases h
    · exact (List.mem_append.mp h).elim (part (.head _)) (part (.tail _ (.head _)))
    · cases h
    · exact part (.head _) h
    · exact here h
    · exact part (.head _) h
    · exact part (.head _) h
    · exact part (.head _) h
    · exact part (.head _) h
    · exact part (.tail _ (.head _)) h
    · exact here h
    · exact part (.head _) h
    · exact part (.tail _ (.head _)) h
    · exact part (.head _) h
    · cases h

theorem labelNames_subset_names (n : Node c) : n.labelNames ⊆ n.names := by
  induction n using partsInduction with
  | step n ih =>
    intro x hx
    rcases mem_labelNames.mp hx with hx | ⟨d, k, hk, hx⟩
    · exact mem_names.mpr (.inl (List.mem_append_left _ hx))
    · exact mem_names.mpr (.inr ⟨d, k, hk, ih hk hx⟩)

variable {test : ∀ {d : Cat}, Node d → Bool}

theorem all_blockStmts {b : Block} (h : b.all test = true) : b.blockStmts.all test = true := by
  cases b
  exact all_part h (.head _)

theorem all_bodyStmts {b : Node (.opt .block)} (hnil : test (.nil : Node (.list .stmt)) = true)
    (h : b.all test = true) : b.bodyStmts.all test = true := by
  cases b with
  | none => exact all_iff.mpr ⟨hnil, nofun⟩
  | some b => exact all_blockStmts (all_part h (.head _))

/-- All parts of a node but the decorators of a function and the key of a constructor. -/
def lookedAt : {c : Cat} → Node c → List (Sigma Node)
  | _, .func _ _ _ _ params _ body | _, .ctorMember _ _ _ params body => [⟨_, params⟩, ⟨_, body⟩]
  | _, n => n.children

theorem lookedAt_sublist (n : Node c) : n.lookedAt.Sublist n.children := by
  cases n with
  | func => exact .cons_cons _ (.cons _ (.refl _))
  | ctorMember => exact .cons _ (.refl _)
  | _ => exact .refl _

/-- The names in a tree that are found where only those parts are looked at. -/
def noticed {c : Cat} (n : Node c) : List String :=
  n.ownNames ++ n.lookedAt.attach.flatMap fun ⟨⟨_, k⟩, _⟩ => noticed k
termination_by sizeOf n
decreasing_by exact sizeOf_lt_of_mem_children (n.lookedAt_sublist.subset ‹_›)

theorem mem_noticed {x : String} :
    x ∈ n.noticed ↔ x ∈ n.ownNames ∨ ∃ k ∈ n.lookedAt, x ∈ k.2.noticed := by
  rw [noticed]
  simp

theorem mem_noticed_part {x : String} {m : Node c} {k : Sigma Node} (hown : m.ownNames = [])
    (hparts : m.lookedAt = [k]) : x ∈ m.noticed ↔ x ∈ k.2.noticed := by
  rw [mem_noticed, hown, hparts]
  simp

theorem Trims.mem_noticed {a b : Sigma Node} {x : String} (h : Trims a b) :
    x ∈ b.2.noticed ↔ x ∈ a.2.noticed := by
  have hblock (b : Block) : x ∈ b.noticed ↔ x ∈ b.blockStmts.noticed := by
    cases b with
    | block span ctxt stmts => exact mem_noticed_part (k := ⟨_, stmts⟩) rfl rfl
  cases h with
  | same => exact .rfl
  | block b => exact hblock b
  | body b =>
    cases b with
    | none =>
      rw [Node.mem_noticed, Node.mem_noticed]
      exact .rfl
    | some b => exact (mem_noticed_part (k := ⟨_, b⟩) rfl rfl).trans (hblock b)
  | arrowBlock b => exact (mem_noticed_part (k := ⟨_, b⟩) rfl rfl).trans (hblock b)
  | arrowExpr e => exact mem_noticed_part (k := ⟨_, e⟩) rfl rfl

/-- A node with a scope of its own: what is visited are the parts that are looked at. -/
theorem trims_lookedAt {o : Opening} (ho : n.opening = .some o) :
    List.Forall₂ Trims (n.ahead ++ n.inside) n.lookedAt := by
  cases n with
  | func | ctorMember => exact .cons (.same _) (.cons (.body _) .nil)
  | setterProp => exact .cons (.same _) (.cons (.same _) (.cons (.body _) .nil))
  | arrow _ _ _ _ params body =>
    cases body with
    | blockBody b => exact .cons (.same _) (.cons (.arrowBlock _) .nil)
    | exprBody e => exact .cons (.same _) (.cons (.arrowExpr _) .nil)
  | getterProp => exact .cons (.same _) (.cons (.body _) .nil)
  | staticBlock => exact .cons (.block _) .nil
  | handler => exact .cons (.same _) (.cons (.block _) .nil)
  | block => exact .cons (.same _) .nil
  | forStmt =>
    exact .cons (.same _) (.cons (.same _) (.cons (.same _) (.cons (.same _) .nil)))
  | forInStmt | forOfStmt => exact .cons (.same _) (.cons (.same _) (.cons (.same _) .nil))
  | _ => cases ho

theorem mem_noticed_opening {o : Opening} {x : String} (ho : n.opening = .some o) :
    x ∈ n.noticed ↔ x ∈ (n.ahead ++ n.inside).flatMap fun k => k.2.noticed := by
  have hown : n.ownNames = [] := by cases n <;> first | rfl | cases ho
  have hparts := trims_lookedAt ho
  rw [mem_noticed, hown, or_iff_right (List.not_mem_nil), ← List.mem_flatMap]
  generalize n.ahead ++ n.inside = l, n.lookedAt = l' at hparts
  induction hparts with
  | nil => exact .rfl
  | cons htrims _ ih => simp only [List.flatMap_cons, List.mem_append, htrims.mem_noticed, ih]

theorem lookedAt_eq_ahead (ho : n.opening = .none) : n.lookedAt = n.ahead := by
  cases n <;> first | rfl | cases ho

/-- Nothing that is passed over in an open node holds a name. -/
theorem mem_lookedAt_of_isOpen {d : Cat} {k : Node d} {x : String} (h : n.isOpen = true)
    (hk : ⟨d, k⟩ ∈ n.children) (hx : x ∈ k.names) : ⟨d, k⟩ ∈ n.lookedAt := by
  cases n with
  | func _ _ _ _ params decorators body =>
    rcases List.mem_cons.mp hk with hk | hk
    · exact hk ▸ .head _
    rcases List.mem_cons.mp hk with hk | hk
    · cases hk
      cases decorators with
      | nil =>
        rw [names_nil] at hx
        cases hx
      | cons => cases h
    · exact .tail _ hk
  | ctorMember _ _ key params body =>
    rcases List.mem_cons.mp hk with hk | hk
    · cases hk
      cases key with
      | fixedKey =>
        rcases mem_names.mp hx with hx | ⟨_, _, hk, _⟩
        · cases hx
        · cases hk
      | computedKey => cases h
    · exact hk
  | _ => exact hk

/-- Where everything is looked at, all names are found. -/
theorem names_subset_noticed (h : n.all isOpen = true) : n.names ⊆ n.noticed := by
  induction n using partsInduction with
  | step n ih =>
    intro x hx
    rcases mem_names.mp hx with hx | ⟨d, k, hk, hx⟩
    · exact mem_noticed.mpr (.inl hx)
    · have hmem := mem_lookedAt_of_isOpen (all_iff.mp h).1 hk hx
      exact mem_noticed.mpr (.inr ⟨_, hmem, ih hk (all_part h hk) hx⟩)

end Node

namespace ScopeTable

open Node

/-- What has been noted. -/
def noted (t : ScopeTable) : List String := t.names ++ t.labels

theorem mem_takenNames {t : ScopeTable} {x : String} : x ∈ t.takenNames ↔ x ∈ t.noted := by
  have hfold (labels names : List String) :
      x ∈ labels.foldl (fun l s => l.insert s) names ↔ x ∈ names ++ labels := by
    induction labels generalizing names with
    | nil => simp
    | cons a labels ih =>
      rw [List.foldl_cons, ih]
      simp only [List.mem_append, List.mem_cons, List.mem_insert_iff]
      tauto
  exact hfold t.labels t.names

variable {α β : Type} {l l' : List String}

/-- A step of the analysis notes just the given names and forgets none. -/
def Notes (l : List String) (x : Collect α) : Prop :=
  ∀ (t : ScopeTable) (y : String), y ∈ (x.run t).2.noted ↔ y ∈ t.noted ∨ y ∈ l

namespace Notes

theorem pure (a : α) : Notes [] (pure a : Collect α) := by
  intro t y
  exact (or_iff_left List.not_mem_nil).symm

theorem bind {x : Collect α} {f : α → Collect β} (h : Notes l x) (h' : ∀ a, Notes l' (f a)) :
    Notes (l ++ l') (x >>= f) := by
  intro t y
  rw [List.mem_append, ← or_assoc, ← h t y]
  exact h' (x.run t).1 (x.run t).2 y

theorem congr {x : Collect α} (h : Notes l x) (hl : ∀ y, y ∈ l' ↔ y ∈ l) : Notes l' x := by
  intro t y
  rw [hl y]
  exact h t y

theorem forM {as : List α} {f : α → Collect Unit} {g : α → List String}
    (h : ∀ a ∈ as, Notes (g a) (f a)) : Notes (as.flatMap g) (as.forM f) := by
  induction as with
  | nil => exact .pure ()
  | cons a as ih =>
    rw [List.flatMap_cons]
    exact (h a (.head _)).bind fun _ => ih fun b hb => h b (.tail _ hb)

/-- A step that changes the scopes only notes nothing. -/
theorem of_scopes {f : ScopeTable → ScopeTable} (h : ∀ t, (f t).noted = t.noted) :
    Notes [] (modify f : Collect Unit) := by
  intro t y
  change y ∈ (f t).noted ↔ _
  rw [h, or_iff_left List.not_mem_nil]

end Notes

theorem notes_addName (name : String) : Notes [name] (modify (·.addName name) : Collect Unit) := by
  intro t y
  change y ∈ t.names.insert name ++ t.labels ↔ y ∈ t.names ++ t.labels ∨ y ∈ [name]
  simp only [List.mem_append, List.mem_insert_iff, List.mem_singleton]
  tauto

theorem notes_addLabel (label : String) :
    Notes [label] (modify (·.addLabel label) : Collect Unit) := by
  intro t y
  change y ∈ t.names ++ t.labels.insert label ↔ y ∈ t.names ++ t.labels ∨ y ∈ [label]
  simp only [List.mem_append, List.mem_insert_iff, List.mem_singleton]
  tauto

theorem notes_noteNames (ids : List Ident) : Notes (ids.map (·.name)) (noteNames ids) := by
  rw [← List.flatMap_pure_eq_map]
  exact .forM fun id _ => notes_addName id.name

theorem notes_bindAll (scope : Nat) (kind : BindingKind) (ids : List Ident) :
    Notes [] (bindAll scope kind ids) := by
  have h : Notes (ids.flatMap fun _ => []) (bindAll scope kind ids) :=
    .forM fun id _ => .of_scopes fun t => rfl
  exact h.congr fun y => by simp

theorem notes_enter (stack : List Nat) (kind : ScopeKind) (span : Span) (bindAs : BindingKind)
    (ids : List Ident) : Notes [] (enter stack kind span bindAs ids) :=
  fun t => notes_bindAll _ bindAs ids (t.push _)

theorem notes_bindOwn (stack : List Nat) {c : Cat} (n : Node c) : Notes [] (bindOwn stack n) := by
  unfold bindOwn
  split
  · exact fun t => notes_bindAll _ _ _ t
  · exact notes_bindAll _ _ _
  · exact notes_bindAll _ _ _
  · exact notes_bindAll _ _ _
  · exact .pure ()

theorem notes_noteOwn (stack : List Nat) {c : Cat} (n : Node c) :
    Notes n.ownNames (noteOwn stack n) := by
  have hlabels : Notes n.ownLabels (n.ownLabels.forM fun l => modify (·.addLabel l) : Collect Unit) := by
    have h := Notes.forM fun l (_ : l ∈ n.ownLabels) => notes_addLabel l
    rwa [List.flatMap_singleton'] at h
  exact (notes_bindOwn stack n).bind fun _ => hlabels.bind fun _ => notes_noteNames (ownIdents n)

/-- The analysis notes the names in the parts that it looks at. -/
theorem notes_collect (stack : List Nat) {c : Cat} (n : Node c) :
    Notes n.noticed (collect stack n) := by
  induction n using scopeInduction generalizing stack with
  | step n ihout ihin =>
    have hahead (stack : List Nat) :
        Notes (n.ahead.flatMap fun k => k.2.noticed) (visit stack n.ahead) :=
      .forM fun k hk => ihout (n.ahead_sublist.subset hk) stack
    cases ho : n.opening with
    | none =>
      rw [collect_other stack ho]
      refine ((notes_noteOwn stack n).bind fun _ => hahead stack).congr fun x => ?_
      rw [mem_noticed, lookedAt_eq_ahead ho, ← List.mem_flatMap, ← List.mem_append]
    | some o =>
      have hinside (stack : List Nat) :
          Notes (n.inside.flatMap fun k => k.2.noticed) (visit stack n.inside) :=
        .forM fun k hk => ihin hk stack
      rw [collect_opening ho]
      refine ((hahead stack).bind fun _ => (notes_enter stack _ _ _ _).bind hinside).congr fun x => ?_
      rw [mem_noticed_opening ho, List.flatMap_append, List.nil_append]

theorem mem_takenNames_analyze {p : Program} {x : String} :
    x ∈ (analyze p).takenNames ↔ x ∈ p.noticed := by
  rw [mem_takenNames]
  exact (notes_collect [0] p start x).trans (or_iff_right List.not_mem_nil)

end ScopeTable

/-- The supply knows all names of a program in which the analysis of scopes looks at everything. -/
theorem names_subset_reserved (config : Config) {p : Program} (h : p.all Node.isOpen = true) :
    p.names ⊆ (Context.start config p).names.reserved :=
  fun _ hx => ScopeTable.mem_takenNames_analyze.mpr (Node.names_subset_noticed h hx)

end PlainJs

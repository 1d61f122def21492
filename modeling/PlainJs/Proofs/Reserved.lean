import PlainJs.Proofs.Collected
import PlainJs.Proofs.Sites

namespace PlainJs

namespace Node

/-- The identifiers and labels that stand in a node itself. -/
inductive Holds : {c : Cat} → Node c → Ident → Prop
  | ref {id} : Holds (.ref id) id
  | functionName {id f} : Holds (.function (.some id) f) id
  | className {id c} : Holds (.classExpr (.some id) c) id
  | binder {id} : Holds (.binder id) id
  | shortPat {span id default} : Holds (.shortPat span id default) id
  | shortProp {id} : Holds (.shortProp id) id
  | defaultProp {span id value} : Holds (.defaultProp span id value) id
  | declFunc {declare id f} : Holds (.declFunc declare id f) id
  | declClass {declare id c} : Holds (.declClass declare id c) id
  | exportFunc {span id f} : Holds (.exportFunc span (.some id) f) id
  | exportClass {span id c} : Holds (.exportClass span (.some id) c) id
  | importHere {i s} : s ∈ i.specifiers → Holds (.importItem i) s.here
  | importThere {i span here id} : .named span here (.some (.ident id)) ∈ i.specifiers →
      Holds (.importItem i) id
  | exportInner {e span id outer} : .named span (.ident id) outer ∈ e.specifiers →
      Holds (.exportNames e) id
  | exportOuter {e span inner id} : .named span inner (.some (.ident id)) ∈ e.specifiers →
      Holds (.exportNames e) id
  | exportAs {e span id} : .namespace span (.ident id) ∈ e.specifiers → Holds (.exportNames e) id
  | label {span id body} : Holds (.labeledStmt span id body) id
  | breakLabel {span id} : Holds (.breakStmt span (.some id)) id
  | continueLabel {span id} : Holds (.continueStmt span (.some id)) id

/-- `Reaches n m`: the node `m` lies in `n`, but not in the decorators of a function or in the key of a
constructor there. -/
inductive Reaches : {c d : Cat} → Node c → Node d → Prop
  | here {c : Cat} (n : Node c) : Reaches n n
  | part {c d e : Cat} {n : Node c} {k : Node d} {m : Node e} :
      ⟨d, k⟩ ∈ n.lookedAt → Reaches k m → Reaches n m

variable {c : Cat} {n : Node c} {x : String}

theorem mem_exportNameIdents {name : ExportName} {id : Ident} :
    id ∈ ScopeTable.exportNameIdents name ↔ name = .ident id := by
  cases name <;> simp [ScopeTable.exportNameIdents, eq_comm]

theorem mem_importIdents {s : ImportSpecifier} {id : Ident} : id ∈ ScopeTable.importIdents s ↔
    id = s.here ∨ ∃ span here, s = .named span here (.some (.ident id)) := by
  cases s with
  | named span here there =>
    cases there <;>
      simp [ScopeTable.importIdents, ImportSpecifier.here, mem_exportNameIdents]
  | _ => simp [ScopeTable.importIdents, ImportSpecifier.here]

theorem mem_exportIdents {s : ExportSpecifier} {id : Ident} : id ∈ ScopeTable.exportIdents s ↔
    (∃ span outer, s = .named span (.ident id) outer) ∨
      (∃ span inner, s = .named span inner (.some (.ident id))) ∨
        ∃ span, s = .namespace span (.ident id) := by
  cases s with
  | named span inner outer =>
    cases outer <;> simp [ScopeTable.exportIdents, mem_exportNameIdents]
  | _ => simp [ScopeTable.exportIdents, mem_exportNameIdents]

theorem exists_holds_of_mem_ownNames (hx : x ∈ n.ownNames) : ∃ id, n.Holds id ∧ id.name = x := by
  cases n with
  | ref id | binder id | shortPat _ id _ | shortProp id | defaultProp _ id _ | declFunc _ id _
  | declClass _ id _ | labeledStmt _ id _ =>
    obtain rfl := List.mem_singleton.mp hx
    exact ⟨id, by constructor, rfl⟩
  | function name _ | classExpr name _ | exportFunc _ name _ | exportClass _ name _
  | breakStmt _ name | continueStmt _ name =>
    cases name with
    | none => cases hx
    | some id =>
      obtain rfl := List.mem_singleton.mp hx
      exact ⟨id, by constructor, rfl⟩
  | importItem i =>
    obtain ⟨id, hid, rfl⟩ := List.mem_map.mp hx
    obtain ⟨s, hs, hid⟩ := List.mem_flatMap.mp hid
    rcases mem_importIdents.mp hid with rfl | ⟨span, here, rfl⟩
    · exact ⟨_, .importHere hs, rfl⟩
    · exact ⟨id, .importThere hs, rfl⟩
  | exportNames e =>
    obtain ⟨id, hid, rfl⟩ := List.mem_map.mp hx
    obtain ⟨s, hs, hid⟩ := List.mem_flatMap.mp hid
    rcases mem_exportIdents.mp hid with ⟨span, outer, rfl⟩ | ⟨span, inner, rfl⟩ | ⟨span, rfl⟩
    · exact ⟨id, .exportInner hs, rfl⟩
    · exact ⟨id, .exportOuter hs, rfl⟩
    · exact ⟨id, .exportAs hs, rfl⟩
  | _ => cases hx

theorem Holds.mem_ownNames {id : Ident} (h : n.Holds id) : id.name ∈ n.ownNames := by
  have hitem {l : List Ident} (hid : id ∈ l) : id.name ∈ l.map (·.name) := List.mem_map_of_mem hid
  cases h with
  | importHere hs =>
    exact hitem (List.mem_flatMap.mpr ⟨_, hs, mem_importIdents.mpr (.inl rfl)⟩)
  | importThere hs =>
    exact hitem (List.mem_flatMap.mpr ⟨_, hs, mem_importIdents.mpr (.inr ⟨_, _, rfl⟩)⟩)
  | exportInner hs =>
    exact hitem (List.mem_flatMap.mpr ⟨_, hs, mem_exportIdents.mpr (.inl ⟨_, _, rfl⟩)⟩)
  | exportOuter hs =>
    exact hitem (List.mem_flatMap.mpr ⟨_, hs, mem_exportIdents.mpr (.inr (.inl ⟨_, _, rfl⟩))⟩)
  | exportAs hs =>
    exact hitem (List.mem_flatMap.mpr ⟨_, hs, mem_exportIdents.mpr (.inr (.inr ⟨_, rfl⟩))⟩)
  | _ => exact .head _

/-- The names that are found are those that stand in the nodes that are reached. -/
theorem mem_noticed_iff :
    x ∈ n.noticed ↔ ∃ (d : Cat) (m : Node d) (id : Ident), n.Reaches m ∧ m.Holds id ∧ id.name = x := by
  constructor
  · induction n using partsInduction with
    | step n ih =>
      intro hx
      rcases mem_noticed.mp hx with hx | ⟨k, hk, hx⟩
      · obtain ⟨id, hid, hname⟩ := exists_holds_of_mem_ownNames hx
        exact ⟨_, n, id, .here n, hid, hname⟩
      · obtain ⟨d, m, id, hm, hid, hname⟩ := ih (n.lookedAt_sublist.subset hk) hx
        exact ⟨d, m, id, .part hk hm, hid, hname⟩
  · rintro ⟨d, m, id, hm, hid, rfl⟩
    induction hm with
    | here n => exact mem_noticed.mpr (.inl hid.mem_ownNames)
    | part hk _ ih => exact mem_noticed.mpr (.inr ⟨_, hk, ih hid⟩)

theorem noticed_subset_names (n : Node c) : n.noticed ⊆ n.names := by
  induction n using partsInduction with
  | step n ih =>
    intro x hx
    rcases mem_noticed.mp hx with hx | ⟨k, hk, hx⟩
    · exact mem_names.mpr (.inl hx)
    · have hpart := n.lookedAt_sublist.subset hk
      exact mem_names.mpr (.inr ⟨_, _, hpart, ih hpart hx⟩)

/-- The names of a tree are those that stand in its nodes. -/
theorem mem_names_iff : x ∈ n.names ↔ ∃ m ∈ n.nodes, ∃ id, m.2.Holds id ∧ id.name = x := by
  induction n using partsInduction with
  | step n ih =>
    constructor
    · intro hx
      rcases mem_names.mp hx with hx | ⟨d, k, hk, hx⟩
      · exact ⟨_, mem_nodes_self, exists_holds_of_mem_ownNames hx⟩
      · obtain ⟨m, hm, hid⟩ := (ih hk).mp hx
        exact ⟨m, mem_nodes_of_part hk hm, hid⟩
    · rintro ⟨m, hm, id, hid, rfl⟩
      rcases mem_nodes.mp hm with rfl | ⟨k, hk, hm⟩
      · exact mem_names.mpr (.inl hid.mem_ownNames)
      · exact mem_names.mpr (.inr ⟨_, _, hk, (ih hk).mpr ⟨m, hm, id, hid, rfl⟩⟩)

end Node

open Node

/-- The names that are taken are those of the identifiers and labels that are reached. If no function
has decorators and no constructor has a computed key, they are those of all identifiers and labels. -/
theorem takenNames_complete (p : Program) (x : String) :
    (x ∈ (ScopeTable.analyze p).takenNames ↔
      ∃ (d : Cat) (m : Node d) (id : Ident), p.Reaches m ∧ m.Holds id ∧ id.name = x) ∧
    (p.all isOpen = true → (x ∈ (ScopeTable.analyze p).takenNames ↔
      ∃ m ∈ p.nodes, ∃ id, m.2.Holds id ∧ id.name = x)) := by
  have htaken : x ∈ (ScopeTable.analyze p).takenNames ↔ x ∈ p.noticed :=
    ScopeTable.mem_takenNames_analyze
  refine ⟨htaken.trans mem_noticed_iff, fun hopen => (htaken.trans ?_).trans mem_names_iff⟩
  exact ⟨fun hx => noticed_subset_names p hx, fun hx => names_subset_noticed hopen hx⟩

/-- `@a class A { constructor(@b c) {} get [d]() {} static { l: while (e) break l; } }` -/
def decoratedClass : Program :=
  let mark (x : String) : Node (.list .decorator) := .ofList [.decorator .none (Build.name x)]
  let start : Node .member := .ctorMember .none 0 (.fixedKey .none (.name "constructor"))
    (.ofList [.param .none (mark "b") (.binder (.ofName "c"))]) (.some (Build.block []))
  let getter : Node .member := .methodMember .none .getter false
    (.computedKey .none (Build.name "d")) (.func .none 0 false false .nil .nil (.some (Build.block [])))
  let rounds : Stmt := .labeledStmt .none (.ofName "l")
    (.whileStmt .none (Build.name "e") (.breakStmt .none (some (.ofName "l"))))
  .scriptProgram .none none (.ofList [.declStmt (.declClass false (.ofName "A") (.cls .none 0 (mark "a")
    (.ofList [start, getter, .staticBlock .none (Build.block [rounds])]) .none))])

theorem takenNames_complete_decoratedClass :
    decoratedClass.all isOpen = true ∧
      (∃ m ∈ decoratedClass.nodes, ∃ id, m.2.Holds id ∧ id.name = "b") ∧
      "b" ∈ (ScopeTable.analyze decoratedClass).takenNames ∧
      "f" ∉ (ScopeTable.analyze decoratedClass).takenNames := by
  have hopen : decoratedClass.all isOpen = true := by decide +kernel
  have hheld : ∃ m ∈ decoratedClass.nodes, ∃ id, m.2.Holds id ∧ id.name = "b" :=
    mem_names_iff.mp (by decide +kernel)
  have hfree : "f" ∉ decoratedClass.names := by decide +kernel
  exact ⟨hopen, hheld, ((takenNames_complete decoratedClass "b").2 hopen).mpr hheld, fun htaken =>
    hfree (mem_names_iff.mpr (((takenNames_complete decoratedClass "f").2 hopen).mp htaken))⟩

/-- `class A { @d m() {} }` -/
def decoratedMethod : Program :=
  let method : Node .func :=
    .func .none 0 false false .nil (.ofList [.decorator .none (Build.name "d")]) (.some (Build.block []))
  .scriptProgram .none none (.ofList [.declStmt (.declClass false (.ofName "A") (.cls .none 0 .nil
    (.ofList [.methodMember .none .method false (.fixedKey .none (.name "m")) method]) .none))])

/-- A name in a decorator of a method is not found. -/
theorem takenNames_misses_decoratedMethod :
    (∃ m ∈ decoratedMethod.nodes, ∃ id, m.2.Holds id ∧ id.name = "d") ∧
      "d" ∉ (ScopeTable.analyze decoratedMethod).takenNames := by
  have hmem : "d" ∈ decoratedMethod.names ∧
      "d" ∉ (ScopeTable.analyze decoratedMethod).takenNames := by decide +kernel
  exact ⟨mem_names_iff.mp hmem.1, hmem.2⟩

end PlainJs

import PlainJs.Proofs.Collected
import PlainJs.Proofs.Encounters

namespace PlainJs

open Node

/-- Something that a module exports. -/
inductive Export
  | binding (kind : VarKind) (id : Ident)
  | resource (isAwait : Bool) (id : Ident)
  | function (id : Ident)
  | cls (id : Ident)
  /-- Names of this module, or of another one, that are listed in braces, and namespaces. -/
  | listed (e : ExportList)
  | defaultFunction (name : Option Ident)
  | defaultClass (name : Option Ident)
  | defaultValue
  | all (source : StrLit)
deriving DecidableEq, Repr

/-- The identifiers by which something is exported. -/
def Export.idents : Export → List Ident
  | binding _ id | resource _ id | function id | cls id => [id]
  | listed e => e.specifiers.flatMap ScopeTable.exportIdents
  | defaultFunction name | defaultClass name => name.toList
  | defaultValue | all _ => []

/-- Whether nothing is exported in trees of a category. -/
def Cat.isInner : Cat → Bool
  | .item | .program => false
  | .list c | .opt c => c.isInner
  | _ => true

namespace Node

/-- What a declaration declares, in source order. -/
def declares : {c : Cat} → Node c → List Export
  | _, .declVar v => v.declares
  | _, .varDecl _ _ kind _ decls => decls.boundIdents.map (.binding kind)
  | _, .declFunc _ name _ => [.function name]
  | _, .declClass _ name _ => [.cls name]
  | _, .declUsing _ isAwait decls => decls.boundIdents.map (.resource isAwait)
  | _, _ => []

/-- What a program exports, in source order. -/
def exports : {c : Cat} → Node c → List Export
  | _, .cons a l => a.exports ++ l.exports
  | _, .some a => a.exports
  | _, .exportDecl _ d => d.declares
  | _, .exportNames e => [.listed e]
  | _, .exportFunc _ name _ => [.defaultFunction name]
  | _, .exportClass _ name _ => [.defaultClass name]
  | _, .exportExpr .. => [.defaultValue]
  | _, .exportAll _ source => [.all source]
  | _, .moduleProgram _ _ items => items.exports
  | _, _ => []

/-- Trees that declare and export the same. -/
structure SameExports {c : Cat} (n n' : Node c) : Prop where
  outline : SameOutline n n'
  declares : n.declares = n'.declares
  exports : n.exports = n'.exports

variable {c : Cat} {n n' : Node c}

/-- The forms of trees that show what their parts declare or export. -/
def isShowing : {c : Cat} → Node c → Bool
  | _, .cons .. | _, .some _ | _, .declVar _ | _, .varDecl .. | _, .declUsing .. | _, .exportDecl ..
  | _, .moduleProgram .. => true
  | _, _ => false

/-- What a tree declares and exports itself. -/
def ownExports (n : Node c) : List Export × List Export :=
  if n.isShowing then ([], []) else (n.declares, n.exports)

theorem SameExports.of_parts (h : Parts SameExports n n') : SameExports n n' := by
  suffices hboth : n.declares = n'.declares ∧ n.exports = n'.exports from
    ⟨.of_parts (h.imp fun _ hk => hk.outline), hboth.1, hboth.2⟩
  have hform : n.isShowing = n'.isShowing := h.form_eq isShowing fun m => by cases m <;> rfl
  cases hn : n.isShowing with
  | false =>
    have hown : n.ownExports = n'.ownExports := h.form_eq ownExports fun m => by cases m <;> rfl
    simpa [ownExports, hn, hform ▸ hn] using hown
  | true =>
    cases n with
    | cons a l =>
      obtain ⟨a', ha, l', hl, rfl⟩ := h
      exact ⟨rfl, congrArg₂ (· ++ ·) ha.exports hl.exports⟩
    | some a =>
      obtain ⟨a', ha, rfl⟩ := h
      exact ⟨rfl, ha.exports⟩
    | declVar v =>
      obtain ⟨v', hv, rfl⟩ := h
      exact ⟨hv.declares, rfl⟩
    | varDecl span ctxt kind declare decls =>
      obtain ⟨decls', hd, rfl⟩ := h
      exact ⟨congrArg (List.map _) hd.outline.idents, rfl⟩
    | declUsing span isAwait decls =>
      obtain ⟨decls', hd, rfl⟩ := h
      exact ⟨congrArg (List.map _) hd.outline.idents, rfl⟩
    | exportDecl span a =>
      obtain ⟨a', ha, rfl⟩ := h
      exact ⟨rfl, ha.declares⟩
    | moduleProgram span interpreter items =>
      obtain ⟨items', hi, rfl⟩ := h
      exact ⟨rfl, hi.exports⟩
    | _ => cases hn

theorem exports_of_isInner (hc : c.isInner = true) (n : Node c) : n.exports = [] := by
  induction n with
  | cons a l iha ihl => exact congrArg₂ (· ++ ·) (iha hc) (ihl hc)
  | some a ih => exact ih hc
  | _ => first | rfl | cases hc

theorem SameExports.of_stmts (hmute : c.isMute = true) (hinner : c.isInner = true)
    (hdecl : ∀ m : Node c, m.declares = []) (n n' : Node c) : SameExports n n' where
  outline := .of_isMute hmute n n'
  declares := by rw [hdecl n, hdecl n']
  exports := by rw [exports_of_isInner hinner n, exports_of_isInner hinner n']

theorem SameExports.of_stmt (s s' : Stmt) : SameExports s s' :=
  .of_stmts rfl rfl (fun m => by cases m <;> rfl) s s'

theorem exports_part {d : Cat} {k : Node d} (hk : ⟨d, k⟩ ∈ n.children) :
    k.exports ⊆ n.exports := by
  have key : ∀ k ∈ n.children, k.2.exports ⊆ n.exports := by
    cases n with
    | cons a l =>
      refine List.forall_mem_cons.mpr ⟨List.subset_append_left _ _, ?_⟩
      exact List.forall_mem_singleton.mpr (List.subset_append_right _ _)
    | moduleProgram span interpreter items =>
      exact List.forall_mem_singleton.mpr (List.Subset.refl _)
    | some a => exact List.forall_mem_singleton.mpr (List.Subset.refl _)
    | _ =>
      repeat'
        first
          | exact List.forall_mem_nil _
          | refine List.forall_mem_cons.mpr ⟨?_, ?_⟩
          | (rw [exports_of_isInner rfl]; exact List.nil_subset _)
  exact key _ hk

end Node

namespace Declarations

open Build

/-- What is exported of the statements that replace an exported declaration. -/
def shown (names : NameSupply) (span : Span) (stmts : List Stmt) : List Export :=
  stmts.flatMap fun s => (reexport names span s).exports

variable {names : NameSupply} {span : Span}

theorem shown_append (l l' : List Stmt) :
    shown names span (l ++ l') = shown names span l ++ shown names span l' :=
  List.flatMap_append

theorem exports_reexport_made {at_ dspan : Span} {ctxt : Nat} {kind : VarKind}
    {declare definite : Bool} {id : Ident} {o : Node (.opt .expr)} (h : id.name ∈ names.made) :
    (reexport names span
      (single at_ ctxt kind declare (.declarator dspan definite (.binder id) o))).exports = [] := by
  have htemp : isTemporary names (.varDecl at_ ctxt kind declare
      (.cons (.declarator dspan definite (.binder id) o) .nil)) = true := by
    simp [isTemporary, declarators, declTarget, NameSupply.isMade, h]
  rw [single, reexport, if_pos htemp]
  rfl

theorem exports_reexport_given {at_ dspan : Span} {ctxt : Nat} {kind : VarKind}
    {declare definite : Bool} {p : Pat} {o : Node (.opt .expr)}
    (h : ∀ id ∈ p.boundIdents, id.name ∉ names.made) :
    (reexport names span (single at_ ctxt kind declare (.declarator dspan definite p o))).exports =
      p.boundIdents.map (.binding kind) := by
  have htemp : ¬isTemporary names (.varDecl at_ ctxt kind declare
      (.cons (.declarator dspan definite p o) .nil)) = true := by
    cases p with
    | binder id =>
      have hid := h id (.head _)
      simp [isTemporary, declarators, declTarget, NameSupply.isMade, hid]
    | _ => simp [isTemporary, declarators, declTarget]
  rw [single, reexport, if_neg htemp]
  change (cons _ nil).boundIdents.map (Export.binding kind) = _
  rw [boundIdents, boundIdents, boundIdents, List.append_nil]

/-- What the statements export, in every supply that has made the names of `t` and none of the given
identifiers. -/
def Exposed (kind : VarKind) (ids : List Ident) (t : Context) (l : List Stmt) : Prop :=
  ∀ (names : NameSupply) (span : Span), t.names.made ⊆ names.made →
    (∀ id ∈ ids, id.name ∉ names.made) → shown names span l = ids.map (.binding kind)

namespace Exposed

variable {kind : VarKind} {ids ids' : List Ident} {s t u : Context} {l l' : List Stmt}

theorem nil : Exposed kind [] t [] := fun _ _ _ _ => rfl

theorem mono (h : Exposed kind ids t l) (htu : t.names.made ⊆ u.names.made) :
    Exposed kind ids u l :=
  fun names span hu => h names span (List.Subset.trans htu hu)

theorem append (h : Exposed kind ids t l) (h' : Exposed kind ids' t l') :
    Exposed kind (ids ++ ids') t (l ++ l') := by
  intro names span ht hids
  obtain ⟨hleft, hright⟩ := List.forall_mem_append.mp hids
  rw [shown_append, h names span ht hleft, h' names span ht hright, List.map_append]

theorem made {id : Ident} {o : Option Expr} (h : id.name ∈ t.names.made) :
    Exposed kind [] t [declare kind id o] := by
  intro names span ht _
  exact (List.append_nil _).trans (exports_reexport_made (ht h))

theorem given {at_ : Span} {ctxt : Nat} {declare definite : Bool} {dspan : Span} {p : Pat}
    {o : Node (.opt .expr)} :
    Exposed kind p.boundIdents t
      [single at_ ctxt kind declare (.declarator dspan definite p o)] := by
  intro names span _ hids
  exact (List.append_nil _).trans (exports_reexport_given hids)

theorem removals (target : Ident) (seen : List Key) :
    Exposed kind [] t (Declarations.removals target seen) := by
  intro names span _ _
  induction seen with
  | nil => rfl
  | cons k seen ih => exact ih

end Exposed

/-- A computation that gives statements that export the given identifiers. -/
def Exposes (kind : VarKind) (ids : List Ident) (x : Lower (List Stmt)) : Prop :=
  ∀ s : Context, Exposed kind ids (x.run s).2 (x.run s).1

theorem exposes_bindName (kind : VarKind) (id : Ident) (default : Option Expr) (value : Expr) :
    Exposes kind [id] (bindName kind id default value) := by
  intro s
  cases default with
  | none => exact .given (p := .binder id)
  | some e =>
    rw [run_bindName_some]
    exact Exposed.append (.made (.head _)) (.given (p := .binder id))

/-- The statement that keeps a value in a temporary, if it is needed. -/
theorem exposed_source (kind : VarKind) (value : Expr) (s : Context) :
    let r := (source kind value).run s
    Exposed kind [] r.2 r.1.2 := by
  rcases run_source kind value s with hrun | ⟨id, -, -, hrun⟩
  · rw [hrun]
    exact .made (.head _)
  · rw [hrun]
    exact .nil

theorem exposed_memberKey (kind : VarKind) (k : Key) (s : Context) :
    let r := (memberKey kind k).run s
    Exposed kind [] r.2 r.1.2 := by
  rcases run_memberKey kind k s with ⟨k', hrun⟩ | ⟨span, e, -, hrun⟩
  · rw [hrun]
    exact .nil
  · rw [hrun]
    exact .made (.head _)

theorem exposes_pattern (kind : VarKind) :
    (∀ p value, Exposes kind p.boundIdents (Declarations.bind kind p value)) ∧
      (∀ elems src i, Exposes kind elems.boundIdents (bindElems kind src i elems)) ∧
        ∀ props src seen, Exposes kind props.boundIdents (bindProps kind src seen props) := by
  apply patternInduction
  case defaultPat =>
    intro span p e ih value s
    rw [run_bind_defaultPat]
    have hmade := (draws_bind kind p (orDefault (tempName s) e) (s.withFresh "tmp")).made
    exact Exposed.append (.made (hmade (.head _))) (ih _ _)
  case arrayPat =>
    intro span optional elems ih value s
    rw [run_bind_arrayPat]
    exact ((exposed_source kind value s).mono (draws_bindElems kind _ 0 elems _).made).append
      (ih _ 0 _)
  case objectPat =>
    intro span optional props ih value s
    rw [run_bind_objectPat]
    exact ((exposed_source kind value s).mono (draws_bindProps kind _ [] props _).made).append
      (ih _ [] _)
  case restPat =>
    intro span dots p ih value s
    rw [run_bind_restPat]
    exact ih value s
  case binder | exprPat | invalidPat =>
    intro _ value s
    rw [Declarations.bind]
    exact .given
  case noElems =>
    intro src i s
    rw [run_bindElems_nil]
    exact .nil
  case hole =>
    intro rest ih src i s
    rw [run_bindElems_none]
    exact ih src (i + 1) s
  case elem =>
    intro p rest hp ih src i s
    rw [run_bindElems_some]
    exact ((hp (elemValue src i p) s).mono (draws_bindElems kind src (i + 1) rest _).made).append
      (ih src (i + 1) _)
  case noProps =>
    intro src seen s
    rw [run_bindProps_nil]
    exact .nil
  case keyedPat =>
    intro k p rest hp ih src seen s
    rw [run_bindProps_keyed]
    let value := access (.ref src) ((memberKey kind k).run s).1.1
    have hkey := (exposed_memberKey kind k s).mono (draws_bind kind p value _).made
    have hhead := hkey.append (hp value _)
    exact (hhead.mono (draws_bindProps kind src _ rest _).made).append (ih src _ _)
  case shortPat =>
    intro span id default rest ih src seen s
    rw [run_bindProps_short]
    have hhead := exposes_bindName kind id default.toOption (access (.ref src) (shortKey id)) s
    exact (hhead.mono (draws_bindProps kind src _ rest _).made).append (ih src _ _)
  case restProp =>
    intro span dots p rest hp ih src seen s
    rw [run_bindProps_rest]
    have hremoved {t : Context} : Exposed kind [] t ((p.binder?.map (removals · seen)).getD []) := by
      cases p.binder? with
      | none => exact .nil
      | some id => exact .removals id seen
    have hhead := (hp (ownCopy src) s).append hremoved
    rw [List.append_nil] at hhead
    exact (hhead.mono (draws_bindProps kind src seen rest _).made).append (ih src seen _)

theorem exposes_bind (kind : VarKind) (p : Pat) (value : Expr) :
    Exposes kind p.boundIdents (Declarations.bind kind p value) :=
  (exposes_pattern kind).1 p value

theorem exposes_splitDeclarator (at_ : Span) (ctxt : Nat) (kind : VarKind) (declare : Bool)
    (a : Declarator) :
    Exposes kind a.boundIdents (splitDeclarator at_ ctxt kind declare a) := by
  intro s
  cases a with
  | declarator dspan definite p o =>
    rcases run_splitDeclarator at_ ctxt kind declare dspan definite p o s with
      ⟨fault, -, hrun⟩ | ⟨-, hrun⟩ | ⟨-, e, rfl, hrun⟩
    · rw [hrun]
      exact .given
    · rw [hrun]
      exact .given
    · rw [hrun]
      exact exposes_bind kind p e s

theorem exposes_split (v : VarDecl) (s : Context) {names : NameSupply} {span : Span}
    (hnames : ((split v).run s).2.names.made ⊆ names.made)
    (hids : ∀ e ∈ v.declares, ∀ id ∈ e.idents, id.name ∉ names.made) :
    shown names span ((split v).run s).1 = v.declares := by
  cases v with
  | varDecl at_ ctxt kind declare decls =>
    have hall (l : List Declarator) (s : Context) :
        let r := (l.mapM (splitDeclarator at_ ctxt kind declare)).run s
        Exposed kind (l.flatMap boundIdents) r.2 r.1.flatten := by
      induction l generalizing s with
      | nil => exact .nil
      | cons a l ih =>
        have hmade := (steps_splitDeclarators at_ ctxt kind declare l
          ((splitDeclarator at_ ctxt kind declare a).run s).2).made
        rw [List.mapM_cons]
        exact ((exposes_splitDeclarator at_ ctxt kind declare a s).mono hmade).append (ih _)
    have hidents : decls.boundIdents = decls.toList.flatMap boundIdents := by
      rw [← ofList_toList decls, toList_ofList]
      induction decls.toList with
      | nil => rfl
      | cons a l ih => exact congrArg (a.boundIdents ++ ·) ih
    have hexposed := hall decls.toList s
    rw [← hidents] at hexposed
    exact hexposed names span hnames fun id hid =>
      hids (.binding kind id) (List.mem_map_of_mem hid) id (.head _)

end Declarations

section Passes

variable {c : Cat} {base : List String}

theorem exports_prepend (l : List Item) (rest : Node (.list .item)) :
    (Declarations.prepend l rest).exports = l.flatMap exports ++ rest.exports := by
  have hlist (l : List Item) : (ofList l).exports = l.flatMap exports := by
    induction l with
    | nil => rfl
    | cons a l ih => exact congrArg (a.exports ++ ·) ih
  rw [Declarations.prepend, hlist, List.flatMap_append, ← hlist rest.toList, ofList_toList]

/-- The names that a tree exports are known. -/
def Node.Exports (base : List String) (n : Node c) : Prop :=
  ∀ e ∈ n.exports, ∀ id ∈ e.idents, id.name ∈ base

theorem declares_of_isList {c : Cat} (l : Node (.list c)) : l.declares = [] := by cases l <;> rfl

/-- Lists that export the same. -/
theorem Node.SameExports.of_list {c : Cat} (hc : (Cat.list c).isMute = true)
    {l l' : Node (.list c)} (h : l.exports = l'.exports) : SameExports l l' :=
  ⟨.of_isMute hc l l', by rw [declares_of_isList, declares_of_isList], h⟩

/-- The pass that splits declarations keeps the exports, if the supply has known their names. -/
theorem sameExports_splitDeclarations {s : Context} (hs : s.names.Tidy base) (n : Node c)
    (hn : n.Exports base) : stepping.Meets s (splitDeclarations n) fun _ => ⟨SameExports n⟩ := by
  intro t ht
  refine ⟨steps_splitDeclarations n t, ?_⟩
  change SameExports n ((splitDeclarations n).run t).1
  induction c, n using splitDeclarations.induct generalizing t with
  | case1 v rest ihv ihrest =>
    refine .of_list rfl ?_
    rw [exports_of_isInner rfl, exports_of_isInner rfl]
  | case2 v rest ihv ihrest =>
    refine .of_list rfl ?_
    let t₁ := ((splitDeclarations v).run t).2
    let r := (Declarations.splitIfNeeded ((splitDeclarations v).run t).1).run t₁
    have ht₂ : s.Steps r.2 := ht.trans ((steps_splitDeclarations v t).trans (steps_splitIfNeeded _ _))
    have hrest := ihrest (fun e he => hn e (List.mem_append_right _ he)) r.2 ht₂
    have hitems : (r.1.map stmtItem).flatMap exports = [] := by
      rw [List.flatMap_map]
      exact List.flatMap_eq_nil_iff.mpr fun _ _ => rfl
    rw [splitDeclarations]
    change rest.exports = (Declarations.prepend (r.1.map stmtItem)
      ((splitDeclarations rest).run r.2).1).exports
    rw [exports_prepend, hitems, hrest.exports, List.nil_append]
  | case3 span v rest ihv ihrest =>
    refine .of_list rfl ?_
    have hinner : v.Exports base := by
      rw [Node.Exports, exports_of_isInner rfl]
      exact fun _ h => absurd h List.not_mem_nil
    have hv := ihv hinner t ht
    let v' := ((splitDeclarations v).run t).1
    let t₁ := ((splitDeclarations v).run t).2
    have ht₁ : s.Steps t₁ := ht.trans (steps_splitDeclarations v t)
    have hdeclares : v.declares = v'.declares := hv.declares
    have hknown : rest.Exports base := fun e he => hn e (List.mem_append_right _ he)
    change v.declares ++ rest.exports = _
    rw [splitDeclarations, StateT.run_bind]
    change _ = (StateT.run (if v'.needsSplit then _ else _ : Lower (Node (.list .item))) t₁).1.exports
    split
    · let r := (Declarations.split v').run t₁
      have ht₂ : s.Steps r.2 := ht₁.trans (Declarations.steps_split v' t₁)
      have hrest := ihrest hknown r.2 ht₂
      -- the supply has known the exported names, so it has made none of them
      have hnone : ∀ e ∈ v'.declares, ∀ id ∈ e.idents, id.name ∉ r.2.names.made := by
        intro e he id hid hmade
        have hmem : e ∈ v.declares := hdeclares ▸ he
        exact (ht₂.tidy hs).apart _ hmade (hn e (List.mem_append_left _ hmem) id hid)
      have hitems : (r.1.map (Declarations.reexport r.2.names span)).flatMap exports = v'.declares := by
        rw [List.flatMap_map]
        exact Declarations.exposes_split v' t₁ (List.Subset.refl _) hnone
      change _ = (Declarations.prepend (r.1.map (Declarations.reexport r.2.names span))
        ((splitDeclarations rest).run r.2).1).exports
      rw [exports_prepend, hitems, hdeclares, hrest.exports]
    · have hrest := ihrest hknown t₁ ht₁
      exact congrArg₂ (· ++ ·) hdeclares hrest.exports
  | case4 v ihv => exact .of_stmt _ _
  | case5 c n h₁ h₂ h₃ h₄ ih =>
    rw [splitDeclarations.eq_5 n h₁ h₂ h₃ h₄]
    have hparts := Parts.of_traverse (r := stepping) (P := fun _ {_} k k' => SameExports k k') (fun _ hk => hk)
      (fun k hk u hu => ⟨steps_splitDeclarations k u, ih k hk (fun e he => hn e (exports_part hk he)) u hu⟩) t ht
    exact .of_parts hparts.2

/-- A pass from the inside out keeps the exports. -/
theorem sameExports_bottomUp (f : Stmt → Lower Stmt) (n : Node c) (s : Context) :
    SameExports n ((Lower.bottomUp f n).run s).1 := by
  induction n using partsInduction generalizing s with
  | @step c n ih =>
    have hparts := SameExports.of_parts (parts_traverse lowering (fun _ hk s => ih hk s) s)
    rw [Rewrites.run_bottomUp]
    by_cases hc : c = .stmt
    · subst hc
      exact .of_stmt _ _
    · simp only [Lower.onStmt_of_ne hc]
      exact hparts

/-- Replacing every `continue` keeps the exports. -/
theorem sameExports_replaceContinuesIn (n : Node c) (s : Spot) :
    SameExports n ((replacing []).run (replaceContinuesIn n) s).1 := by
  induction c, n using replaceContinuesIn.induct generalizing s with
  | case1 span label body ih => exact .of_stmt _ _
  | case2 span label => exact .of_stmt _ _
  | case3 c n hlabel hcontinue hloop ih =>
    obtain rfl : c = .stmt := by cases n <;> first | rfl | exact Bool.noConfusion hloop
    exact .of_stmt _ _
  | case4 c n hlabel hcontinue hloop hfun ih =>
    rw [replaceContinuesIn.eq_3 n hlabel hcontinue, if_neg hloop, if_pos hfun, run_isolated]
    exact .of_parts (parts_traverse (replacing []) (fun k hk s => ih k hk s) _)
  | case5 c n hlabel hcontinue hloop hfun ih =>
    rw [replaceContinuesIn.eq_3 n hlabel hcontinue, if_neg hloop, if_neg hfun]
    exact .of_parts (parts_traverse (replacing []) (fun k hk s => ih k hk s) _)

theorem exports_pass (stage : Stage) {p : Program} {cx : Context} (hp : p.Exports base)
    (hcx : cx.names.Tidy base) : p.exports = ((stage.pass p).run cx).1.exports := by
  cases stage with
  | declarations => exact (sameExports_splitDeclarations hcx p hp cx .refl).2.exports
  | continues => exact (sameExports_replaceContinuesIn p ([], cx)).exports
  | loops | switches | finallys => exact (sameExports_bottomUp _ p cx).exports

end Passes

namespace ScopeTable

/-- The identifiers that a tree shows: those that its patterns bind, that it declares, and by which
it exports something. -/
def surface {c : Cat} (n : Node c) : List Ident :=
  n.boundIdents ++ (n.declares ++ n.exports).flatMap Export.idents

theorem flatMap_idents_binding (kind : VarKind) (ids : List Ident) :
    (ids.map (Export.binding kind)).flatMap Export.idents = ids := by
  simp [List.flatMap_map, Export.idents]

theorem flatMap_idents_resource (isAwait : Bool) (ids : List Ident) :
    (ids.map (Export.resource isAwait)).flatMap Export.idents = ids := by
  simp [List.flatMap_map, Export.idents]

/-- What a tree shows itself or shows of its parts. -/
theorem surface_subset {c : Cat} (n : Node c) :
    surface n ⊆ ownIdents n ++ n.children.flatMap fun k => surface k.2 := by
  cases n
  all_goals
    first
      | exact List.nil_subset _
      | intro id hid
        simp only [surface, boundIdents, declares, exports, Export.idents, ownIdents, children,
          List.flatMap_cons, List.flatMap_nil, List.append_nil, List.nil_append, List.mem_append,
          List.flatMap_append, flatMap_idents_binding, flatMap_idents_resource] at hid ⊢
        grind

/-- What a tree shows is found by the analysis: nothing is shown where parts are passed over. -/
theorem surface_noticed {c : Cat} (n : Node c) : ∀ id ∈ surface n, id.name ∈ n.noticed := by
  induction n using partsInduction with
  | step n ih =>
    intro id hid
    rcases List.mem_append.mp (surface_subset n hid) with hown | hpart
    · exact mem_noticed.mpr (.inl (List.mem_append_right _ (List.mem_map_of_mem hown)))
    · obtain ⟨k, hk, hpart⟩ := List.mem_flatMap.mp hpart
      have hmem : k ∈ n.lookedAt := by
        cases n with
        | func | ctorMember => cases hid
        | _ => exact hk
      exact mem_noticed.mpr (.inr ⟨k, hmem, ih hk id hpart⟩)

end ScopeTable

/-- The names by which a program exports something are known to the supply from the start. -/
theorem exports_known (config : Config) (p : Program) :
    p.Exports (Context.start config p).names.reserved := by
  intro e he id hid
  have hsurface : id ∈ ScopeTable.surface p :=
    List.mem_append_right _ (List.mem_flatMap.mpr ⟨e, List.mem_append_right _ he, hid⟩)
  exact ScopeTable.mem_takenNames_analyze.mpr (ScopeTable.surface_noticed p id hsurface)

/-- Lowering keeps what a program exports, in order and with the kinds of the variables, and no identifier
among them has a name that the supply has made. Names written as strings are kept with the rest, but
they are not identifiers, and a made name may agree with one. -/
theorem lowerProgram_keeps_exports {config : Config} {p : Program}
    (hvalid : config.validate = .ok ()) :
    let r := (Lowering.run p).run (.start config p)
    lowerProgram config p = .ok ⟨r.1, r.2.diagnostics⟩ ∧ r.1.exports = p.exports ∧
      ∀ x ∈ r.2.names.made, ∀ e ∈ r.1.exports, ∀ id ∈ e.idents, id.name ≠ x := by
  intro r
  let base := (Context.start config p).names.reserved
  have hprogram : r.1 = ((Lowering.stages p).run (.start config p)).1 := rfl
  have hnames : r.2.names = ((Lowering.stages p).run (.start config p)).2.names :=
    Lowering.names_finish _ _
  have hknown : p.Exports base := exports_known config p
  have hstart : (Context.start config p).names.Tidy base := NameSupply.tidy_avoiding _
  obtain ⟨hexports, htidy⟩ : r.1.exports = p.exports ∧ r.2.names.Tidy base := by
    rw [hprogram, hnames]
    refine Lowering.stages_induction
      (I := fun _ q cx => q.exports = p.exports ∧ cx.names.Tidy base) ?_ ?_ ⟨rfl, hstart⟩
    · exact fun h _ => h
    · rintro before after stage q cx - ⟨hq, hcx⟩ - -
      have hkept := exports_pass stage (fun e he => hknown e (hq ▸ he)) hcx
      exact ⟨hkept.symm.trans hq, (stage.steps_pass q cx).tidy hcx⟩
  refine ⟨Lowering.lowerProgram_eq hvalid p, hexports, ?_⟩
  rintro x hx e he id hid rfl
  exact htidy.apart _ hx (hknown e (hexports ▸ he) id hid)

/-- `export const { a: [b, ...c], [k]: d = 1, ...tmp } = o, e = 2; export { x as y, z };
export default class tmp1 {}` -/
def exportedPattern : Program :=
  let id (s : String) : Ident := .ofName s
  let elems : Pat := .arrayPat .none false (.ofList [.some (.binder (id "b")),
    .some (.restPat .none .none (.binder (id "c")))])
  let pattern : Pat := .objectPat .none false (.ofList [
    .keyedPat (.fixedKey .none (.name "a")) elems,
    .keyedPat (.computedKey .none (Build.name "k"))
      (.defaultPat .none (.binder (id "d")) (Build.num 1)),
    .restProp .none .none (.binder (id "tmp"))])
  .moduleProgram .none none (.ofList [
    .exportDecl .none (.declVar (.varDecl .none 0 .const false (.ofList [
      .declarator .none false pattern (.some (Build.name "o")),
      .declarator .none false (.binder (id "e")) (.some (Build.num 2))]))),
    .exportNames ⟨.none, [.named .none (.ident (id "x")) (some (.ident (id "y"))),
      .named .none (.ident (id "z")) none], none⟩,
    .exportClass .none (some (id "tmp1")) (.cls .none 0 .nil .nil .none)])

theorem lowerProgram_keeps_exports_exportedPattern :
    let r := (Lowering.run exportedPattern).run (.start .default exportedPattern)
    Config.default.validate = .ok () ∧ r.1.exports = exportedPattern.exports ∧
      exportedPattern.exports.length = 7 ∧ r.2.names.made ≠ [] := by
  have hvalid : Config.default.validate = .ok () := by decide +kernel
  exact ⟨hvalid, (lowerProgram_keeps_exports hvalid).2.1, by decide +kernel, by decide +kernel⟩

end PlainJs

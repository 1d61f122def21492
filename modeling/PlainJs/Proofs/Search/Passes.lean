import PlainJs.Proofs.Carried
import PlainJs.Proofs.Declarations.Runs
import PlainJs.Proofs.Search.Basic

namespace PlainJs

open Node Build

namespace Lower

/-- From every context after `base`, a computation gives something with a property. -/
def Ensures {α : Type} (base : Context) (P : α → Prop) (x : Lower α) : Prop :=
  stepping.Meets base x fun _ => ⟨P⟩

namespace Ensures

variable {α β : Type} {base : Context} {P : β → Prop} {Q : α → Prop}

theorem pure {b : β} (h : P b) : Ensures base P (pure b) := fun _ _ => ⟨.refl, h⟩

theorem bind {x : Lower α} {f : α → Lower β} (hx : Ensures base Q x)
    (hf : ∀ a, Q a → Ensures base P (f a)) : Ensures base P (x >>= f) := by
  intro s hs
  obtain ⟨hsteps, ha⟩ := hx s hs
  obtain ⟨hsteps', hb⟩ := hf _ ha _ (hs.trans hsteps)
  exact ⟨hsteps.trans hsteps', hb⟩

theorem mono {P' : β → Prop} {x : Lower β} (hx : Ensures base P x) (h : ∀ b, P b → P' b) :
    Ensures base P' x :=
  fun s hs => ⟨(hx s hs).1, h _ (hx s hs).2⟩

/-- A computation that looks at the context. -/
theorem look {f : Context → Lower β} (h : ∀ s, base.Steps s → Ensures base P (f s)) :
    Ensures base P (get >>= f) :=
  fun s hs => h s hs s hs

theorem fresh {hint : String} (stem : hint ∈ NameSupply.hints) :
    Ensures base (fun id => ∃ u, base.Steps u ∧ id.name = u.names.pick hint) (Lower.fresh hint) :=
  fun s hs => ⟨.fresh hint stem .refl, s, hs, rfl⟩

theorem freshLabel {hint : String} (stem : hint ∈ NameSupply.labelHints) :
    Ensures base (fun _ => True) (Lower.freshLabel hint) :=
  fun _ _ => ⟨.freshLabel hint stem .refl, trivial⟩

theorem unsupported (span : Span) (message : String) :
    Ensures base (fun _ => True) (Lower.unsupported span message) :=
  fun _ _ => ⟨.record _ Bool.noConfusion .refl, trivial⟩

theorem limitation (span : Span) (message : String) :
    Ensures base (fun _ => True) (Lower.limitation span message) :=
  fun _ _ => ⟨.record _ Bool.noConfusion .refl, trivial⟩

theorem forM {f : α → Lower Unit} (h : ∀ a, Ensures base (fun _ => True) (f a)) (l : List α) :
    Ensures base (fun _ => True) (l.forM f) := by
  induction l with
  | nil => exact .pure trivial
  | cons a l ih => exact (h a).bind fun _ _ => ih

theorem mapM {f : α → Lower β} {R : α → β → Prop} {l : List α}
    (h : ∀ a ∈ l, Ensures base (R a) (f a)) :
    Ensures base (fun l' => List.Forall₂ R l l') (l.mapM f) := by
  induction l with
  | nil => exact .pure .nil
  | cons a l ih =>
    obtain ⟨ha, hl⟩ := List.forall_mem_cons.mp h
    rw [List.mapM_cons]
    exact ha.bind fun b hb => (ih hl).bind fun l' hl' => .pure (.cons hb hl')

theorem traverse {P : ∀ {d : Cat}, Node d → Node d → Prop} {c : Cat} {n : Node c}
    {f : {d : Cat} → (k : Node d) → ⟨d, k⟩ ∈ n.children → Lower (Node d)}
    (h : ∀ {d : Cat} (k : Node d) (hk : ⟨d, k⟩ ∈ n.children), Ensures base (P k) (f k hk)) :
    Ensures base (Parts P n) (n.traverse fun k hk => f k hk) :=
  Parts.of_traverse (r := stepping) (P := fun _ {_} k k' => P k k') (fun _ hk => hk) h

end Ensures

end Lower

namespace Search

variable {q : Search} {base : Context} {c : Cat}

/-- The supply hands out no name that is looked for, from `base` on. -/
def Spares (q : Search) (base : Context) : Prop :=
  ∀ u, base.Steps u → ∀ hint ∈ NameSupply.hints, ∀ kind, q.declares kind (u.names.pick hint) = false

/-- A name that does not count where it is declared. -/
def Ignores (q : Search) (id : Ident) : Prop := ∀ kind, q.declares kind id.name = false

theorem Spares.fresh (h : q.Spares base) {hint : String} (stem : hint ∈ NameSupply.hints) :
    Lower.Ensures base q.Ignores (Lower.fresh hint) := by
  refine (Lower.Ensures.fresh stem).mono ?_
  rintro id ⟨u, hu, hid⟩ kind
  rw [hid]
  exact h u hu hint stem kind

section Declarations

open Declarations

theorem ensures_temp (hq : q.Spares base) (kind : VarKind) (value : Expr) :
    Lower.Ensures base (fun r => q.finds r.2 = q.finds value) (temp kind value) :=
  (hq.fresh (by decide)).bind fun t ht => .pure (by simp [ht kind])

theorem ensures_newSource (hq : q.Spares base) (kind : VarKind) (value : Expr) :
    Lower.Ensures base (fun r => r.2.any q.finds = q.finds value) (do
      let (t, s) ← temp kind value
      return (t, [s])) :=
  (ensures_temp hq kind value).bind fun _ hs => .pure (by simp [hs])

theorem ensures_source (hq : q.Spares base) (kind : VarKind) (value : Expr) :
    Lower.Ensures base (fun r => r.2.any q.finds = q.finds value) (source kind value) := by
  unfold source
  cases value with
  | ref id =>
    refine .look fun s _ => ?_
    split
    · exact .pure (finds_ref id).symm
    · exact ensures_newSource hq kind (.ref id)
  | _ => exact ensures_newSource hq kind _

/-- A key that stands in a member access holds nothing: its expression has been evaluated before. -/
theorem ensures_memberKey (hq : q.Spares base) (kind : VarKind) (k : Key) :
    Lower.Ensures base (fun r => q.finds r.1 = false ∧ r.2.any q.finds = q.finds k)
      (memberKey kind k) := by
  unfold memberKey
  split
  case h_7 span e _ _ => exact (hq.fresh (by decide)).bind fun t ht => .pure (by simp [ht kind])
  all_goals exact .pure (by simp)

theorem finds_orDefault (t : Ident) (e : Expr) : q.finds (orDefault t e) = q.finds e := by
  simp [orDefault]

theorem ensures_bindName (hq : q.Spares base) (kind : VarKind) (id : Ident)
    (default : Option Expr) (value : Expr) :
    Lower.Ensures base (fun l => l.any q.finds =
      (q.finds value || (q.declares kind id.name || default.any q.finds)))
      (bindName kind id default value) := by
  cases default with
  | none => exact .pure (by simp [Bool.or_comm])
  | some e =>
    exact (ensures_temp hq kind value).bind fun r hr => .pure (by simp [hr, finds_orDefault])

theorem any_removals {seen : List Key} (h : ∀ k ∈ seen, q.finds k = false) (target : Ident) :
    (removals target seen).any q.finds = false := by
  rw [removals, List.any_map, List.any_eq_false]
  intro k hk
  simp [h k hk]

theorem ensures_pattern (hq : q.Spares base) (kind : VarKind) :
    (∀ p value, Lower.Ensures base
      (fun l => l.any q.finds = (q.finds value || (q.marks kind p || q.finds p)))
        (Declarations.bind kind p value)) ∧
      (∀ elems src index, Lower.Ensures base
        (fun l => l.any q.finds = (q.marks kind elems || q.finds elems))
          (bindElems kind src index elems)) ∧
      ∀ props src seen, (∀ k ∈ seen, q.finds k = false) → Lower.Ensures base
        (fun l => l.any q.finds = (q.marks kind props || q.finds props))
          (bindProps kind src seen props) := by
  apply patternInduction
  case defaultPat =>
    intro span p e ih value
    rw [Declarations.bind]
    refine (ensures_temp hq kind value).bind fun r hr => ?_
    refine (ih (orDefault r.1 e)).bind fun l hl => .pure ?_
    have hmarks : q.marks kind (.defaultPat span p e) = q.marks kind p := rfl
    rw [List.any_cons, hr, hl, finds_orDefault, finds_defaultPat, hmarks]
    ac_rfl
  case arrayPat =>
    intro span optional elems ih value
    rw [Declarations.bind]
    refine (ensures_source hq kind value).bind fun r hr => ?_
    refine (ih r.1 0).bind fun l hl => .pure ?_
    rw [List.any_append, hr, hl, finds_arrayPat]
    rfl
  case objectPat =>
    intro span optional props ih value
    rw [Declarations.bind]
    refine (ensures_source hq kind value).bind fun r hr => ?_
    refine (ih r.1 [] (List.forall_mem_nil _)).bind fun l hl => .pure ?_
    rw [List.any_append, hr, hl, finds_objectPat]
    rfl
  case restPat =>
    intro span dots p ih value
    rw [Declarations.bind, finds_restPat]
    exact ih value
  case exprPat =>
    intro e value
    rw [Declarations.bind]
    exact .pure (by simp; ac_rfl)
  case binder | invalidPat =>
    intro _ value
    rw [Declarations.bind]
    exact .pure (by simp [Bool.or_comm])
  case noElems =>
    intro src index
    rw [bindElems]
    exact .pure (by simp)
  case hole =>
    intro rest ih src index
    rw [bindElems]
    refine (ih src (index + 1)).mono fun l hl => ?_
    rw [hl, finds_cons, finds_none, Bool.false_or]
    rfl
  case elem =>
    intro p rest hp ih src index
    rw [bindElems]
    have hvalue : q.finds (if p.isRest then elemsFrom src index
        else computed (.ref src) (Build.num index)) = false := by
      split <;> simp [elemsFrom]
    refine (hp _).bind fun l hl => ?_
    refine (ih src (index + 1)).bind fun l' hl' => .pure ?_
    have hmarks : q.marks kind (.some p) = q.marks kind p := rfl
    rw [List.any_append, hl, hl', hvalue, finds_cons, finds_some, marks_cons, hmarks,
      Bool.false_or]
    ac_rfl
  case noProps =>
    intro src seen _
    rw [bindProps]
    exact .pure (by simp)
  case keyedPat =>
    intro k p rest hp ih src seen hseen
    rw [bindProps]
    refine (ensures_memberKey hq kind k).bind fun r hr => ?_
    have hseen' : ∀ k ∈ seen ++ [r.1], q.finds k = false :=
      List.forall_mem_append.mpr ⟨hseen, List.forall_mem_singleton.mpr hr.1⟩
    refine (hp _).bind fun l hl => ?_
    refine (ih src _ hseen').bind fun l' hl' => .pure ?_
    have hmarks : q.marks kind (.keyedPat k p) = q.marks kind p := rfl
    rw [marks_cons, finds_cons, List.any_append, List.any_append, hr.2, hl, hl', finds_access,
      finds_ref, hr.1, finds_keyedPat, hmarks, Bool.false_or, Bool.false_or]
    ac_rfl
  case shortPat =>
    intro span id default rest ih src seen hseen
    rw [bindProps]
    have hseen' : ∀ k ∈ seen ++ [.fixedKey id.span (.name id.name)], q.finds k = false :=
      List.forall_mem_append.mpr ⟨hseen, List.forall_mem_singleton.mpr (finds_fixedKey _ _)⟩
    refine (ensures_bindName hq kind id default.toOption _).bind fun l hl => ?_
    refine (ih src _ hseen').bind fun l' hl' => .pure ?_
    have hmarks : q.marks kind (.shortPat span id default) = q.declares kind id.name := by
      simp [marks, boundIdents]
    rw [marks_cons, finds_cons, List.any_append, hl, hl', any_toOption, hmarks, finds_access,
      finds_ref, finds_fixedKey, finds_shortPat, Bool.false_or, Bool.false_or]
    ac_rfl
  case restProp =>
    intro span dots p rest hp ih src seen hseen
    rw [bindProps]
    have hcopy : q.finds (ownCopy src) = false := by simp [ownCopy]
    have hremoved : ((p.binder?.map (removals · seen)).getD []).any q.finds = false := by
      cases p.binder? with
      | none => rfl
      | some id => exact any_removals hseen id
    refine (hp _).bind fun l hl => ?_
    refine (ih src seen hseen).bind fun l' hl' => .pure ?_
    have hmarks : q.marks kind (.restProp span dots p) = q.marks kind p := rfl
    rw [marks_cons, finds_cons, List.any_append, List.any_append, hl, hremoved, hl', hcopy,
      finds_restProp, hmarks, Bool.false_or, Bool.or_false]
    ac_rfl

/-- The statements that bind a pattern hold what the pattern and its value hold. -/
theorem ensures_bind (hq : q.Spares base) (kind : VarKind) (p : Pat) (value : Expr) :
    Lower.Ensures base (fun l => l.any q.finds = (q.finds value || (q.marks kind p || q.finds p)))
      (Declarations.bind kind p value) :=
  (ensures_pattern hq kind).1 p value

theorem ensures_splitDeclarator (hq : q.Spares base) (span : Span) (ctxt : Nat) (kind : VarKind)
    (declare : Bool) (a : Declarator) :
    Lower.Ensures base (fun l => l.any q.finds = (q.marks kind a || q.finds a))
      (splitDeclarator span ctxt kind declare a) := by
  have hsingle : [single span ctxt kind declare a].any q.finds = (q.marks kind a || q.finds a) := by
    simp [single]
  intro s hs
  cases a with
  | declarator dspan definite p o =>
    change s.Steps ((splitDeclarator span ctxt kind declare _).run s).2 ∧
      ((splitDeclarator span ctxt kind declare _).run s).1.any q.finds = _
    refine ⟨steps_splitDeclarator span ctxt kind declare _ s, ?_⟩
    rcases run_splitDeclarator span ctxt kind declare dspan definite p o s with
      ⟨fault, -, hrun⟩ | ⟨-, hrun⟩ | ⟨-, e, rfl, hrun⟩
    · rw [hrun, hsingle]
    · rw [hrun, hsingle]
    · rw [hrun, marks_declarator, finds_declarator, finds_some]
      refine (ensures_bind hq kind p e s hs).2.trans ?_
      ac_rfl

theorem ensures_split (hq : q.Spares base) (v : VarDecl) :
    Lower.Ensures base (fun l => l.any q.finds = q.finds v) (split v) := by
  cases v with
  | varDecl span ctxt kind declare decls =>
    refine (Lower.Ensures.mapM fun a _ =>
      ensures_splitDeclarator hq span ctxt kind declare a).bind fun parts hparts => .pure ?_
    rw [finds_varDecl, ← ofList_toList decls, marks_ofList, finds_ofList]
    generalize decls.toList = l at hparts
    induction hparts with
    | nil => rfl
    | cons ha _ ih =>
      rw [List.flatten_cons, List.any_append, ha, ih, List.any_cons, List.any_cons]
      ac_rfl

theorem ensures_splitIfNeeded (hq : q.Spares base) (v : VarDecl) :
    Lower.Ensures base (fun l => l.any q.finds = q.finds v) (splitIfNeeded v) := by
  unfold splitIfNeeded
  split
  · exact ensures_split hq v
  · exact .pure (by simp)

theorem finds_reexport (names : NameSupply) (span : Span) (k : Stmt) :
    q.finds (reexport names span k) = q.finds k := by
  unfold reexport
  split
  · split <;> simp
  · simp

theorem finds_prepend (l : List (Node c)) (rest : Node (.list c)) :
    q.finds (prepend l rest) = (l.any q.finds || q.finds rest) := by
  rw [prepend, finds_ofList, List.any_append, any_toList]

end Declarations

variable {q' : Search} {n n' : Node c}

/-- The forms of nodes that can be looked for. -/
def isSought : {c : Cat} → Node c → Bool
  | _, .call .. | _, .forInStmt .. | _, .varDecl .. | _, .declFunc .. | _, .declClass ..
  | _, .exportFunc .. | _, .exportClass .. | _, .declUsing .. | _, .headUsing ..
  | _, .importItem .. => true
  | _, _ => false

theorem own_of_not_isSought (h : isSought n = false) : q.own n = false := by
  cases n <;> first | rfl | cases h

theorem own_of_parts (h : Parts SameFace n n') : q.own n' = q.own n := by
  have hsought : isSought n = isSought n' := h.form_eq isSought fun m => by cases m <;> rfl
  cases hn : isSought n with
  | false => rw [own_of_not_isSought hn, own_of_not_isSought (hsought ▸ hn)]
  | true =>
    cases n with
    | call span ctxt callee args =>
      obtain ⟨callee', hcallee, args', -, rfl⟩ := h
      rw [own_call, own_call, hcallee.name]
    | forInStmt span head subject body =>
      obtain ⟨head', hhead, subject', -, body', -, rfl⟩ := h
      rw [own_forInStmt, own_forInStmt, hhead.keys]
    | varDecl span ctxt kind declare decls =>
      obtain ⟨decls', hdecls, rfl⟩ := h
      rw [own_varDecl, own_varDecl, hdecls.outline.idents]
    | declUsing | headUsing =>
      obtain ⟨decls', hdecls, rfl⟩ := h
      exact congrArg (List.any · fun id => q.names id.name) hdecls.outline.idents.symm
    | declFunc | declClass | exportFunc | exportClass =>
      obtain ⟨a, -, rfl⟩ := h
      rfl
    | importItem =>
      obtain rfl := h
      rfl
    | _ => cases hn

/-- The parts of trees of the same form, compared one by one. -/
theorem inner_of_parts (hdeep : q'.deep = q.deep)
    (h : Parts (fun k k' => q'.finds k' = q.finds k) n n') : q'.inner n' = q.inner n := by
  have hfun : n.isFunctionLike = n'.isFunctionLike :=
    h.form_eq isFunctionLike fun m => by cases m <;> rfl
  have hany : (n'.children.any fun k => q'.finds k.2) = n.children.any fun k => q.finds k.2 := by
    have hpaired := h.children
    clear h hfun
    generalize n.children = l, n'.children = l' at hpaired
    induction hpaired with
    | nil => rfl
    | cons hk _ ih =>
      obtain ⟨hk⟩ := hk
      rw [List.any_cons, List.any_cons, hk, ih]
  rw [inner, inner, hdeep, hfun, hany]

/-- The same is found in two trees, which look the same from outside. -/
structure Agrees (q q' : Search) (n n' : Node c) : Prop where
  face : SameFace n n'
  finds : q'.finds n' = q.finds n

theorem Agrees.of_parts (h : Parts (q.Agrees q) n n') : q.Agrees q n n' := by
  have hface := h.imp fun _ hk => hk.face
  refine ⟨.of_parts hface, ?_⟩
  rw [finds_eq, finds_eq, own_of_parts hface, inner_of_parts rfl (h.imp fun _ hk => hk.finds)]

theorem Agrees.of_isMute (hc : c.isMute = true) (h : q'.finds n' = q.finds n) : q.Agrees q' n n' :=
  ⟨.of_isMute hc n n', h⟩

open Declarations in
/-- Splitting declarations changes nothing that can be found. -/
theorem ensures_splitDeclarations (hq : q.Spares base) (n : Node c) :
    Lower.Ensures base (q.Agrees q n) (splitDeclarations n) := by
  induction c, n using splitDeclarations.induct with
  | case1 v rest ihv ihrest =>
    rw [splitDeclarations]
    refine ihv.bind fun v' hv => (ensures_splitIfNeeded hq v').bind fun l hl => ?_
    refine ihrest.bind fun rest' hrest => .pure (.of_isMute rfl ?_)
    rw [finds_prepend, hl, hv.finds, hrest.finds, finds_cons, finds_declStmt, finds_declVar]
  | case2 v rest ihv ihrest =>
    rw [splitDeclarations]
    refine ihv.bind fun v' hv => (ensures_splitIfNeeded hq v').bind fun l hl => ?_
    refine ihrest.bind fun rest' hrest => .pure (.of_isMute rfl ?_)
    have hitems : (l.map stmtItem).any q.finds = l.any q.finds := by
      simp [List.any_map, Function.comp_def]
    rw [finds_prepend, hitems, hl, hv.finds, hrest.finds, finds_cons, finds_stmtItem,
      finds_declStmt, finds_declVar]
  | case3 span v rest ihv ihrest =>
    rw [splitDeclarations]
    refine ihv.bind fun v' hv => ?_
    have hfinds : q.finds (.cons (.exportDecl span (.declVar v)) rest) =
        (q.finds v' || q.finds rest) := by
      rw [finds_cons, finds_exportDecl, finds_declVar, hv.finds]
    split
    · refine (ensures_split hq v').bind fun l hl => .look fun s _ => ?_
      refine ihrest.bind fun rest' hrest => .pure (.of_isMute rfl ?_)
      have hitems : (l.map (reexport s.names span)).any q.finds = l.any q.finds := by
        simp [List.any_map, Function.comp_def, finds_reexport]
      rw [finds_prepend, hitems, hl, hrest.finds, hfinds]
    · refine ihrest.bind fun rest' hrest => .pure (.of_isMute rfl ?_)
      rw [hfinds, finds_cons, finds_exportDecl, finds_declVar, hrest.finds]
  | case4 v ihv =>
    rw [splitDeclarations]
    refine ihv.bind fun v' hv => ?_
    have hfinds : q.finds (.declStmt (.declVar v)) = q.finds v' := by
      rw [finds_declStmt, finds_declVar, hv.finds]
    split
    · refine (ensures_split hq v').bind fun l hl => .pure (.of_isMute rfl ?_)
      rw [finds_buildBlockStmt, hl, hfinds]
    · exact .pure (.of_isMute rfl (by rw [hfinds, finds_declStmt, finds_declVar]))
  | case5 c n h₁ h₂ h₃ h₄ ih =>
    rw [splitDeclarations.eq_5 n h₁ h₂ h₃ h₄]
    exact (Lower.Ensures.traverse fun k hk => ih k hk).mono fun _ hparts => .of_parts hparts

/-- A pass from the inside out changes nothing that can be found if the rewriting of one statement
does not, apart from what becomes of the statement itself. -/
theorem ensures_bottomUp {test : ∀ {c : Cat}, Node c → Bool} {f : Stmt → Lower Stmt}
    (hdeep : q'.deep = q.deep) (hown : ∀ {c : Cat} (m : Node c), c ≠ .stmt → q'.own m = q.own m)
    (htest : ∀ {c : Cat} {m m' : Node c}, Parts SameOutline m m' → test m = test m')
    (hf : ∀ k : Stmt, test k = true →
      Lower.Ensures base (fun k' => q'.finds k' = (q.own k || q'.inner k)) (f k))
    (n : Node c) (h : n.all test = true) :
    Lower.Ensures base (q.Agrees q' n) (Lower.bottomUp f n) := by
  induction n using partsInduction with
  | @step c n ih =>
    obtain ⟨hself, hpart⟩ := all_iff.mp h
    rw [Lower.bottomUp]
    refine (Lower.Ensures.traverse fun k hk => ih hk (hpart hk)).bind fun n₁ hparts => ?_
    have hface : Parts SameFace n n₁ := hparts.imp fun _ hk => hk.face
    have hfinds : (q.own n₁ || q'.inner n₁) = q.finds n := by
      rw [finds_eq, own_of_parts hface, inner_of_parts hdeep (hparts.imp fun _ hk => hk.finds)]
    by_cases hc : c = .stmt
    · subst hc
      have hgood : test n₁ = true := (htest (hface.imp fun _ hk => hk.outline)).symm.trans hself
      exact (hf n₁ hgood).mono fun _ hk => .of_isMute rfl (hk.trans hfinds)
    · rw [Lower.onStmt_of_ne hc]
      exact .pure ⟨.of_parts hface, by rw [finds_eq, hown n₁ hc, hfinds]⟩

section Loops

open Loops

/-- The search that finds in a program what `q` finds when its loops have been lowered: where the
name of the key helper is free, a `for-in` loop becomes a call of the helper. -/
def beforeLoops (q : Search) (cx : Context) : Search where
  calls := q.calls
  loops span :=
    if cx.scopes.isBoundAt cx.config.keyHelper span then q.loops span
    else q.calls cx.config.keyHelper
  declares := q.declares
  names := q.names
  deep := q.deep

theorem isSome_assignTarget? (p : Pat) : p.assignTarget?.isSome = p.isTarget := by
  cases p with
  | exprPat e => cases e <;> rfl
  | _ => rfl

/-- Keys can be bound to a head that declares nothing with an initializer and can take a value. -/
theorem takesKeys_iff (head : Node .forHead) : head.takesKeys = true ↔
    head.isInitialisedHead = false ∧ ∃ b, stepBinding head = .ok b := by
  cases head with
  | headDecl v =>
    have hlength : v.declarators.length = v.declShape.length := by
      cases v with
      | varDecl span ctxt kind declare decls =>
        change decls.toList.length = decls.declShape.length
        rw [← ofList_toList decls, toList_ofList]
        induction decls.toList with
        | nil => rfl
        | cons d l ih =>
          cases d with
          | declarator => simpa [ofList, declShape] using ih
    simp only [takesKeys, isInitialisedHead, stepBinding, hlength, isInitialised_eq_any,
      Bool.and_eq_true, decide_eq_true_eq, Bool.not_eq_true']
    constructor
    · rintro ⟨hone, hplain⟩
      exact ⟨hplain, _, if_pos hone⟩
    · rintro ⟨hplain, b, hb⟩
      split at hb
      next hone => exact ⟨hone, hplain⟩
      next => cases hb
  | headUsing =>
    constructor
    · intro h
      exact Bool.noConfusion h
    · rintro ⟨-, b, hb⟩
      cases hb
  | headPat p =>
    simp only [takesKeys, isInitialisedHead, stepBinding, ← isSome_assignTarget?, true_and]
    cases p.assignTarget? with
    | none =>
      constructor
      · intro h
        exact Bool.noConfusion h
      · rintro ⟨b, hb⟩
        cases hb
    | some target => exact ⟨fun _ => ⟨_, rfl⟩, fun _ => rfl⟩

/-- When a `for-in` loop is refused, and how its head takes the keys if it is not. -/
theorem run_checkForIn_cases (span : Span) (head : Node .forHead) (s : Context) :
    (head.takesKeys = true ∧ s.scopes.isBoundAt s.config.keyHelper span = false ∧
      ∃ b, stepBinding head = .ok b ∧ (checkForIn span head).run s = (.ok b, s)) ∨
    ((head.takesKeys = false ∨ s.scopes.isBoundAt s.config.keyHelper span = true) ∧
      ∃ fault, (checkForIn span head).run s = (.error fault, s)) := by
  cases hinit : head.isInitialisedHead with
  | true =>
    have hkeys : head.takesKeys = false :=
      Bool.eq_false_iff.mpr fun h => by simp [((takesKeys_iff head).mp h).1] at hinit
    exact .inr ⟨.inl hkeys, .initialisedHead, by simp [checkForIn, hinit]; rfl⟩
  | false =>
    cases hbound : s.scopes.isBoundAt s.config.keyHelper span with
    | true =>
      exact .inr ⟨.inr rfl, .helperBound, by simp [checkForIn, hinit, Lower.isBoundAt, hbound]; rfl⟩
    | false =>
      have hrun : (checkForIn span head).run s = (stepBinding head, s) := by
        simp [checkForIn, hinit, Lower.isBoundAt, hbound]
        rfl
      cases hb : stepBinding head with
      | ok b => exact .inl ⟨(takesKeys_iff head).mpr ⟨hinit, b, hb⟩, rfl, b, rfl, by rw [hrun, hb]⟩
      | error fault =>
        refine .inr ⟨.inl (Bool.eq_false_iff.mpr fun h => ?_), fault, by rw [hrun, hb]⟩
        obtain ⟨-, b, hb'⟩ := (takesKeys_iff head).mp h
        rw [hb] at hb'
        cases hb'

theorem ensures_labeledBody (q : Search) (body : Stmt) :
    Lower.Ensures base (fun k => q.finds k = q.finds body) (labeledBody body) := by
  have hfresh : Lower.Ensures base (fun k => q.finds k = q.finds body) (do
      let label ← Lower.freshLabel "L"
      return labeled label (.blockStmt (intoBlock body))) :=
    (Lower.Ensures.freshLabel (by decide)).bind fun _ _ => .pure (by simp)
  unfold labeledBody
  dsimp only
  split
  · refine .look fun s _ => ?_
    split
    · exact .pure rfl
    · exact hfresh
  · exact hfresh

theorem ensures_prelude (hq : q.Spares base) (init : Node (.opt .forInit)) :
    Lower.Ensures base (fun l => l.any q.finds = q.finds init) (prelude init) := by
  unfold prelude
  split
  · exact .pure finds_none.symm
  · refine (ensures_splitIfNeeded hq _).mono fun l hl => ?_
    rw [hl, finds_some, finds_initDecl]
  · exact .pure (by simp)

theorem ensures_lowerFor (hq : q.Spares base) (span : Span) (init : Node (.opt .forInit))
    (test update : Node (.opt .expr)) (body : Stmt) :
    Lower.Ensures base (fun k => q.finds k =
      (q.finds init || (q.finds test || (q.finds update || q.finds body))))
      (lowerFor span init test update body) := by
  have htest : q.finds (test.toOption.getD (Build.bool true)) = q.finds test := by
    cases test <;> simp [toOption]
  have hupdate : (update.toOption.map Build.exprStmt).toList.any q.finds = q.finds update := by
    cases update <;> simp [toOption]
  have hrest : Lower.Ensures base (fun k => q.finds k =
      (q.finds init || (q.finds test || (q.finds update || q.finds body)))) (do
        let before ← prelude init
        let body ← labeledBody body
        let body := body :: (update.toOption.map Build.exprStmt).toList
        let test := test.toOption.getD (Build.bool true)
        if before.isEmpty then return whileDo span test body
        return Build.blockStmt span (before ++ [whileDo .none test body])) := by
    refine (ensures_prelude hq init).bind fun before hbefore => ?_
    refine (ensures_labeledBody q body).bind fun body' hbody => ?_
    dsimp only
    split
    next hempty =>
      refine .pure ?_
      rw [List.isEmpty_iff.mp hempty] at hbefore
      rw [finds_whileDo, htest, List.any_cons, hbody, hupdate, ← hbefore, List.any_nil]
      ac_rfl
    next =>
      refine .pure ?_
      rw [finds_buildBlockStmt, List.any_append, hbefore, List.any_cons, List.any_nil,
        finds_whileDo, htest, List.any_cons, hbody, hupdate, Bool.or_false]
      ac_rfl
  unfold lowerFor
  split
  · exact (Lower.Ensures.limitation _ _).bind fun _ _ => hrest
  · exact hrest

theorem ensures_lowerDoWhile (span : Span) (test : Expr) (body : Stmt) :
    Lower.Ensures base (fun k => q.finds k = (q.finds test || q.finds body))
      (lowerDoWhile span test body) :=
  (ensures_labeledBody q body).bind fun body' hbody => .pure (by simp [hbody, Bool.or_comm])

/-- Whether something that is looked for is in what a step binds. -/
def inBinding (q : Search) : StepBinding → Bool
  | .declare v => q.finds v
  | .assign target => q.finds target

theorem inBinding_stepBinding {head : Node .forHead} {b : StepBinding}
    (h : stepBinding head = .ok b) : q.inBinding b = q.finds head := by
  cases head with
  | headDecl v =>
    simp only [stepBinding] at h
    split at h
    · cases h
      exact (finds_headDecl v).symm
    · cases h
  | headUsing => cases h
  | headPat p =>
    rw [finds_headPat]
    simp only [stepBinding] at h
    cases htarget : p.assignTarget? with
    | none => rw [htarget] at h; cases h
    | some target =>
      rw [htarget] at h
      cases h
      unfold assignTarget? at htarget
      split at htarget <;> cases htarget <;> simp [inBinding]

/-- A value without anything to find takes the place of an initializer that is not there. -/
theorem finds_initialiseFirst {v : VarDecl} {value : Expr} (hvalue : q.finds value = false)
    (hv : v.declarators.any isInitialised = false) :
    q.finds (initialiseFirst value v) = q.finds v := by
  cases v with
  | varDecl span ctxt kind declare decls =>
    cases decls with
    | nil => rfl
    | cons a rest =>
      cases a with
      | declarator dspan definite p o =>
        have hnone : q.finds o = false := by
          cases o with
          | none => exact finds_none
          | some e => cases hv
        have hfirst : initialiseFirst value (.varDecl span ctxt kind declare
            (.cons (.declarator dspan definite p o) rest)) = .varDecl span ctxt kind declare
              (.ofList (.declarator dspan definite p (.some value) :: rest.toList)) := rfl
        rw [hfirst, Node.ofList, ofList_toList]
        simp [marks_declarator, hvalue, hnone]

theorem ensures_bindStep (hq : q.Spares base) {value : Expr} (hvalue : q.finds value = false)
    {b : StepBinding} (hb : ∀ v, b = .declare v → v.declarators.any isInitialised = false) :
    Lower.Ensures base (fun l => l.any q.finds = q.inBinding b) (bindStep value b) := by
  cases b with
  | declare v =>
    refine (ensures_splitIfNeeded hq _).mono fun l hl => ?_
    rw [hl, finds_initialiseFirst hvalue (hb v rfl)]
    rfl
  | assign target => exact .pure (by simp [hvalue, inBinding])

theorem ensures_iterate (hq : q.Spares base) (span : Span) {hint : String}
    (stem : hint ∈ NameSupply.hints) (init : Expr) {b : StepBinding}
    (hb : ∀ v, b = .declare v → v.declarators.any isInitialised = false) (body : Stmt) :
    Lower.Ensures base (fun k => q.finds k = (q.finds init || (q.inBinding b || q.finds body)))
      (iterate span hint init b body) := by
  refine (hq.fresh stem).bind fun iterator hiterator => ?_
  refine (hq.fresh (by decide)).bind fun step hstep => ?_
  refine (ensures_bindStep hq (by simp) hb).bind fun bound hbound => ?_
  refine (ensures_labeledBody q body).bind fun body' hbody => .pure ?_
  simp [hiterator .let, hstep .let, hbound, hbody]

theorem notInitialised_of_isInitialisedHead {head : Node .forHead} {b : StepBinding}
    (hb : stepBinding head = .ok b) (hplain : head.isInitialisedHead = false) :
    ∀ v, b = .declare v → v.declarators.any isInitialised = false := by
  rintro v rfl
  rwa [eq_headDecl hb] at hplain

theorem ensures_lowerForOf (hq : q.Spares base) (span : Span) (isAwait : Bool)
    (head : Node .forHead) (subject : Expr) (body : Stmt)
    (hplain : (forOfStmt span isAwait head subject body).hasPlainHead = true) :
    Lower.Ensures base (fun k => q.finds k = (q.finds head || (q.finds subject || q.finds body)))
      (lowerForOf span isAwait head subject body) := by
  have hstay : q.finds (.forOfStmt span isAwait head subject body) =
      (q.finds head || (q.finds subject || q.finds body)) := finds_three rfl rfl rfl
  have hhead : head.isInitialisedHead = false := by
    cases head with
    | headDecl v =>
      rw [isInitialisedHead, isInitialised_eq_any]
      simpa [hasPlainHead, declShape] using hplain
    | _ => rfl
  intro s hs
  change s.Steps ((lowerForOf span isAwait head subject body).run s).2 ∧
    q.finds ((lowerForOf span isAwait head subject body).run s).1 = _
  rcases run_lowerForOf span isAwait head subject body s with ⟨message, hrun⟩ | ⟨-, b, hb, hrun⟩
  · rw [hrun]
    exact ⟨.record _ Bool.noConfusion .refl, hstay⟩
  · rw [hrun]
    have stem : "iter" ∈ NameSupply.hints := by decide
    obtain ⟨hsteps, hfinds⟩ := ensures_iterate hq span stem (Build.call
      (computed subject (Build.member (Build.name "Symbol") "iterator")) [])
      (notInitialised_of_isInitialisedHead hb hhead) body s hs
    refine ⟨hsteps, hfinds.trans ?_⟩
    rw [inBinding_stepBinding hb]
    simp only [finds_buildCall, refName?_computed, Option.any_none, Bool.false_or, finds_computed,
      finds_buildMember, finds_name, Bool.or_false, List.any_nil]
    ac_rfl

theorem ensures_lowerForIn (hq : q.Spares base) (span : Span) (head : Node .forHead)
    (subject : Expr) (body : Stmt) :
    Lower.Ensures base (fun k => q.finds k =
      ((q.beforeLoops base).own (.forInStmt span head subject body) ||
        (q.finds head || (q.finds subject || q.finds body))))
      (lowerForIn span head subject body) := by
  intro s hs
  change s.Steps ((lowerForIn span head subject body).run s).2 ∧
    q.finds ((lowerForIn span head subject body).run s).1 = _
  have hscopes : s.scopes = base.scopes := hs.scopes
  have hconfig : s.config = base.config := hs.grows.config
  rcases run_checkForIn_cases span head s with
    ⟨hkeys, hfree, b, hb, hcheck⟩ | ⟨hrefused, fault, hcheck⟩
  · have hrun : (lowerForIn span head subject body).run s = (iterate span "keys"
        (Build.call (Build.name s.config.keyHelper) [subject]) b body).run s := by
      simp only [lowerForIn, StateT.run_bind, hcheck]
      rfl
    rw [hscopes, hconfig] at hfree
    rw [hrun, hconfig]
    have stem : "keys" ∈ NameSupply.hints := by decide
    obtain ⟨hsteps, hfinds⟩ := ensures_iterate hq span stem
      (Build.call (Build.name base.config.keyHelper) [subject])
      (notInitialised_of_isInitialisedHead hb ((takesKeys_iff head).mp hkeys).1) body s hs
    refine ⟨hsteps, hfinds.trans ?_⟩
    have hcall : (Build.name base.config.keyHelper).refName? = .some base.config.keyHelper := rfl
    rw [inBinding_stepBinding hb, finds_buildCall, hcall, own_forInStmt, hkeys]
    simp only [beforeLoops, hfree, Option.any_some, finds_name, List.any_cons, List.any_nil,
      Bool.false_or, Bool.or_false, Bool.true_and, Bool.false_eq_true, if_false]
    ac_rfl
  · have hrun : (lowerForIn span head subject body).run s =
        (.forInStmt span head subject body, s.record ⟨.unsupported, span, fault.message⟩) := by
      simp only [lowerForIn, StateT.run_bind, hcheck]
      rfl
    rw [hrun]
    refine ⟨.record _ Bool.noConfusion .refl, ?_⟩
    rw [finds_eq, inner_forInStmt, own_forInStmt, own_forInStmt]
    rw [hscopes, hconfig] at hrefused
    rcases hrefused with hkeys | hbound
    · rw [hkeys, Bool.false_and, Bool.false_and]
    · simp only [beforeLoops, hbound, if_true]

theorem ensures_lowerLoop (hq : q.Spares base) (k : Stmt) (hplain : k.hasPlainHead = true) :
    Lower.Ensures base (fun k' => q.finds k' = ((q.beforeLoops base).own k || q.inner k))
      (lowerLoop k) := by
  cases k with
  | forStmt span init test update body =>
    refine (ensures_lowerFor hq span init test update body).mono fun k' hk => hk.trans ?_
    rw [inner_forStmt]
    rfl
  | doWhileStmt span test body =>
    refine (ensures_lowerDoWhile span test body).mono fun k' hk => hk.trans ?_
    exact (finds_doWhileStmt span test body).symm.trans (finds_eq _)
  | forOfStmt span isAwait head subject body =>
    refine (ensures_lowerForOf hq span isAwait head subject body hplain).mono fun k' hk =>
      hk.trans ?_
    rw [inner_forOfStmt]
    rfl
  | forInStmt span head subject body =>
    refine (ensures_lowerForIn hq span head subject body).mono fun k' hk => hk.trans ?_
    rw [inner_forInStmt]
  | _ => exact .pure (finds_eq _)

/-- Lowering loops turns the `for-in` loops that are not refused into calls of the key helper. -/
theorem ensures_lowerLoops (hq : q.Spares base) (p : Program) (h : p.all hasPlainHead = true) :
    Lower.Ensures base ((q.beforeLoops base).Agrees q p) (lowerLoops p) := by
  have hdeep : q.deep = (q.beforeLoops base).deep := rfl
  have hown {c : Cat} (m : Node c) (hm : c ≠ .stmt) : q.own m = (q.beforeLoops base).own m := by
    cases m <;> first | rfl | exact absurd rfl hm
  exact ensures_bottomUp hdeep hown Rewrites.hasPlainHead_parts (ensures_lowerLoop hq) p h

end Loops

section Switches

open Switches

/-- Nothing but `var` declarations is looked for among the declarations. -/
structure VarsOnly (q : Search) : Prop where
  declares : ∀ kind ≠ .var, ∀ x, q.declares kind x = false
  names : ∀ x, q.names x = false

theorem VarsOnly.marks (hvar : q.VarsOnly) {kind : VarKind} (hkind : kind ≠ .var) (n : Node c) :
    q.marks kind n = false :=
  List.any_eq_false.mpr fun id _ => by simp [hvar.declares kind hkind id.name]

theorem agrees_retarget (q : Search) (label : Ident) (n : Node c) :
    q.Agrees q n (retarget label n) := by
  induction n using partsInduction with
  | @step c n ih =>
    cases hleave : n.isLeave with
    | true =>
      cases n with
      | breakStmt span l =>
        cases l with
        | none =>
          rw [retarget_leave]
          exact .of_isMute rfl (by simp)
        | some l => cases hleave
      | _ => cases hleave
    | false =>
      cases hshield : shieldsBreaks n with
      | true =>
        rw [retarget_of_shields label hshield]
        exact ⟨.refl n, rfl⟩
      | false =>
        rw [retarget_eq_mapParts label hleave hshield]
        exact .of_parts ((Parts.of_mapParts (retarget label) n).imp fun hk he => he ▸ ih hk)

/-- Whether something is found in what is left in a clause or in what is declared before. -/
def inSplit (q : Search) (r : List Stmt × Hoisted) : Bool :=
  r.1.any q.finds || r.2.functions.any q.finds

/-- The variables that are declared before the clauses do not count. -/
theorem any_stmts (hvar : q.VarsOnly) (h : Hoisted) :
    h.stmts.any q.finds = h.functions.any q.finds := by
  have hnames : (h.names.map fun id => declare .let id .none).any q.finds = false := by
    rw [List.any_map, List.any_eq_false]
    intro id _
    simp [hvar.declares .let (by decide)]
  rw [Hoisted.stmts, List.any_append, hnames, Bool.false_or]

theorem inSplit_hoistAll {α : Type} {f : α → List Stmt × Hoisted} {found : α → Bool} {l : List α}
    (h : ∀ a ∈ l, q.inSplit (f a) = found a) : q.inSplit (hoistAll f l) = l.any found := by
  induction l with
  | nil => rfl
  | cons a l ih =>
    obtain ⟨ha, hl⟩ := List.forall_mem_cons.mp h
    rw [List.any_cons, ← ha, ← ih hl]
    simp only [hoistAll, List.foldr_cons, inSplit, Hoisted.append, List.any_append]
    ac_rfl

theorem inSplit_same (k : Stmt) : q.inSplit ([k], .none) = q.finds k := by
  simp [inSplit, Hoisted.none]

theorem inSplit_hoistDeclarator (hvar : q.VarsOnly) {kind : VarKind} (hkind : kind ≠ .var)
    (a : Declarator) : q.inSplit (hoistDeclarator kind a) = q.finds a := by
  cases a with
  | declarator span definite p o =>
    rw [finds_declarator]
    cases p with
    | binder id => cases o <;> simp [hoistDeclarator, inSplit, toOption]
    | _ => simp [hoistDeclarator, inSplit, Hoisted.none, hvar.marks hkind]

theorem inSplit_hoistStmt (hvar : q.VarsOnly) (k : Stmt) : q.inSplit (hoistStmt k) = q.finds k := by
  cases k with
  | declStmt d =>
    cases d with
    | declVar v =>
      cases v with
      | varDecl span ctxt kind declare decls =>
        simp only [hoistStmt]
        split
        next => exact inSplit_same _
        next hkind =>
          rw [inSplit_hoistAll fun a _ => inSplit_hoistDeclarator hvar hkind a, any_toList,
            finds_declStmt, finds_declVar, finds_varDecl, hvar.marks hkind, Bool.false_or]
    | declClass declare name a => simp [hoistStmt, inSplit, hvar.names]
    | declFunc declare name f => simp [hoistStmt, inSplit]
    | _ => exact inSplit_same _
  | _ => exact inSplit_same _

/-- Whether something is found in a clause. -/
def inCase (q : Search) (a : Case) : Bool := a.test.any q.finds || a.body.any q.finds

theorem any_block? (f : Stmt → Stmt) (hf : ∀ k, q.finds (f k) = q.finds k) (body : List Stmt) :
    ((block? body).map f).toList.any q.finds = body.any q.finds := by
  cases body with
  | nil => rfl
  | cons k body => simp [block?, hf]

theorem any_flagCase (matched disc : Ident) (a : Case) :
    (flagCase matched disc a).any q.finds = q.inCase a := by
  have hbody : ((block? a.body).map fun b => ifElse (.ref matched) b .none).toList.any q.finds =
      a.body.any q.finds := any_block? _ (by simp) a.body
  rw [flagCase, List.any_cons, hbody, inCase]
  cases a.test with
  | none => simp
  | some test => simp

theorem any_selectCase (disc index : Ident) (l : List (Case × Nat)) :
    (selectCase disc index l).toList.any q.finds = l.any fun r => r.1.test.any q.finds := by
  induction l with
  | nil => rfl
  | cons r l ih =>
    obtain ⟨⟨test, body⟩, i⟩ := r
    cases test with
    | none => simpa [selectCase] using ih
    | some e =>
      rw [List.any_cons, ← ih]
      cases hrest : selectCase disc index l <;> simp [selectCase, hrest]

/-- Whether something is found in the declarations before the clauses or in the clauses. -/
def inForm (q : Search) (r : List Stmt × List Stmt) : Bool := r.1.any q.finds || r.2.any q.finds

theorem ensures_flagForm (hq : q.Spares base) (subject : Expr) (cases : List Case) :
    Lower.Ensures base (fun r => q.inForm r = (q.finds subject || cases.any q.inCase))
      (flagForm subject cases) := by
  refine (hq.fresh (by decide)).bind fun matched hmatched => ?_
  refine (hq.fresh (by decide)).bind fun disc hdisc => .pure ?_
  simp [inForm, hmatched .let, hdisc .let, List.any_flatMap, any_flagCase]

theorem ensures_indexForm (hq : q.Spares base) (subject : Expr) (default : Nat)
    (cases : List Case) :
    Lower.Ensures base (fun r => q.inForm r = (q.finds subject || cases.any q.inCase))
      (indexForm subject default cases) := by
  refine (hq.fresh (by decide)).bind fun disc hdisc => ?_
  refine (hq.fresh (by decide)).bind fun index hindex => .pure ?_
  have hbody (r : Case × Nat) : (indexBody index r.1 r.2).any q.finds = r.1.body.any q.finds :=
    any_block? _ (by simp) r.1.body
  have hcases : (cases.zipIdx.any (fun r => r.1.test.any q.finds) ||
      cases.zipIdx.any fun r => r.1.body.any q.finds) = cases.any q.inCase := by
    rw [← List.zipIdx_map_fst 0 cases, List.any_map, List.zipIdx_map_fst]
    induction cases.zipIdx with
    | nil => rfl
    | cons r l ih =>
      rw [List.any_cons, List.any_cons, List.any_cons, ← ih, Function.comp_apply, inCase]
      ac_rfl
  rw [← hcases]
  simp [inForm, hdisc .let, hindex .let, List.any_flatMap, hbody, any_selectCase]

/-- Lowering a `switch` without faults loses nothing of its clauses. -/
theorem ensures_lowerCases (hq : q.Spares base) (hvar : q.VarsOnly) (span : Span) (subject : Expr)
    (cases : List Case) :
    Lower.Ensures base (fun k => q.finds k = (q.finds subject || cases.any q.inCase))
      (Switches.lower span subject cases) := by
  unfold Switches.lower
  split
  next hempty =>
    rw [List.isEmpty_iff.mp hempty]
    exact .pure (by simp)
  next =>
    refine (Lower.Ensures.freshLabel (by decide)).bind fun label _ => ?_
    extract_lets parts hoisted cs wrap
    have hsplit : (cs.any q.inCase || hoisted.functions.any q.finds) = cases.any q.inCase := by
      simp only [cs, hoisted, parts]
      clear * - hvar
      induction cases with
      | nil => rfl
      | cons a l ih =>
        have hbody : q.inSplit (hoistAll hoistStmt (a.body.map (retarget label))) =
            a.body.any q.finds := by
          rw [inSplit_hoistAll fun k _ => inSplit_hoistStmt hvar k, List.any_map]
          exact List.any_congr rfl fun k => (agrees_retarget q label k).finds
        rw [List.any_cons, ← ih, inCase, ← hbody]
        simp only [List.map_cons, List.foldr_cons, List.any_cons, inCase, inSplit, Hoisted.append,
          List.any_append]
        ac_rfl
    have hwrap {form : Lower (List Stmt × List Stmt)}
        (h : Lower.Ensures base (fun r => q.inForm r = (q.finds subject || cs.any q.inCase)) form) :
        Lower.Ensures base (fun k => q.finds k = (q.finds subject || cases.any q.inCase))
          (form >>= wrap) := by
      refine h.bind fun r hr => .pure ?_
      have hrest : (if hoisted.isEmpty then r.2
          else [.blockStmt (Build.block (hoisted.stmts ++ r.2))]).any q.finds =
          (hoisted.functions.any q.finds || r.2.any q.finds) := by
        split
        next hempty =>
          have hnone : hoisted.functions = [] := by simpa using (Bool.and_eq_true_iff.mp hempty).2
          rw [hnone, List.any_nil, Bool.false_or]
        next => simp [any_stmts hvar]
      rw [finds_labeled, finds_buildBlockStmt, List.any_append, hrest, ← hsplit]
      rw [inForm] at hr
      calc (r.1.any q.finds || (hoisted.functions.any q.finds || r.2.any q.finds))
        _ = ((r.1.any q.finds || r.2.any q.finds) || hoisted.functions.any q.finds) := by ac_rfl
        _ = _ := by rw [hr]; ac_rfl
    split
    · split
      · exact hwrap (ensures_indexForm hq subject _ cs)
      · exact hwrap (ensures_flagForm hq subject cs)
    · exact hwrap (ensures_flagForm hq subject cs)

theorem any_ofClause (clauses : Node (.list .clause)) :
    (clauses.toList.map Case.ofClause).any q.inCase = q.finds clauses := by
  rw [← any_toList, List.any_map]
  refine List.any_congr rfl fun a => ?_
  cases a with
  | clause span test body => simp [Case.ofClause, inCase]

theorem ensures_lowerSwitch (hq : q.Spares base) (hvar : q.VarsOnly) (k : Stmt) :
    Lower.Ensures base (fun k' => q.finds k' = q.finds k) (lowerSwitch k) := by
  unfold lowerSwitch
  split
  next span subject clauses =>
    dsimp only
    split
    · exact (Lower.Ensures.unsupported _ _).bind fun _ _ => .pure rfl
    · refine (ensures_lowerCases hq hvar span subject _).mono fun k' hk => ?_
      rw [hk, any_ofClause, finds_switchStmt]
  · exact .pure rfl

end Switches

theorem ensures_lowerTry (hq : q.Spares base) (k : Stmt) :
    Lower.Ensures base (fun k' => q.finds k' = q.finds k) (Finallys.lowerTry k) := by
  unfold Finallys.lowerTry
  split
  next span body handler finalizer =>
    refine (Lower.Ensures.forM (fun _ => .limitation _ _) _).bind fun _ _ => ?_
    refine (hq.fresh (by decide)).bind fun threw hthrew => ?_
    refine (hq.fresh (by decide)).bind fun err herr => ?_
    refine (hq.fresh (by decide)).bind fun caught _ => .pure ?_
    have hguarded :
        q.finds (Finallys.guarded body (Finallys.recordClause threw err caught) handler) =
          (q.finds body || q.finds handler) := by
      cases handler with
      | none => simp [Finallys.guarded, Finallys.recordClause]
      | some a =>
        cases a with
        | handler hspan p b => simp [Finallys.guarded, Finallys.recordClause]
    simp [hthrew .let, herr .let, hguarded, Bool.or_assoc]
  · exact .pure rfl

theorem finds_labelBody (label : Ident) (n : Node c) (hloop : n.isLoop = true) :
    q.finds (n.mapLoopBody (Continues.labelBody label)) = q.finds n := by
  have hbody (b : Stmt) : q.finds (Continues.labelBody label b) = q.finds b := by
    simp [Continues.labelBody]
  cases n with
  | whileStmt | doWhileStmt => simp [mapLoopBody, hbody]
  | forStmt =>
    rw [finds_eq, finds_eq, mapLoopBody, inner_forStmt, inner_forStmt, hbody]
    rfl
  | forInStmt =>
    rw [finds_eq, finds_eq, mapLoopBody, inner_forInStmt, inner_forInStmt, hbody]
    rfl
  | forOfStmt =>
    rw [finds_eq, finds_eq, mapLoopBody, inner_forOfStmt, inner_forOfStmt, hbody]
    rfl
  | _ => cases hloop

/-- Replacing every `continue` changes nothing that can be found. -/
theorem agrees_replaceContinuesIn (q : Search) (n : Node c) (s : Spot) :
    q.Agrees q n ((replacing []).run (replaceContinuesIn n) s).1 := by
  induction c, n using replaceContinuesIn.induct generalizing s with
  | case1 span label body ih =>
    rw [replaceContinuesIn, (replacing []).run_bind, run_inside]
    refine .of_isMute rfl ?_
    rw [finds_labeledStmt, ← (ih _).finds]
    exact finds_labeledStmt _ _ _
  | case2 span label =>
    rw [replaceContinuesIn]
    unfold Continues.replace
    simp only [(replacing []).run_bind, run_get]
    cases JumpTarget.resolve s.1 label with
    | ok i => exact .of_isMute rfl ((finds_breakTo _).trans (finds_continueStmt _ _).symm)
    | error fault => exact .of_isMute rfl rfl
  | case3 c n hlabel hcontinue hloop ih =>
    obtain rfl : c = .stmt := by cases n <;> first | rfl | exact Bool.noConfusion hloop
    refine .of_isMute rfl ?_
    rw [replaceContinuesIn.eq_3 n hlabel hcontinue, if_pos hloop, (replacing []).run_bind,
      run_inside]
    have hparts : Parts (q.Agrees q) n _ := parts_traverse (replacing []) (fun k hk s => ih k hk s)
      (.loop none :: s.1, s.2)
    generalize (replacing []).run (n.traverse _) _ = x at hparts ⊢
    have hloop' : x.1.isLoop = true :=
      (hparts.form_eq isLoop fun m => by cases m <;> rfl).symm.trans hloop
    dsimp only
    split
    · exact (finds_labelBody _ _ hloop').trans (Agrees.of_parts hparts).finds
    · exact (Agrees.of_parts hparts).finds
  | case4 c n hlabel hcontinue hloop hfun ih =>
    rw [replaceContinuesIn.eq_3 n hlabel hcontinue, if_neg hloop, if_pos hfun, run_isolated]
    exact .of_parts (parts_traverse (replacing []) (fun k hk s => ih k hk s) _)
  | case5 c n hlabel hcontinue hloop hfun ih =>
    rw [replaceContinuesIn.eq_3 n hlabel hcontinue, if_neg hloop, if_neg hfun]
    exact .of_parts (parts_traverse (replacing []) (fun k hk s => ih k hk s) _)

end Search

namespace Lowering

/-- The stages before the one that lowers loops. -/
def lead (p : Program) : Lower Program := do
  let p ← Stage.declarations.run p
  Stage.continues.run p

/-- Whether the stage that lowers loops is run: it is asked for, and nothing fatal has been recorded
before. -/
def reachesLoops (p : Program) (cx : Context) : Bool :=
  cx.config.loops && !((lead p).run cx).2.hasFatal

theorem all_hasPlainHead_lead {p : Program} (h : p.all hasPlainHead = true) (cx : Context) :
    ((lead p).run cx).1.all hasPlainHead = true := by
  have hrun {stage : Stage} (hstage : stage = .declarations ∨ stage = .continues) {p : Program}
      (h : p.all hasPlainHead = true) (cx : Context) :
      ((stage.run p).run cx).1.all hasPlainHead = true := by
    rw [stage.run_eq]
    split
    · exact stage.all_hasPlainHead_pass cx hstage h
    · exact h
  exact hrun (.inr rfl) (hrun (.inl rfl) h cx) _

end Lowering

namespace Search

variable {q : Search} {base cx : Context} {p : Program}

/-- Only the stage that lowers loops changes what is found. -/
theorem finds_run (hq : q.Spares base) (hvar : q.VarsOnly) (stage : Stage) (p : Program)
    (hcx : base.Steps cx) (hne : stage ≠ .loops) :
    q.finds ((stage.run p).run cx).1 = q.finds p := by
  have hsame {f : Stmt → Lower Stmt}
      (hf : ∀ k, Lower.Ensures base (fun k' => q.finds k' = q.finds k) (f k)) :
      q.finds ((Lower.bottomUp f p).run cx).1 = q.finds p := by
    have hall : p.all (fun _ => true) = true := all_of_forall p fun _ => rfl
    have hpass := ensures_bottomUp (q := q) rfl (fun _ _ => rfl) (fun _ => rfl)
      (fun k _ => (hf k).mono fun _ hk => hk.trans (finds_eq k)) p hall
    exact (hpass cx hcx).2.finds
  rw [stage.run_eq]
  split
  · cases stage with
    | declarations => exact (ensures_splitDeclarations hq p cx hcx).2.finds
    | continues => exact (agrees_replaceContinuesIn q p ([], cx)).finds
    | loops => exact absurd rfl hne
    | switches => exact hsame (ensures_lowerSwitch hq hvar)
    | finallys => exact hsame (ensures_lowerTry hq)
  · rfl

/-- What is found in a program when all stages have been run. -/
theorem finds_stages (hq : q.Spares cx) (hvar : q.VarsOnly) (h : p.all hasPlainHead = true) :
    q.finds ((Lowering.stages p).run cx).1 =
      (if Lowering.reachesLoops p cx then q.beforeLoops cx else q).finds p := by
  have hvar' : (q.beforeLoops cx).VarsOnly := ⟨hvar.declares, hvar.names⟩
  let r := (Lowering.lead p).run cx
  have hsteps : cx.Steps r.2 := (Stage.steps_run _ _ _).trans (Stage.steps_run _ _ _)
  have hlead {q : Search} (hq : q.Spares cx) (hvar : q.VarsOnly) : q.finds r.1 = q.finds p :=
    (finds_run hq hvar .continues _ (Stage.steps_run _ _ _) (by decide)).trans
      (finds_run hq hvar .declarations p .refl (by decide))
  have hloops : q.finds ((Stage.loops.run r.1).run r.2).1 =
      (if Lowering.reachesLoops p cx then q.beforeLoops cx else q).finds r.1 := by
    rw [Stage.run_eq, Stage.isEnabled, hsteps.grows.config, Lowering.reachesLoops]
    split
    · exact (ensures_lowerLoops hq r.1 (Lowering.all_hasPlainHead_lead h cx) r.2 hsteps).2.finds
    · rfl
  have hsteps' : cx.Steps ((Stage.loops.run r.1).run r.2).2 := hsteps.trans (Stage.steps_run _ _ _)
  calc q.finds ((Lowering.stages p).run cx).1
    _ = q.finds ((Stage.loops.run r.1).run r.2).1 := by
        exact (finds_run hq hvar .finallys _ (hsteps'.trans (Stage.steps_run _ _ _))
          (by decide)).trans (finds_run hq hvar .switches _ hsteps' (by decide))
    _ = _ := by
        rw [hloops]
        split
        · exact hlead hq hvar'
        · exact hlead hq hvar

end Search

end PlainJs

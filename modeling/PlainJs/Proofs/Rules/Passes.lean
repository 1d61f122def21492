import PlainJs.Proofs.Rules.Basic
import PlainJs.Proofs.Settled

namespace PlainJs

open Node Build

namespace Lower.Yields

variable {α β : Type} {P : β → Prop} {Q : α → Prop}

/-- A computation that goes on with what another one gives. -/
theorem bind_of {x : Lower α} {f : α → Lower β} (hx : Yields Q x) (hf : ∀ a, Q a → Yields P (f a)) :
    Yields P (x >>= f) :=
  fun s => hf _ (hx s) _

theorem mapM {f : α → Lower β} {l : List α} (h : ∀ a ∈ l, Yields P (f a)) :
    Yields (fun l' => ∀ b ∈ l', P b) (l.mapM f) := by
  induction l with
  | nil => exact .pure (List.forall_mem_nil _)
  | cons a l ih =>
    obtain ⟨ha, hl⟩ := List.forall_mem_cons.mp h
    rw [List.mapM_cons]
    exact ha.bind_of fun b hb => (ih hl).bind_of fun l' hl' =>
      .pure (List.forall_mem_cons.mpr ⟨hb, hl'⟩)

end Lower.Yields

namespace SyntaxRule

variable {r : SyntaxRule} {c : Cat}

/-- Statements that keep to the rule. -/
def HoldAll (r : SyntaxRule) (l : List Stmt) : Prop := ∀ s ∈ l, r.Holds s

@[simp] theorem holdAll_iff {l : List Stmt} : r.HoldAll l ↔ ∀ s ∈ l, r.Holds s := Iff.rfl

/-- An expression that keeps to the rule and may stand as an initializer. -/
structure IsInit (r : SyntaxRule) (e : Expr) : Prop where
  holds : r.Holds e
  init : r.init e = true

/-- Visits that keep to the rule and keep the outermost expressions of what they visit. -/
theorem parts_of_visits {m : Type → Type} [Monad m] {σ : Type} (course : Course m σ) {n : Node c}
    {f : {d : Cat} → (k : Node d) → ⟨d, k⟩ ∈ n.children → m (Node d)} (h : r.Holds n)
    (hf : ∀ {d : Cat} (k : Node d) (hk : ⟨d, k⟩ ∈ n.children), r.Holds k → ∀ s : σ,
      r.Holds (course.run (f k hk) s).1 ∧ SameHeads k (course.run (f k hk) s).1) (s : σ) :
    Parts (fun k k' => r.Holds k' ∧ SameHeads k k') n
      (course.run (n.traverse fun k hk => f k hk) s).1 :=
  parts_traverse course (fun k hk s => hf k hk (h.part hk) s) s

/-- A tree whose parts have been visited so. -/
theorem holds_of_parts {n n' : Node c} (h : r.Holds n)
    (hparts : Parts (fun k k' => r.Holds k' ∧ SameHeads k k') n n') :
    r.Holds n' ∧ SameHeads n n' :=
  ⟨.of_parts h.own hparts, .of_parts (hparts.imp fun _ hk => hk.2)⟩

theorem IsInit.of_strength {e : Expr} (h : r.Holds e) (hs : assignStrength ≤ e.strength) :
    r.IsInit e := ⟨h, r.init_strength hs⟩

section Declarations

open Declarations

theorem holds_temp (kind : VarKind) {e : Expr} (h : r.IsInit e) :
    Lower.Yields (fun x => r.Holds x.2) (temp kind e) :=
  .bind fun t => .pure (by simp [h.holds, h.init])

theorem holds_newSource (kind : VarKind) {e : Expr} (h : r.IsInit e) :
    Lower.Yields (fun x => r.HoldAll x.2) (do
      let (t, s) ← temp kind e
      return (t, [s])) :=
  (holds_temp kind h).bind_of fun _ hs => .pure (List.forall_mem_singleton.mpr hs)

theorem holds_source (kind : VarKind) {e : Expr} (h : r.IsInit e) :
    Lower.Yields (fun x => r.HoldAll x.2) (source kind e) := by
  unfold source
  cases e with
  | ref id =>
    refine .bind fun cx => ?_
    split
    · exact .pure (List.forall_mem_nil _)
    · exact holds_newSource kind h
  | _ => exact holds_newSource kind h

theorem holds_memberKey (kind : VarKind) {k : Key} (h : r.Holds k)
    (hinit : ∀ span e, k = .computedKey span e → r.init e = true) :
    Lower.Yields (fun x => r.Holds x.1 ∧ r.HoldAll x.2) (memberKey kind k) := by
  unfold memberKey
  split
  case h_7 span e _ _ =>
    have hcut := hinit span e rfl
    rw [holds_computedKey] at h
    exact .bind fun t => .pure (by simp [h, hcut])
  all_goals exact .pure (by simp)

theorem isInit_orDefault (t : Ident) {e : Expr} (h : r.Holds e) : r.IsInit (orDefault t e) :=
  .of_strength (by simp [orDefault, h]) (Nat.le_succ 1)

theorem assignStrength_le_memberStrength : assignStrength ≤ memberStrength := by decide

theorem isInit_access (src : Ident) {k : Key} (h : r.Holds k) : r.IsInit (access (.ref src) k) :=
  .of_strength (by simp [h]) assignStrength_le_memberStrength

theorem isInit_elemsFrom (src : Ident) (i : Nat) : r.IsInit (elemsFrom src i) :=
  .of_strength (by simp [elemsFrom]) assignStrength_le_memberStrength

theorem isInit_ownCopy (src : Ident) : r.IsInit (ownCopy src) :=
  .of_strength (by simp [ownCopy]) assignStrength_le_memberStrength

theorem holds_removals (target : Ident) {seen : List Key} (h : ∀ k ∈ seen, r.Holds k) :
    r.HoldAll (removals target seen) := by
  intro s hs
  obtain ⟨k, hk, rfl⟩ := List.mem_map.mp hs
  simp [h k hk]

theorem holds_bindName (kind : VarKind) (id : Ident) {default : Option Expr} {value : Expr}
    (hdefault : ∀ e ∈ default, r.Holds e) (h : r.IsInit value) :
    Lower.Yields r.HoldAll (bindName kind id default value) := by
  cases default with
  | none => exact .pure (by simp [h.holds, h.init])
  | some e =>
    refine (holds_temp kind h).bind_of fun x hx => .pure ?_
    obtain ⟨hor, hinit⟩ := isInit_orDefault x.1 (hdefault e rfl)
    simp [hx, hor, hinit]

theorem holds_pattern (hkeys : r.CutsKeys) (kind : VarKind) :
    (∀ p value, r.Holds p → r.IsInit value →
      Lower.Yields r.HoldAll (Declarations.bind kind p value)) ∧
      (∀ elems src i, r.Holds elems → Lower.Yields r.HoldAll (bindElems kind src i elems)) ∧
      ∀ props src seen, r.Holds props → (∀ k ∈ seen, r.Holds k) →
        Lower.Yields r.HoldAll (bindProps kind src seen props) := by
  apply patternInduction
  case binder =>
    intro id value _ h
    rw [Declarations.bind]
    exact .pure (by simp [h.holds, h.init])
  case defaultPat =>
    intro span p e ih value hp h
    rw [holds_defaultPat] at hp
    rw [Declarations.bind]
    refine (holds_temp kind h).bind_of fun x hx => ?_
    refine (ih _ hp.1 (isInit_orDefault x.1 hp.2)).bind_of fun l hl => ?_
    exact .pure (List.forall_mem_cons.mpr ⟨hx, hl⟩)
  case arrayPat =>
    intro span optional elems ih value hp h
    rw [holds_arrayPat] at hp
    rw [Declarations.bind]
    refine (holds_source kind h).bind_of fun x hx => ?_
    refine (ih x.1 0 hp).bind_of fun l hl => ?_
    exact .pure (List.forall_mem_append.mpr ⟨hx, hl⟩)
  case objectPat =>
    intro span optional props ih value hp h
    rw [holds_objectPat] at hp
    rw [Declarations.bind]
    refine (holds_source kind h).bind_of fun x hx => ?_
    refine (ih x.1 [] hp (List.forall_mem_nil _)).bind_of fun l hl => ?_
    exact .pure (List.forall_mem_append.mpr ⟨hx, hl⟩)
  case restPat =>
    intro span dots p ih value hp h
    rw [holds_restPat] at hp
    rw [Declarations.bind]
    exact ih value hp h
  case exprPat =>
    intro e value hp h
    rw [Declarations.bind]
    rw [holds_exprPat] at hp
    exact .pure (by simp [hp, h.holds, h.init])
  case invalidPat =>
    intro span value _ h
    rw [Declarations.bind]
    exact .pure (by simp [h.holds, h.init])
  case noElems =>
    intro src i _
    rw [bindElems]
    exact .pure (List.forall_mem_nil _)
  case hole =>
    intro rest ih src i h
    rw [holds_cons] at h
    rw [bindElems]
    exact ih src (i + 1) h.2
  case elem =>
    intro p rest hp ih src i h
    rw [holds_cons, holds_some] at h
    rw [bindElems]
    have hvalue : r.IsInit (if p.isRest then elemsFrom src i
        else computed (.ref src) (Build.num i)) := by
      split
      · exact isInit_elemsFrom src i
      · exact isInit_access src (by simp)
    refine (hp _ h.1 hvalue).bind_of fun l hl => ?_
    refine (ih src (i + 1) h.2).bind_of fun l' hl' => ?_
    exact .pure (List.forall_mem_append.mpr ⟨hl, hl'⟩)
  case noProps =>
    intro src seen _ _
    rw [bindProps]
    exact .pure (List.forall_mem_nil _)
  case keyedPat =>
    intro k p rest hp ih src seen h hseen
    obtain ⟨ha, hrest⟩ := (holds_cons _ _).mp h
    have hk : r.Holds k := ha.part (.head _)
    have hinit : ∀ span e, k = .computedKey span e → r.init e = true := by
      rintro span e rfl
      exact hkeys _ _ _ ha.own
    rw [bindProps]
    refine (holds_memberKey kind hk hinit).bind_of fun x hx => ?_
    refine (hp _ (ha.part (.tail _ (.head _))) (isInit_access src hx.1)).bind_of fun l hl => ?_
    have hseen' : ∀ k ∈ seen ++ [x.1], r.Holds k :=
      List.forall_mem_append.mpr ⟨hseen, List.forall_mem_singleton.mpr hx.1⟩
    refine (ih src _ hrest hseen').bind_of fun l' hl' => .pure ?_
    exact List.forall_mem_append.mpr ⟨List.forall_mem_append.mpr ⟨hx.2, hl⟩, hl'⟩
  case shortPat =>
    intro span id default rest ih src seen h hseen
    rw [holds_cons, holds_shortPat] at h
    rw [bindProps]
    refine (holds_bindName kind id (holds_toOption.mpr h.1)
      (isInit_access src (holds_fixedKey _ _))).bind_of fun l hl => ?_
    have hseen' : ∀ k ∈ seen ++ [.fixedKey id.span (.name id.name)], r.Holds k :=
      List.forall_mem_append.mpr ⟨hseen, List.forall_mem_singleton.mpr (holds_fixedKey _ _)⟩
    refine (ih src _ h.2 hseen').bind_of fun l' hl' => ?_
    exact .pure (List.forall_mem_append.mpr ⟨hl, hl'⟩)
  case restProp =>
    intro span dots p rest hp ih src seen h hseen
    rw [holds_cons, holds_restProp] at h
    rw [bindProps]
    refine (hp _ h.1 (isInit_ownCopy src)).bind_of fun l hl => ?_
    have hremoved : r.HoldAll ((p.binder?.map (removals · seen)).getD []) := by
      cases p.binder? with
      | none => exact List.forall_mem_nil _
      | some id => exact holds_removals id hseen
    refine (ih src seen h.2 hseen).bind_of fun l' hl' => .pure ?_
    exact List.forall_mem_append.mpr ⟨List.forall_mem_append.mpr ⟨hl, hremoved⟩, hl'⟩

theorem holds_bind (hkeys : r.CutsKeys) (kind : VarKind) (p : Pat) (value : Expr) (hp : r.Holds p)
    (h : r.IsInit value) : Lower.Yields r.HoldAll (Declarations.bind kind p value) :=
  (holds_pattern hkeys kind).1 p value hp h

theorem holds_splitDeclarator (hkeys : r.CutsKeys) (span : Span) (ctxt : Nat) (kind : VarKind)
    (declare : Bool) {a : Declarator} (h : r.Holds a) :
    Lower.Yields r.HoldAll (splitDeclarator span ctxt kind declare a) := by
  have hwhole : r.HoldAll
      [.declStmt (.declVar (.varDecl span ctxt kind declare (.cons a .nil)))] := by
    simp [h]
  cases a with
  | declarator dspan definite p o =>
    rw [holds_declarator] at h
    obtain ⟨hinit, hp, ho⟩ := h
    refine .bind fun fault => ?_
    cases fault with
    | some f => exact .bind fun _ => .pure hwhole
    | none =>
      cases o with
      | none => exact .pure hwhole
      | some e =>
        change Lower.Yields r.HoldAll (if p.isBinder then pure _ else Declarations.bind kind p e)
        split
        · exact .pure hwhole
        · exact holds_bind hkeys kind p e hp ⟨(holds_some e).mp ho, hinit⟩

theorem holds_split (hkeys : r.CutsKeys) {v : VarDecl} (h : r.Holds v) :
    Lower.Yields r.HoldAll (split v) := by
  cases v with
  | varDecl span ctxt kind declare decls =>
    rw [holds_varDecl, ← holds_toList] at h
    refine (Lower.Yields.mapM fun a ha =>
      holds_splitDeclarator hkeys span ctxt kind declare (h a ha)).bind_of fun parts hparts => ?_
    refine .pure fun s hs => ?_
    obtain ⟨l, hl, hs⟩ := List.mem_flatten.mp hs
    exact hparts l hl s hs

theorem holds_splitIfNeeded (hkeys : r.CutsKeys) {v : VarDecl} (h : r.Holds v) :
    Lower.Yields r.HoldAll (splitIfNeeded v) := by
  unfold splitIfNeeded
  split
  · exact holds_split hkeys h
  · exact .pure (by simp [h])

theorem holds_reexport (names : NameSupply) (span : Span) {s : Stmt} (h : r.Holds s) :
    r.Holds (reexport names span s) := by
  unfold reexport
  split
  · split <;> simpa using h
  · simpa using h

theorem holds_prepend {l : List (Node c)} {rest : Node (.list c)} (hl : ∀ a ∈ l, r.Holds a)
    (hrest : r.Holds rest) : r.Holds (prepend l rest) := by
  rw [prepend, holds_ofList]
  exact List.forall_mem_append.mpr ⟨hl, holds_toList.mpr hrest⟩

end Declarations

/-- The pass that splits declarations keeps to the rule. -/
theorem holds_splitDeclarations (hkeys : r.CutsKeys) (n : Node c) (h : r.Holds n) (s : Context) :
    r.Holds ((splitDeclarations n).run s).1 ∧ SameHeads n ((splitDeclarations n).run s).1 := by
  induction c, n using splitDeclarations.induct generalizing s with
  | case1 v rest ihv ihrest =>
    simp only [holds_cons, holds_declStmt, holds_declVar] at h
    refine ⟨?_, .of_isMute rfl _ _⟩
    have hv : Lower.Yields r.Holds (splitDeclarations v) := fun s => (ihv h.1 s).1
    have hrest : Lower.Yields r.Holds (splitDeclarations rest) := fun s => (ihrest h.2 s).1
    rw [splitDeclarations]
    refine hv.bind_of (fun v' hv' => (holds_splitIfNeeded hkeys hv').bind_of fun l hl => ?_) s
    exact hrest.bind_of fun rest' hrest' => .pure (holds_prepend hl hrest')
  | case2 v rest ihv ihrest =>
    simp only [holds_cons, holds_stmtItem, holds_declStmt, holds_declVar] at h
    refine ⟨?_, .of_isMute rfl _ _⟩
    have hv : Lower.Yields r.Holds (splitDeclarations v) := fun s => (ihv h.1 s).1
    have hrest : Lower.Yields r.Holds (splitDeclarations rest) := fun s => (ihrest h.2 s).1
    rw [splitDeclarations]
    refine hv.bind_of (fun v' hv' => (holds_splitIfNeeded hkeys hv').bind_of fun l hl => ?_) s
    refine hrest.bind_of fun rest' hrest' => .pure (holds_prepend ?_ hrest')
    simpa using hl
  | case3 span v rest ihv ihrest =>
    simp only [holds_cons, holds_exportDecl, holds_declVar] at h
    refine ⟨?_, .of_isMute rfl _ _⟩
    have hv : Lower.Yields r.Holds (splitDeclarations v) := fun s => (ihv h.1 s).1
    have hrest : Lower.Yields r.Holds (splitDeclarations rest) := fun s => (ihrest h.2 s).1
    rw [splitDeclarations]
    refine hv.bind_of (fun v' hv' => ?_) s
    split
    · refine (holds_split hkeys hv').bind_of fun l hl => .bind fun cx => ?_
      refine hrest.bind_of fun rest' hrest' => .pure (holds_prepend ?_ hrest')
      intro item hitem
      obtain ⟨a, ha, rfl⟩ := List.mem_map.mp hitem
      exact holds_reexport _ span (hl a ha)
    · exact hrest.bind_of fun rest' hrest' => .pure (by simp [hv', hrest'])
  | case4 v ihv =>
    simp only [holds_declStmt, holds_declVar] at h
    refine ⟨?_, .of_isMute rfl _ _⟩
    have hv : Lower.Yields r.Holds (splitDeclarations v) := fun s => (ihv h s).1
    rw [splitDeclarations]
    refine hv.bind_of (fun v' hv' => ?_) s
    split
    · exact (holds_split hkeys hv').bind_of fun l hl => .pure (by simpa using hl)
    · exact .pure (by simp [hv'])
  | case5 c n h₁ h₂ h₃ h₄ ih =>
    rw [splitDeclarations.eq_5 n h₁ h₂ h₃ h₄]
    exact holds_of_parts h (parts_of_visits lowering h (fun k hk hholds s => ih k hk hholds s) s)

/-- A pass from the inside out keeps to the rule if the rewriting of one statement does. -/
theorem holds_bottomUp {f : Stmt → Lower Stmt}
    (hf : ∀ k : Stmt, r.Holds k → Lower.Yields r.Holds (f k)) (n : Node c) (h : r.Holds n)
    (s : Context) :
    r.Holds ((Lower.bottomUp f n).run s).1 ∧ SameHeads n ((Lower.bottomUp f n).run s).1 := by
  induction n using partsInduction generalizing s with
  | @step c n ih =>
    obtain ⟨hholds, hheads⟩ := holds_of_parts h (parts_of_visits lowering h
      (f := fun k _ => Lower.bottomUp f k) (fun k hk hholds s => ih hk hholds s) s)
    rw [Rewrites.run_bottomUp]
    by_cases hc : c = .stmt
    · subst hc
      exact ⟨hf _ hholds _, .of_isMute rfl _ _⟩
    · simp only [Lower.onStmt_of_ne hc]
      exact ⟨hholds, hheads⟩

section Loops

open Loops

theorem holds_labeledBody {body : Stmt} (h : r.Holds body) :
    Lower.Yields r.Holds (labeledBody body) := by
  have hfresh : Lower.Yields r.Holds (do
      let label ← Lower.freshLabel "L"
      return labeled label (.blockStmt (intoBlock body))) := .bind fun label => .pure (by simp [h])
  unfold labeledBody
  dsimp only
  split
  · refine .bind fun cx => ?_
    split
    · exact .pure h
    · exact hfresh
  · exact hfresh

theorem holds_prelude (hkeys : r.CutsKeys) {init : Node (.opt .forInit)} (h : r.Holds init) :
    Lower.Yields r.HoldAll (prelude init) := by
  unfold prelude
  split
  · exact .pure (List.forall_mem_nil _)
  · exact holds_splitIfNeeded hkeys (by simpa using h)
  · exact .pure (by simpa using h)

theorem holds_lowerFor (hkeys : r.CutsKeys) {span : Span} {init : Node (.opt .forInit)}
    {test update : Node (.opt .expr)} {body : Stmt} (hinit : r.Holds init) (htest : r.Holds test)
    (hupdate : r.Holds update) (hbody : r.Holds body) :
    Lower.Yields r.Holds (lowerFor span init test update body) := by
  have hrest : Lower.Yields r.Holds (do
      let before ← prelude init
      let body ← labeledBody body
      let body := body :: (update.toOption.map Build.exprStmt).toList
      let test := test.toOption.getD (Build.bool true)
      if before.isEmpty then return whileDo span test body
      return Build.blockStmt span (before ++ [whileDo .none test body])) := by
    refine (holds_prelude hkeys hinit).bind_of fun before hbefore => ?_
    refine (holds_labeledBody hbody).bind_of fun body' hbody' => ?_
    have hloop (span : Span) : r.Holds (whileDo span (test.toOption.getD (Build.bool true))
        (body' :: (update.toOption.map Build.exprStmt).toList)) := by
      rw [holds_whileDo]
      refine ⟨?_, List.forall_mem_cons.mpr ⟨hbody', ?_⟩⟩
      · cases test with
        | none => exact holds_bool true
        | some t => exact (holds_some t).mp htest
      · cases update with
        | none => exact List.forall_mem_nil _
        | some u => simpa [toOption] using hupdate
    dsimp only
    split
    · exact .pure (hloop span)
    · refine .pure ?_
      rw [holds_buildBlockStmt]
      exact List.forall_mem_append.mpr ⟨hbefore, List.forall_mem_singleton.mpr (hloop .none)⟩
  unfold lowerFor
  split
  · exact .bind fun _ => hrest
  · exact hrest

theorem holds_lowerDoWhile {span : Span} {test : Expr} {body : Stmt} (htest : r.Holds test)
    (hbody : r.Holds body) : Lower.Yields r.Holds (lowerDoWhile span test body) :=
  (holds_labeledBody hbody).bind_of fun body' hbody' => .pure (by simp [htest, hbody'])

theorem holds_initialiseFirst {value : Expr} {v : VarDecl} (hv : r.Holds v) (h : r.IsInit value) :
    r.Holds (initialiseFirst value v) := by
  cases v with
  | varDecl span ctxt kind declare decls =>
    rw [holds_varDecl] at hv
    rw [initialiseFirst, holds_varDecl, holds_ofList]
    cases decls with
    | nil => exact List.forall_mem_nil _
    | cons a rest =>
      rw [holds_cons] at hv
      refine List.forall_mem_cons.mpr ⟨?_, holds_toList.mpr hv.2⟩
      cases a with
      | declarator dspan definite p o =>
        have hp := (holds_declarator.mp hv.1).2.1
        rw [initialise, holds_declarator]
        exact ⟨h.init, hp, (holds_some value).mpr h.holds⟩

/-- What a loop does with the value of a step keeps to the rule. -/
def HoldsBinding (r : SyntaxRule) : StepBinding → Prop
  | .declare v => r.Holds v
  | .assign p => p.assignTarget? = .some p ∧ r.Holds p

theorem assignTarget?_of_eq_some {p q : Pat} (h : p.assignTarget? = .some q) :
    q.assignTarget? = .some q ∧ (r.Holds p → r.Holds q) := by
  unfold assignTarget? at h
  split at h <;> first | cases h
  all_goals exact ⟨rfl, by simp⟩

theorem holds_stepBinding {head : Node .forHead} {binding : StepBinding} (h : r.Holds head)
    (hb : stepBinding head = .ok binding) : r.HoldsBinding binding := by
  unfold stepBinding at hb
  split at hb
  · split at hb
    · cases hb
      exact (holds_headDecl _).mp h
    · cases hb
  · cases hb
  · split at hb
    next target htarget =>
      cases hb
      obtain ⟨hself, hholds⟩ := assignTarget?_of_eq_some (r := r) htarget
      exact ⟨hself, hholds ((holds_headPat _).mp h)⟩
    next => cases hb

theorem holds_bindStep (hkeys : r.CutsKeys) {value : Expr} {binding : StepBinding}
    (hb : r.HoldsBinding binding) (h : r.IsInit value) :
    Lower.Yields r.HoldAll (bindStep value binding) := by
  cases binding with
  | declare v => exact holds_splitIfNeeded hkeys (holds_initialiseFirst hb h)
  | assign p =>
    refine .pure (List.forall_mem_singleton.mpr ?_)
    rw [holds_buildExprStmt, holds_assign hb.1]
    exact ⟨hb.2, h.holds⟩

theorem holds_iterate (hkeys : r.CutsKeys) {span : Span} {hint : String} {init : Expr}
    {binding : StepBinding} {body : Stmt} (hinit : r.IsInit init) (hb : r.HoldsBinding binding)
    (hbody : r.Holds body) : Lower.Yields r.Holds (iterate span hint init binding body) := by
  refine .bind fun iterator => .bind fun step => ?_
  have hvalue : r.IsInit (Build.member (.ref step) "value") := isInit_access step (holds_fixedKey _ _)
  refine (holds_bindStep hkeys hb hvalue).bind_of fun bound hbound => ?_
  refine (holds_labeledBody hbody).bind_of fun body' hbody' => .pure ?_
  have hall : ∀ s ∈ bound ++ [body'], r.Holds s :=
    List.forall_mem_append.mpr ⟨hbound, List.forall_mem_singleton.mpr hbody'⟩
  have hloop : r.Holds (whileDo .none (Build.not (Build.member (assignTo step
      (Build.call (Build.member (.ref iterator) "next") [])) "done")) (bound ++ [body'])) := by
    rw [holds_whileDo]
    exact ⟨by simp, hall⟩
  simp [hinit.init, hinit.holds, hloop]

theorem holds_checkForOf {span : Span} {isAwait : Bool} {head : Node .forHead} (h : r.Holds head) :
    Lower.Yields (fun x => ∀ binding, x = .ok binding → r.HoldsBinding binding)
      (checkForOf span isAwait head) := by
  intro s
  obtain ⟨x, hrun, hx⟩ := run_checkForOf span isAwait head s
  rw [hrun]
  exact fun binding hb => holds_stepBinding h (hx binding hb)

theorem holds_checkForIn {span : Span} {head : Node .forHead} (h : r.Holds head) :
    Lower.Yields (fun x => ∀ binding, x = .ok binding → r.HoldsBinding binding)
      (checkForIn span head) := by
  intro s
  obtain ⟨x, hrun, hx⟩ := run_checkForIn span head s
  rw [hrun]
  exact fun binding hb => holds_stepBinding h (hx binding hb).1

theorem isInit_call {f : Expr} {args : List Expr} (hf : r.Holds f) (hargs : ∀ e ∈ args, r.Holds e) :
    r.IsInit (Build.call f args) :=
  .of_strength ((holds_call f args).mpr ⟨hf, hargs⟩) assignStrength_le_memberStrength

theorem holds_lowerForOf (hkeys : r.CutsKeys) {span : Span} {isAwait : Bool} {head : Node .forHead}
    {subject : Expr} {body : Stmt} (h : r.Holds (.forOfStmt span isAwait head subject body)) :
    Lower.Yields r.Holds (lowerForOf span isAwait head subject body) := by
  have hhead : r.Holds head := h.part (.head _)
  have hsubject : r.Holds subject := h.part (.tail _ (.head _))
  have hbody : r.Holds body := h.part (.tail _ (.tail _ (.head _)))
  refine (holds_checkForOf hhead).bind_of fun x hx => ?_
  cases x with
  | error fault => exact .bind fun _ => .pure h
  | ok binding =>
    exact holds_iterate hkeys (isInit_call (by simp [hsubject]) (List.forall_mem_nil _))
      (hx binding rfl) hbody

theorem holds_lowerForIn (hkeys : r.CutsKeys) {span : Span} {head : Node .forHead}
    {subject : Expr} {body : Stmt} (h : r.Holds (.forInStmt span head subject body)) :
    Lower.Yields r.Holds (lowerForIn span head subject body) := by
  have hhead : r.Holds head := h.part (.head _)
  have hsubject : r.Holds subject := h.part (.tail _ (.head _))
  have hbody : r.Holds body := h.part (.tail _ (.tail _ (.head _)))
  refine (holds_checkForIn hhead).bind_of fun x hx => ?_
  cases x with
  | error fault => exact .bind fun _ => .pure h
  | ok binding =>
    refine .bind fun cx => ?_
    exact holds_iterate hkeys (isInit_call (holds_name _) (List.forall_mem_singleton.mpr hsubject))
      (hx binding rfl) hbody

theorem holds_lowerLoop (hkeys : r.CutsKeys) (k : Stmt) (h : r.Holds k) :
    Lower.Yields r.Holds (lowerLoop k) := by
  unfold lowerLoop
  split
  · exact holds_lowerFor hkeys (h.part (.head _)) (h.part (.tail _ (.head _)))
      (h.part (.tail _ (.tail _ (.head _)))) (h.part (.tail _ (.tail _ (.tail _ (.head _)))))
  · exact holds_lowerDoWhile (h.part (.head _)) (h.part (.tail _ (.head _)))
  · exact holds_lowerForOf hkeys h
  · exact holds_lowerForIn hkeys h
  · exact .pure h

end Loops

section Switches

open Switches

theorem holds_retarget (label : Ident) (n : Node c) (h : r.Holds n) :
    r.Holds (retarget label n) ∧ SameHeads n (retarget label n) := by
  induction n using partsInduction with
  | @step c n ih =>
    cases hleave : n.isLeave with
    | true =>
      cases n with
      | breakStmt span l =>
        cases l with
        | none =>
          rw [retarget_leave]
          exact ⟨holds_breakStmt _ _, .of_isMute rfl _ _⟩
        | some l => cases hleave
      | _ => cases hleave
    | false =>
      cases hshield : shieldsBreaks n with
      | true =>
        rw [retarget_of_shields label hshield]
        exact ⟨h, .refl n⟩
      | false =>
        rw [retarget_eq_mapParts label hleave hshield]
        exact holds_of_parts h
          ((Parts.of_mapParts (retarget label) n).imp fun hk he => he ▸ ih hk (h.part hk))

/-- What stands in a clause and what is declared before it. -/
def HoldsHoisted (r : SyntaxRule) (x : List Stmt × Hoisted) : Prop :=
  r.HoldAll x.1 ∧ r.HoldAll x.2.functions

theorem holds_hoistAll {α : Type} {f : α → List Stmt × Hoisted} {l : List α}
    (h : ∀ a ∈ l, r.HoldsHoisted (f a)) : r.HoldsHoisted (hoistAll f l) := by
  induction l with
  | nil => exact ⟨List.forall_mem_nil _, List.forall_mem_nil _⟩
  | cons a l ih =>
    obtain ⟨ha, hl⟩ := List.forall_mem_cons.mp h
    exact ⟨List.forall_mem_append.mpr ⟨ha.1, (ih hl).1⟩,
      List.forall_mem_append.mpr ⟨ha.2, (ih hl).2⟩⟩

theorem holds_hoistDeclarator (kind : VarKind) {a : Declarator} (h : r.Holds a) :
    r.HoldsHoisted (hoistDeclarator kind a) := by
  cases a with
  | declarator span definite p o =>
    obtain ⟨hinit, hp, ho⟩ := holds_declarator.mp h
    cases p with
    | binder id =>
      refine ⟨List.forall_mem_singleton.mpr ?_, List.forall_mem_nil _⟩
      cases o with
      | none => simp [toOption]
      | some e => simpa [toOption] using ho
    | _ =>
      refine ⟨List.forall_mem_singleton.mpr ?_, List.forall_mem_nil _⟩
      rw [holds_declarePat, holds_toOption]
      exact ⟨hinit, hp, ho⟩

theorem holds_hoistStmt {s : Stmt} (h : r.Holds s) : r.HoldsHoisted (hoistStmt s) := by
  have hself : r.HoldsHoisted ([s], .none) :=
    ⟨List.forall_mem_singleton.mpr h, List.forall_mem_nil _⟩
  cases s with
  | declStmt a =>
    cases a with
    | declVar v =>
      cases v with
      | varDecl span ctxt kind declare decls =>
        unfold hoistStmt
        dsimp only
        split
        · exact hself
        · simp only [holds_declStmt, holds_declVar, holds_varDecl, ← holds_toList] at h
          exact holds_hoistAll fun a ha => holds_hoistDeclarator kind (h a ha)
    | declClass declare name a =>
      exact ⟨by simpa [hoistStmt] using h, List.forall_mem_nil _⟩
    | declFunc declare name f =>
      exact ⟨List.forall_mem_nil _, List.forall_mem_singleton.mpr h⟩
    | declUsing => exact hself
  | _ => exact hself

/-- The test and the statements of a clause. -/
def HoldsCase (r : SyntaxRule) (x : Case) : Prop :=
  (∀ e ∈ x.test, r.Holds e) ∧ r.HoldAll x.body

theorem holds_block? {body : List Stmt} (h : r.HoldAll body) :
    ∀ s ∈ block? body, r.Holds s := by
  unfold block?
  split
  · nofun
  · rintro s ⟨rfl⟩
    exact (holds_buildBlockStmt _ _).mpr h

theorem holds_flagCase (matched disc : Ident) {x : Case} (h : r.HoldsCase x) :
    r.HoldAll (flagCase matched disc x) := by
  obtain ⟨test, body⟩ := x
  obtain ⟨htest, hbody⟩ := h
  refine List.forall_mem_cons.mpr ⟨?_, ?_⟩
  · cases test with
    | none => simp
    | some e => simp [htest e rfl]
  · have hblock := holds_block? hbody
    cases hb : block? body with
    | none => simp
    | some b => simp [hblock b hb]

theorem holds_selectCase (disc index : Ident) {cases : List (Case × Nat)}
    (h : ∀ x ∈ cases, r.HoldsCase x.1) : ∀ s ∈ selectCase disc index cases, r.Holds s := by
  induction cases with
  | nil => nofun
  | cons x rest ih =>
    obtain ⟨⟨test, body⟩, i⟩ := x
    obtain ⟨hx, hrest⟩ := List.forall_mem_cons.mp h
    cases test with
    | none => exact ih hrest
    | some e =>
      rintro s ⟨rfl⟩
      have he : r.Holds e := hx.1 e rfl
      rw [holds_ifElse]
      exact ⟨by simp [he], by simp, ih hrest⟩

theorem holds_indexBody (index : Ident) (i : Nat) {x : Case} (h : r.HoldsCase x) :
    r.HoldAll (indexBody index x i) := by
  have hblock := holds_block? h.2
  unfold indexBody
  cases hb : block? x.body with
  | none => exact List.forall_mem_nil _
  | some b => simp [hblock b hb]

/-- The declarations before the clauses, and the clauses. -/
def HoldsForm (r : SyntaxRule) (x : List Stmt × List Stmt) : Prop :=
  r.HoldAll x.1 ∧ r.HoldAll x.2

theorem holds_flagForm {subject : Expr} {cases : List Case} (h : r.IsInit subject)
    (hcases : ∀ x ∈ cases, r.HoldsCase x) :
    Lower.Yields r.HoldsForm (flagForm subject cases) := by
  refine .bind fun matched => .bind fun disc => .pure ⟨?_, ?_⟩
  · have hfalse : r.init (Build.bool false) = true := r.init_strength (by decide)
    simp [h.holds, h.init, hfalse]
  · intro s hs
    obtain ⟨x, hx, hs⟩ := List.mem_flatMap.mp hs
    exact holds_flagCase matched disc (hcases x hx) s hs

theorem holds_indexForm {subject : Expr} {default : Nat} {cases : List Case} (h : r.IsInit subject)
    (hcases : ∀ x ∈ cases, r.HoldsCase x) :
    Lower.Yields r.HoldsForm (indexForm subject default cases) := by
  have hzip : ∀ x ∈ cases.zipIdx, r.HoldsCase x.1 := fun x hx =>
    hcases _ (List.fst_mem_of_mem_zipIdx hx)
  refine .bind fun disc => .bind fun index => .pure ⟨?_, ?_⟩
  · have hnum : r.init (Build.num default) = true :=
      r.init_strength assignStrength_le_memberStrength
    simp [h.holds, h.init, hnum]
  · refine List.forall_mem_append.mpr ⟨fun s hs => ?_, fun s hs => ?_⟩
    · exact holds_selectCase disc index hzip s (Option.mem_toList.mp hs)
    · obtain ⟨x, hx, hs⟩ := List.mem_flatMap.mp hs
      exact holds_indexBody index x.2 (hzip x hx) s hs

theorem holds_hoistedStmts {x : Hoisted} (h : r.HoldAll x.functions) : r.HoldAll x.stmts := by
  refine List.forall_mem_append.mpr ⟨fun s hs => ?_, h⟩
  obtain ⟨id, -, rfl⟩ := List.mem_map.mp hs
  simp

theorem holds_lowerCases {span : Span} {subject : Expr} {cases : List Case}
    (h : r.Holds subject) (hinit : cases ≠ [] → r.init subject = true)
    (hcases : ∀ x ∈ cases, r.HoldsCase x) :
    Lower.Yields r.Holds (Switches.lower span subject cases) := by
  unfold Switches.lower
  split
  · exact .pure (by simpa using h)
  next hne =>
    refine .bind fun label => ?_
    have hsubject : r.IsInit subject := ⟨h, hinit (by simpa using hne)⟩
    extract_lets parts hoisted cs wrap
    have hparts : ∀ x ∈ parts, (∀ e ∈ x.1, r.Holds e) ∧ r.HoldsHoisted x.2 := by
      intro x hx
      obtain ⟨a, ha, rfl⟩ := List.mem_map.mp hx
      obtain ⟨htest, hbody⟩ := hcases a ha
      refine ⟨htest, holds_hoistAll fun s hs => holds_hoistStmt ?_⟩
      obtain ⟨k, hk, rfl⟩ := List.mem_map.mp hs
      exact (holds_retarget label k (hbody k hk)).1
    have hhoisted : r.HoldAll hoisted.functions := by
      simp only [hoisted]
      clear_value parts
      induction parts with
      | nil => exact List.forall_mem_nil _
      | cons x rest ih =>
        obtain ⟨hx, hrest⟩ := List.forall_mem_cons.mp hparts
        exact List.forall_mem_append.mpr ⟨hx.2.2, ih hrest⟩
    have hcs : ∀ x ∈ cs, r.HoldsCase x := by
      intro x hx
      obtain ⟨a, ha, rfl⟩ := List.mem_map.mp hx
      exact ⟨(hparts a ha).1, (hparts a ha).2.1⟩
    have hwrap {form : Lower (List Stmt × List Stmt)} (h : Lower.Yields r.HoldsForm form) :
        Lower.Yields r.Holds (form >>= wrap) := by
      refine h.bind_of fun x hx => .pure ?_
      rw [holds_labeled, holds_buildBlockStmt]
      refine List.forall_mem_append.mpr ⟨hx.1, ?_⟩
      split
      · exact hx.2
      · refine List.forall_mem_singleton.mpr ?_
        rw [holds_blockStmt, holds_buildBlock]
        exact List.forall_mem_append.mpr ⟨holds_hoistedStmts hhoisted, hx.2⟩
    split
    · split
      · exact hwrap (holds_indexForm hsubject hcs)
      · exact hwrap (holds_flagForm hsubject hcs)
    · exact hwrap (holds_flagForm hsubject hcs)

theorem hasClauses_of_ne_nil {clauses : Node (.list .clause)}
    (h : clauses.toList.map Case.ofClause ≠ []) : clauses.hasClauses = true := by
  cases clauses with
  | nil => exact absurd rfl h
  | cons a l => rfl

theorem holds_lowerSwitch (hsubjects : r.CutsSubjects) (k : Stmt) (h : r.Holds k) :
    Lower.Yields r.Holds (lowerSwitch k) := by
  unfold lowerSwitch
  split
  next span subject clauses =>
    dsimp only
    split
    · exact .bind fun _ => .pure h
    · refine holds_lowerCases (h.part (.head _))
        (fun hne => hsubjects _ _ _ h.own (hasClauses_of_ne_nil hne)) fun x hx => ?_
      obtain ⟨a, ha, rfl⟩ := List.mem_map.mp hx
      have hclause := holds_toList.mpr (h.part (.tail _ (.head _))) a ha
      cases a with
      | clause cspan test body =>
        rw [holds_clause] at hclause
        exact ⟨holds_toOption.mpr hclause.1, holds_toList.mpr hclause.2⟩
  · exact .pure h

end Switches

theorem holds_lowerTry (k : Stmt) (h : r.Holds k) : Lower.Yields r.Holds (Finallys.lowerTry k) := by
  unfold Finallys.lowerTry
  split
  next span body handler finalizer =>
    simp only [holds_tryStmt, holds_some] at h
    obtain ⟨hbody, hhandler, hfinalizer⟩ := h
    refine .bind fun _ => .bind fun threw => .bind fun err => .bind fun caught => .pure ?_
    have hfalse : r.init (Build.bool false) = true := r.init_strength (by decide)
    have hguarded : r.Holds (Finallys.guarded body (Finallys.recordClause threw err caught)
        handler) := by
      cases handler with
      | none => simp [Finallys.guarded, Finallys.recordClause, hbody]
      | some a =>
        cases a with
        | handler hspan p b =>
          rw [holds_some, holds_handler] at hhandler
          simp [Finallys.guarded, Finallys.recordClause, hbody, hhandler]
    simp [hfalse, hguarded, hfinalizer]
  · exact .pure h

theorem holds_labelBody {label : Ident} {n : Node c} (h : r.Holds n) (hloop : n.isLoop = true) :
    r.Holds (n.mapLoopBody (Continues.labelBody label)) := by
  have hbody {b : Stmt} (hb : r.Holds b) : r.Holds (Continues.labelBody label b) := by
    simp [Continues.labelBody, hb]
  obtain ⟨-, hparts⟩ := holds_iff.mp h
  rw [holds_iff]
  cases n
  all_goals
    first
      | exact Bool.noConfusion hloop
      | refine ⟨r.free rfl, ?_⟩
        simp only [mapLoopBody, children, List.forall_mem_cons] at hparts ⊢
        simp [hparts, hbody]

/-- Replacing every `continue` keeps to the rule. -/
theorem holds_replaceContinuesIn (n : Node c) (h : r.Holds n) (s : Spot) :
    let n' := ((replacing []).run (replaceContinuesIn n) s).1
    r.Holds n' ∧ SameHeads n n' := by
  induction c, n using replaceContinuesIn.induct generalizing s with
  | case1 span label body ih =>
    rw [holds_labeledStmt] at h
    rw [replaceContinuesIn, (replacing []).run_bind, run_inside]
    exact ⟨(holds_labeledStmt _ _ _).mpr (ih h _).1, .of_isMute rfl _ _⟩
  | case2 span label =>
    rw [replaceContinuesIn]
    unfold Continues.replace
    simp only [(replacing []).run_bind, run_get]
    cases JumpTarget.resolve s.1 label with
    | ok i => exact ⟨holds_breakTo _, .of_isMute rfl _ _⟩
    | error fault => exact ⟨holds_continueStmt _ _, .of_isMute rfl _ _⟩
  | case3 c n hlabel hcontinue hloop ih =>
    obtain rfl : c = .stmt := by cases n <;> first | rfl | exact Bool.noConfusion hloop
    refine ⟨?_, .of_isMute rfl _ _⟩
    rw [replaceContinuesIn.eq_3 n hlabel hcontinue, if_pos hloop, (replacing []).run_bind,
      run_inside]
    have hparts := parts_of_visits (replacing []) h (fun k hk hholds s => ih k hk hholds s)
      (.loop none :: s.1, s.2)
    generalize (replacing []).run (n.traverse _) _ = x at hparts ⊢
    obtain ⟨hholds, -⟩ := holds_of_parts h hparts
    have hloop' : x.1.isLoop = true :=
      (hparts.form_eq isLoop fun m => by cases m <;> rfl).symm.trans hloop
    dsimp only
    split
    · exact holds_labelBody hholds hloop'
    · exact hholds
  | case4 c n hlabel hcontinue hloop hfun ih =>
    rw [replaceContinuesIn.eq_3 n hlabel hcontinue, if_neg hloop, if_pos hfun, run_isolated]
    exact holds_of_parts h
      (parts_of_visits (replacing []) h (fun k hk hholds s => ih k hk hholds s) _)
  | case5 c n hlabel hcontinue hloop hfun ih =>
    rw [replaceContinuesIn.eq_3 n hlabel hcontinue, if_neg hloop, if_neg hfun]
    exact holds_of_parts h
      (parts_of_visits (replacing []) h (fun k hk hholds s => ih k hk hholds s) _)

/-- What a stage needs of a rule. -/
def Suits (r : SyntaxRule) : Stage → Prop
  | .declarations | .loops => r.CutsKeys
  | .switches => r.CutsSubjects
  | .continues | .finallys => True

theorem holds_pass {stage : Stage} (hr : r.Suits stage) {p : Program} (h : r.Holds p)
    (cx : Context) : r.Holds ((stage.pass p).run cx).1 := by
  cases stage with
  | declarations => exact (holds_splitDeclarations hr p h cx).1
  | continues => exact (holds_replaceContinuesIn p h ([], cx)).1
  | loops => exact (holds_bottomUp (holds_lowerLoop hr) p h cx).1
  | switches => exact (holds_bottomUp (holds_lowerSwitch hr) p h cx).1
  | finallys => exact (holds_bottomUp holds_lowerTry p h cx).1

/-- Lowering keeps to a rule that suits the stages that run. -/
theorem holds_lowerWith {config : Config} {p : Program}
    (hr : ∀ stage : Stage, stage.isEnabled config = true → r.Suits stage) (h : r.Holds p) :
    r.Holds (lowerWith config p).program := by
  rw [Lowering.lowerWith_eq]
  refine (Lowering.stages_induction
    (I := fun _ p cx => r.Holds p ∧ cx.config = config) ?_ ?_ ⟨h, rfl⟩).1
  · exact fun h _ => h
  · rintro before after stage p cx - ⟨h, rfl⟩ henabled -
    exact ⟨holds_pass (hr stage henabled) h cx, (stage.steps_pass p cx).grows.config⟩

end SyntaxRule

end PlainJs

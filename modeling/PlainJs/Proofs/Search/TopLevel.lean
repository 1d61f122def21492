import PlainJs.Proofs.Scopes.Resolution
import PlainJs.Proofs.Search.Passes

namespace PlainJs

/-- Whether trees of a category declare nothing for what is around them. -/
def Cat.isQuiet : Cat → Bool
  | .arrowBody | .block | .stmt | .decl | .varDecl | .clause | .handler | .forInit | .forHead
  | .item | .program => false
  | .list c | .opt c => c.isQuiet
  | _ => true

/-- Whether trees of a category are whole programs. -/
def Cat.isProgram : Cat → Bool
  | .program => true
  | .list c | .opt c => c.isProgram
  | _ => false

open Node

namespace Node

variable {c d : Cat} {n n' : Node c} {x : String}

/-- Only functions lead out of the categories that declare nothing. -/
theorem isQuiet_of_mem_children (hc : c.isQuiet = true) (hopen : n.isFunctionLike = false)
    {k : Node d} (hk : ⟨d, k⟩ ∈ n.children) : d.isQuiet = true := by
  have hall : n.children.all (fun k => k.1.isQuiet) = true := by
    cases n with
    | cons | some => simpa [children, Cat.isQuiet] using hc
    | _ => first | rfl | exact Bool.noConfusion hc | exact Bool.noConfusion hopen
  exact List.all_eq_true.mp hall _ hk

theorem vars_eq_nil (hc : c.isQuiet = true) (n : Node c) : n.vars = [] := by
  induction n with
  | cons a l iha ihl => exact List.append_eq_nil_iff.mpr ⟨iha hc, ihl hc⟩
  | some a ih => exact ih hc
  | _ => first | rfl | cases hc

theorem isProgram_of_mem_children (hc : c.isProgram = false) {k : Node d}
    (hk : ⟨d, k⟩ ∈ n.children) : d.isProgram = false := by
  have hall : n.children.all (fun k => !k.1.isProgram) = true := by
    cases n with
    | cons | some => simpa [children, Cat.isProgram] using hc
    | _ => rfl
  simpa using List.all_eq_true.mp hall _ hk

/-- The `var` names that a node declares itself. -/
def ownVars : {c : Cat} → Node c → List Ident
  | _, .varDecl _ _ kind _ decls => if kind = .var then decls.boundIdents else []
  | _, _ => []

theorem ownVars_eq_nil (hc : c.isQuiet = true) (n : Node c) : n.ownVars = [] := by
  cases n <;> first | rfl | exact Bool.noConfusion hc

/-- The `var` names of a node are its own and those of its parts. -/
theorem vars_eq (hc : c.isProgram = false) (hopen : n.isFunctionLike = false) :
    n.vars = n.ownVars ++ n.children.flatMap fun k => k.2.vars := by
  cases hquiet : c.isQuiet with
  | true =>
    have hparts : (n.children.flatMap fun k => k.2.vars) = [] :=
      List.flatMap_eq_nil_iff.mpr fun k hk =>
        vars_eq_nil (isQuiet_of_mem_children hquiet hopen hk) k.2
    rw [vars_eq_nil hquiet, ownVars_eq_nil hquiet, hparts, List.nil_append]
  | false =>
    -- parts of quiet categories add nothing
    have quiet {d : Cat} (hd : d.isQuiet = true) (k : Node d) (l : List Ident) :
        l = k.vars ++ l := by
      rw [vars_eq_nil hd, List.nil_append]
    cases n with
    | nil | none | emptyStmt | debuggerStmt | breakStmt | continueStmt | importItem | exportNames
    | exportAll => rfl
    | some | blockBody | block | blockStmt | labeledStmt | declStmt | initDecl | headDecl | declVar
    | stmtItem | exportDecl => exact (List.append_nil _).symm
    | exprBody | exprStmt | returnStmt | throwStmt | initExpr | headUsing | headPat | declFunc
    | declClass | declUsing | exportFunc | exportClass | exportExpr => exact quiet rfl _ []
    | varDecl _ _ kind _ decls =>
      exact ((quiet rfl decls []) ▸ List.append_nil _).symm
    | withStmt _ a b | whileStmt _ a b | doWhileStmt _ a b | switchStmt _ a b | clause _ a b
    | handler _ a b => exact ((List.append_nil _).symm).trans (quiet rfl a (b.vars ++ []))
    | cons a l => exact congrArg (a.vars ++ ·) (List.append_nil _).symm
    | ifStmt _ a b b' =>
      exact (congrArg (b.vars ++ ·) (List.append_nil _).symm).trans
        (quiet rfl a (b.vars ++ (b'.vars ++ [])))
    | tryStmt _ a b b' =>
      change a.vars ++ b.vars ++ b'.vars = a.vars ++ (b.vars ++ (b'.vars ++ []))
      rw [List.append_nil, List.append_assoc]
    | forStmt _ a b b' e =>
      refine congrArg (a.vars ++ ·) ?_
      exact (List.append_nil _).symm.trans
        ((quiet rfl b' (e.vars ++ [])).trans (quiet rfl b (b'.vars ++ (e.vars ++ []))))
    | forInStmt _ a b e | forOfStmt _ _ a b e =>
      exact congrArg (a.vars ++ ·) ((List.append_nil _).symm.trans (quiet rfl b (e.vars ++ [])))
    | _ =>
      first
        | exact Bool.noConfusion hquiet
        | exact Bool.noConfusion hc

/-- A tree declares a name in the scope around it. -/
def Shows (x : String) (n : Node c) : Prop := ∃ d ∈ n.surface, d.2.name = x

/-- A program declares a name in its own scope, `var` names apart. -/
def TopShows (x : String) : {c : Cat} → Node c → Prop
  | _, .moduleProgram _ _ items => items.Shows x
  | _, .scriptProgram _ _ stmts => stmts.Shows x
  | _, _ => False

/-- The names that a program declares at its top level. -/
def topLevel : Program → List Ident
  | .moduleProgram _ _ items => items.lexicals ++ items.vars
  | .scriptProgram _ _ stmts => stmts.lexicals ++ stmts.vars

theorem not_shows (h : n.surface = []) : ¬n.Shows x := by
  rintro ⟨d, hd, -⟩
  rw [h] at hd
  cases hd

theorem shows_cons (a : Node c) (l : Node (.list c)) :
    (Node.cons a l).Shows x ↔ a.Shows x ∨ l.Shows x := by
  change (∃ d ∈ a.surface ++ l.surface, d.2.name = x) ↔ _
  simp only [List.mem_append, or_and_right, exists_or]
  rfl

theorem shows_ofList (l : List (Node c)) : (Node.ofList l).Shows x ↔ ∃ k ∈ l, k.Shows x := by
  induction l with
  | nil => exact iff_of_false (not_shows rfl) (by simp)
  | cons a l ih => rw [Node.ofList, shows_cons, ih, List.exists_mem_cons_iff]

theorem shows_labeledStmt (span : Span) (label : Ident) (body : Stmt) :
    (Node.labeledStmt span label body).Shows x ↔ body.Shows x := by
  constructor
  · rintro ⟨d, hd, hx⟩
    obtain ⟨d', hd', rfl⟩ := List.mem_map.mp hd
    exact ⟨d', hd', hx⟩
  · rintro ⟨d, hd, hx⟩
    exact ⟨_, List.mem_map_of_mem hd, hx⟩

theorem shows_varDecl (span : Span) (ctxt : Nat) (kind : VarKind) (declare : Bool)
    (decls : Node (.list .declarator)) : (Node.varDecl span ctxt kind declare decls).Shows x ↔
      kind ≠ .var ∧ ∃ id ∈ decls.boundIdents, id.name = x := by
  rw [Shows, surface_varDecl]
  split
  next hkind => simp [hkind]
  next hkind => simp [hkind]

theorem shows_using {l : List Ident} :
    (∃ d ∈ l.map fun id => (DeclForm.binding, id), d.2.name = x) ↔ ∃ id ∈ l, id.name = x := by
  simp

/-- What a tree declares around it. It is left open for trees that declare what their parts
declare. -/
def ownSurface : {c : Cat} → Node c → Option (List (DeclForm × Ident))
  | _, .cons .. | _, .some _ | _, .clause .. | _, .labeledStmt .. | _, .declStmt _ | _, .initDecl _
  | _, .headDecl _ | _, .headUsing .. | _, .declVar _ | _, .declUsing .. | _, .varDecl ..
  | _, .stmtItem _ | _, .exportDecl .. => .none
  | _, .declFunc _ name _ => .some [(.function, name)]
  | _, .declClass _ name _ => .some [(.binding, name)]
  | _, .importItem i => .some (i.specifiers.map fun a => (.binding, a.here))
  | _, .exportFunc _ name _ => .some (name.toList.map fun id => (.function, id))
  | _, .exportClass _ name _ => .some (name.toList.map fun id => (.binding, id))
  | _, _ => .some []

theorem ownSurface_eq {l : List (DeclForm × Ident)} (h : n.ownSurface = .some l) :
    n.surface = l := by
  cases n <;> cases h <;> rfl

/-- A tree that looks like another one and declares no more names for what is around it. -/
structure Covers (x : String) (n n' : Node c) : Prop where
  outline : SameOutline n n'
  shows : n'.Shows x → n.Shows x
  topShows : n'.TopShows x → n.TopShows x

theorem not_topShows (hc : c ≠ .program) (n : Node c) : ¬n.TopShows x := by
  cases n <;> first | exact id | exact absurd rfl hc

theorem Covers.of_isMute (hc : c.isMute = true) (h : n'.Shows x → n.Shows x) : Covers x n n' where
  outline := .of_isMute hc n n'
  shows := h
  topShows hx := by
    refine absurd hx (not_topShows ?_ n')
    rintro rfl
    cases hc

theorem shows_of_parts (h : Parts (Covers x) n n') (hx : n'.Shows x) : n.Shows x := by
  have hown : n.ownSurface = n'.ownSurface := h.form_eq ownSurface fun m => by cases m <;> rfl
  cases hn : n.ownSurface with
  | some l => rwa [Shows, ownSurface_eq hn, ← ownSurface_eq (hown.symm.trans hn)]
  | none =>
    cases n with
    | cons a l =>
      obtain ⟨a', ha, l', hl, rfl⟩ := h
      exact (shows_cons a l).mpr (((shows_cons a' l').mp hx).imp ha.shows hl.shows)
    | some a | declStmt a | initDecl a | headDecl a | declVar a | stmtItem a | exportDecl _ a =>
      obtain ⟨a', ha, rfl⟩ := h
      exact ha.shows hx
    | clause span test body =>
      obtain ⟨test', -, body', hbody, rfl⟩ := h
      exact hbody.shows hx
    | labeledStmt span label body =>
      obtain ⟨body', hbody, rfl⟩ := h
      exact (shows_labeledStmt span label body).mpr
        (hbody.shows ((shows_labeledStmt span label body').mp hx))
    | headUsing span isAwait decls | declUsing span isAwait decls =>
      obtain ⟨decls', hdecls, rfl⟩ := h
      refine shows_using.mpr ?_
      rw [hdecls.outline.idents]
      exact shows_using.mp hx
    | varDecl span ctxt kind declare decls =>
      obtain ⟨decls', hdecls, rfl⟩ := h
      rw [shows_varDecl, hdecls.outline.idents, ← shows_varDecl span ctxt kind declare]
      exact hx
    | _ => cases hn

theorem Covers.of_parts (h : Parts (Covers x) n n') : Covers x n n' where
  outline := .of_parts (h.imp fun _ hk => hk.outline)
  shows := shows_of_parts h
  topShows hx := by
    by_cases hc : c = .program
    · subst hc
      cases n with
      | moduleProgram span interpreter items | scriptProgram span interpreter items =>
        obtain ⟨items', hitems, rfl⟩ := h
        exact hitems.shows hx
    · exact absurd hx (not_topShows hc n')

end Node

namespace Search

variable {c : Cat} {n : Node c} {x : String}

/-- Looks for declarations outside of functions. -/
def declarations (declares : VarKind → String → Bool) (names : String → Bool) : Search :=
  ⟨fun _ => false, fun _ => false, declares, names, false⟩

theorem finds_declarations_of_isQuiet {declares : VarKind → String → Bool} {names : String → Bool}
    (hc : c.isQuiet = true) (n : Node c) : (declarations declares names).finds n = false := by
  induction n using partsInduction with
  | step n ih =>
    have hown : (declarations declares names).own n = false := by
      cases n with
      | call _ _ callee _ =>
        rw [own_call]
        cases callee.refName? <;> rfl
      | _ => first | rfl | cases hc
    rw [finds_eq, hown, Bool.false_or, inner]
    cases hfun : n.isFunctionLike with
    | true => rfl
    | false =>
      refine Bool.and_eq_false_imp.mpr fun _ => List.any_eq_false.mpr fun k hk => ?_
      simp [ih hk (isQuiet_of_mem_children hc hfun hk)]

/-- Looks for `var` declarations of a name outside of functions. -/
def varsOf (x : String) : Search :=
  declarations (fun kind y => kind = .var && y == x) fun _ => false

/-- Looks for other declarations of a name outside of functions. -/
def bindingsOf (x : String) : Search :=
  declarations (fun kind y => kind ≠ .var && y == x) (· == x)

/-- The `var` names of a tree are the variables that are found outside of its functions. -/
theorem finds_varsOf (hc : c.isProgram = false) (n : Node c) :
    (varsOf x).finds n = n.vars.any (·.name == x) := by
  induction n using partsInduction with
  | step n ih =>
    have hown : (varsOf x).own n = n.ownVars.any (·.name == x) := by
      cases n with
      | varDecl _ _ kind _ decls =>
        rw [own_varDecl]
        cases kind <;> simp [ownVars, varsOf, declarations]
      | call _ _ callee _ =>
        rw [own_call]
        cases callee.refName? <;> rfl
      | forInStmt => exact Bool.and_false _
      | declUsing | headUsing | importItem =>
        exact List.any_eq_false.mpr fun _ _ => Bool.false_ne_true
      | exportFunc _ name _ | exportClass _ name _ => cases name <;> rfl
      | _ => rfl
    cases hfun : n.isFunctionLike with
    | true =>
      have hnone : n.vars = [] ∧ n.ownVars = [] := by
        cases n <;> first | exact ⟨rfl, rfl⟩ | exact Bool.noConfusion hfun
      rw [finds_eq, hown, inner, hfun, hnone.1, hnone.2]
      rfl
    | false =>
      rw [finds_eq, inner_eq_any hfun, hown, vars_eq hc hfun, List.any_append, List.any_flatMap]
      refine congrArg _ (Bool.eq_iff_iff.mpr ?_)
      rw [List.any_eq_true, List.any_eq_true]
      exact exists_congr fun k => and_congr_right fun hk => by
        rw [ih hk (isProgram_of_mem_children hc hk)]

/-- What a tree declares around it is found in it. -/
theorem finds_of_shows (h : n.Shows x) : (bindingsOf x).finds n = true := by
  induction n using partsInduction with
  | @step c n ih =>
    have own (h : (bindingsOf x).own n = true) : (bindingsOf x).finds n = true := by
      rw [finds_eq, h, Bool.true_or]
    have part {d : Cat} {k : Node d} (hopen : n.isFunctionLike = false) (hk : ⟨d, k⟩ ∈ n.children)
        (h : k.Shows x) : (bindingsOf x).finds n = true := by
      rw [finds_eq, inner_eq_any hopen, Bool.or_eq_true, List.any_eq_true]
      exact .inr ⟨_, hk, ih hk h⟩
    have bound {l : List Ident} (h : ∃ id ∈ l, id.name = x) :
        l.any (fun id => id.name == x) = true := by
      simpa using h
    cases hn : n.ownSurface with
    | none =>
      cases n with
      | cons a l =>
        exact ((shows_cons a l).mp h).elim (part rfl (.head _)) (part rfl (.tail _ (.head _)))
      | some | declStmt | initDecl | headDecl | declVar | stmtItem | exportDecl =>
        exact part rfl (.head _) h
      | clause => exact part rfl (.tail _ (.head _)) h
      | labeledStmt => exact part rfl (.head _) ((shows_labeledStmt _ _ _).mp h)
      | headUsing | declUsing => exact own (bound (shows_using.mp h))
      | varDecl span ctxt kind declare decls =>
        obtain ⟨hkind, hx⟩ := (shows_varDecl _ _ _ _ _).mp h
        refine own ?_
        rw [own_varDecl]
        simpa [bindingsOf, declarations, hkind] using hx
      | _ => cases hn
    | some l =>
      obtain ⟨d, hd, rfl⟩ := h
      cases n with
      | declFunc | declClass =>
        rw [List.mem_singleton.mp hd] at own ⊢
        exact own (beq_self_eq_true _)
      | importItem i =>
        obtain ⟨a, ha, rfl⟩ := List.mem_map.mp hd
        exact own (List.any_eq_true.mpr ⟨a, ha, beq_self_eq_true _⟩)
      | exportFunc span name f | exportClass span name f =>
        obtain ⟨id, hid, rfl⟩ := List.mem_map.mp hd
        rw [Option.mem_toList] at hid
        subst hid
        exact own (beq_self_eq_true _)
      | _ => first | cases hd | cases hn

/-- Of a declaration of variables, no more is found than it declares. -/
theorem shows_of_finds {v : VarDecl} (h : (bindingsOf x).finds v = true) : v.Shows x := by
  cases v with
  | varDecl span ctxt kind declare decls =>
    have hquiet : (bindingsOf x).finds decls = false := finds_declarations_of_isQuiet rfl decls
    rw [finds_varDecl, hquiet, Bool.or_false, marks, List.any_eq_true] at h
    obtain ⟨id, hid, hx⟩ := h
    simp only [bindingsOf, declarations, Bool.and_eq_true, decide_eq_true_eq, beq_iff_eq] at hx
    exact (shows_varDecl span ctxt kind declare decls).mpr ⟨hx.1, id, hid, hx.2⟩

variable {base : Context}

theorem shows_prepend {l : List (Node c)} {rest : Node (.list c)} :
    (Declarations.prepend l rest).Shows x ↔ (∃ k ∈ l, k.Shows x) ∨ rest.Shows x := by
  have hrest : rest.Shows x ↔ ∃ k ∈ rest.toList, k.Shows x := by rw [← shows_ofList, ofList_toList]
  rw [Declarations.prepend, shows_ofList, hrest]
  simp only [List.mem_append, or_and_right, exists_or]

open Declarations in
/-- Splitting declarations declares no more names around a tree. -/
theorem covers_splitDeclarations (hq : (bindingsOf x).Spares base) (n : Node c) :
    Lower.Ensures base (Covers x n) (splitDeclarations n) := by
  -- the parts of a declaration declare no more than it
  have hsplit {v v' : VarDecl} {l : List Stmt} (hv : Covers x v v')
      (hl : l.any (bindingsOf x).finds = (bindingsOf x).finds v') (h : ∃ k ∈ l, k.Shows x) :
      v.Shows x := by
    obtain ⟨k, hk, hx⟩ := h
    refine hv.shows (shows_of_finds (hl.symm.trans (List.any_eq_true.mpr ⟨k, hk, ?_⟩)))
    exact finds_of_shows hx
  induction c, n using splitDeclarations.induct with
  | case1 v rest ihv ihrest =>
    rw [splitDeclarations]
    refine ihv.bind fun v' hv => (ensures_splitIfNeeded hq v').bind fun l hl => ?_
    refine ihrest.bind fun rest' hrest => .pure (.of_isMute rfl fun hx => ?_)
    exact (shows_cons _ _).mpr ((shows_prepend.mp hx).imp (hsplit hv hl) hrest.shows)
  | case2 v rest ihv ihrest =>
    rw [splitDeclarations]
    refine ihv.bind fun v' hv => (ensures_splitIfNeeded hq v').bind fun l hl => ?_
    refine ihrest.bind fun rest' hrest => .pure (.of_isMute rfl fun hx => ?_)
    refine (shows_cons _ _).mpr ((shows_prepend.mp hx).imp (fun h => hsplit hv hl ?_) hrest.shows)
    obtain ⟨_, hk, hx⟩ := h
    obtain ⟨k, hmem, rfl⟩ := List.mem_map.mp hk
    exact ⟨k, hmem, hx⟩
  | case3 span v rest ihv ihrest =>
    rw [splitDeclarations]
    refine ihv.bind fun v' hv => ?_
    split
    · refine (ensures_split hq v').bind fun l hl => .look fun s _ => ?_
      refine ihrest.bind fun rest' hrest => .pure (.of_isMute rfl fun hx => ?_)
      refine (shows_cons _ _).mpr ((shows_prepend.mp hx).imp (fun h => hsplit hv hl ?_) hrest.shows)
      obtain ⟨_, hk, hx⟩ := h
      obtain ⟨k, hmem, rfl⟩ := List.mem_map.mp hk
      refine ⟨k, hmem, ?_⟩
      unfold reexport at hx
      split at hx
      · split at hx <;> exact hx
      · exact hx
    · refine ihrest.bind fun rest' hrest => .pure (.of_isMute rfl fun hx => ?_)
      exact (shows_cons _ _).mpr (((shows_cons _ _).mp hx).imp hv.shows hrest.shows)
  | case4 v ihv =>
    rw [splitDeclarations]
    refine ihv.bind fun v' hv => ?_
    split
    · refine (ensures_split hq v').bind fun l hl => .pure (.of_isMute rfl fun hx => ?_)
      exact absurd hx (not_shows rfl)
    · exact .pure (.of_isMute rfl hv.shows)
  | case5 c n h₁ h₂ h₃ h₄ ih =>
    rw [splitDeclarations.eq_5 n h₁ h₂ h₃ h₄]
    exact (Lower.Ensures.traverse fun k hk => ih k hk).mono fun _ hparts => .of_parts hparts

/-- A statement that stays, or one that declares nothing around it. -/
def Bare (k k' : Stmt) : Prop := k' = k ∨ k'.surface = []

/-- A pass from the inside out declares no more names around a tree if what it writes in the place of
a statement declares none. -/
theorem covers_bottomUp {f : Stmt → Lower Stmt}
    (hf : ∀ k, Lower.Ensures base (Bare k) (f k)) (n : Node c) :
    Lower.Ensures base (Covers x n) (Lower.bottomUp f n) := by
  induction n using partsInduction with
  | @step c n ih =>
    rw [Lower.bottomUp]
    refine (Lower.Ensures.traverse fun k hk => ih hk).bind fun n₁ hparts => ?_
    have hcovers : Covers x n n₁ := .of_parts hparts
    by_cases hc : c = .stmt
    · subst hc
      refine (hf n₁).mono fun k' hk => .of_isMute rfl fun hx => ?_
      rcases hk with rfl | hbare
      · exact hcovers.shows hx
      · exact absurd hx (not_shows hbare)
    · rw [Lower.onStmt_of_ne hc]
      exact .pure hcovers

/-- Replacing every `continue` declares no more names around a tree. -/
theorem covers_replaceContinuesIn (n : Node c) (s : Spot) :
    Covers x n ((replacing []).run (replaceContinuesIn n) s).1 := by
  induction c, n using replaceContinuesIn.induct generalizing s with
  | case1 span label body ih =>
    rw [replaceContinuesIn, (replacing []).run_bind, run_inside]
    refine .of_isMute rfl fun hx => (shows_labeledStmt _ _ _).mpr ?_
    exact (ih (.labeled label.name :: s.1, s.2)).shows ((shows_labeledStmt _ _ _).mp hx)
  | case2 span label =>
    rw [replaceContinuesIn]
    unfold Continues.replace
    simp only [(replacing []).run_bind, run_get]
    cases JumpTarget.resolve s.1 label with
    | ok i => exact .of_isMute rfl id
    | error fault => exact .of_isMute rfl id
  | case3 c n hlabel hcontinue hloop ih =>
    obtain rfl : c = .stmt := by cases n <;> first | rfl | exact Bool.noConfusion hloop
    have hbare {k : Stmt} (h : k.isLoop = true) (f : Stmt → Stmt) :
        k.surface = [] ∧ (k.mapLoopBody f).surface = [] := by
      cases k <;> first | exact ⟨rfl, rfl⟩ | exact Bool.noConfusion h
    rw [replaceContinuesIn.eq_3 n hlabel hcontinue, if_pos hloop, (replacing []).run_bind,
      run_inside]
    have hparts : Parts (Covers x) n _ := parts_traverse (replacing []) (fun k hk s => ih k hk s)
      (.loop none :: s.1, s.2)
    generalize (replacing []).run (n.traverse _) _ = r at hparts ⊢
    have hloop' : r.1.isLoop = true :=
      (hparts.form_eq isLoop fun m => by cases m <;> rfl).symm.trans hloop
    refine .of_isMute rfl fun hx => absurd hx (not_shows ?_)
    dsimp only
    split
    · exact (hbare hloop' _).2
    · exact (hbare hloop' id).1
  | case4 c n hlabel hcontinue hloop hfun ih =>
    rw [replaceContinuesIn.eq_3 n hlabel hcontinue, if_neg hloop, if_pos hfun, run_isolated]
    exact .of_parts (parts_traverse (replacing []) (fun k hk s => ih k hk s) _)
  | case5 c n hlabel hcontinue hloop hfun ih =>
    rw [replaceContinuesIn.eq_3 n hlabel hcontinue, if_neg hloop, if_neg hfun]
    exact .of_parts (parts_traverse (replacing []) (fun k hk s => ih k hk s) _)

variable {q : Search}

theorem bare_iterate (hq : q.Spares base) (k : Stmt) (span : Span) {hint : String}
    (stem : hint ∈ NameSupply.hints) (init : Expr) (b : StepBinding) (body : Stmt) :
    Lower.Ensures base (Bare k) (Loops.iterate span hint init b body) := by
  have hbind (value : Expr) : Lower.Ensures base (fun _ => True) (Loops.bindStep value b) := by
    cases b with
    | declare v => exact (ensures_splitIfNeeded hq _).mono fun _ _ => trivial
    | assign target => exact .pure trivial
  refine (hq.fresh stem).bind fun _ _ => (hq.fresh (by decide)).bind fun _ _ => ?_
  exact (hbind _).bind fun _ _ => (ensures_labeledBody q body).bind fun _ _ => .pure (.inr rfl)

theorem bare_lowerLoop (hq : q.Spares base) (k : Stmt) :
    Lower.Ensures base (Bare k) (Loops.lowerLoop k) := by
  cases k with
  | forStmt span init test update body =>
    have hrest (k : Stmt) : Lower.Ensures base (Bare k) (do
        let before ← Loops.prelude init
        let body ← Loops.labeledBody body
        let body := body :: (update.toOption.map Build.exprStmt).toList
        let test := test.toOption.getD (Build.bool true)
        if before.isEmpty then return Build.whileDo span test body
        return Build.blockStmt span (before ++ [Build.whileDo .none test body])) := by
      refine (ensures_prelude hq init).bind fun before _ => ?_
      refine (ensures_labeledBody q body).bind fun _ _ => ?_
      dsimp only
      split <;> exact .pure (.inr rfl)
    simp only [Loops.lowerLoop, Loops.lowerFor]
    split
    · exact (Lower.Ensures.limitation _ _).bind fun _ _ => hrest _
    · exact hrest _
  | doWhileStmt span test body =>
    exact (ensures_labeledBody q body).bind fun _ _ => .pure (.inr rfl)
  | forOfStmt span isAwait head subject body =>
    intro s hs
    change s.Steps ((Loops.lowerForOf span isAwait head subject body).run s).2 ∧
      Bare _ ((Loops.lowerForOf span isAwait head subject body).run s).1
    rcases Loops.run_lowerForOf span isAwait head subject body s with
      ⟨message, hrun⟩ | ⟨-, b, -, hrun⟩
    · rw [hrun]
      exact ⟨.record _ Bool.noConfusion .refl, .inl rfl⟩
    · rw [hrun]
      exact bare_iterate hq _ span (by decide) _ b body s hs
  | forInStmt span head subject body =>
    intro s hs
    change s.Steps ((Loops.lowerForIn span head subject body).run s).2 ∧
      Bare _ ((Loops.lowerForIn span head subject body).run s).1
    rcases Loops.run_lowerForIn span head subject body s with ⟨message, hrun⟩ | ⟨b, -, -, hrun⟩
    · rw [hrun]
      exact ⟨.record _ Bool.noConfusion .refl, .inl rfl⟩
    · rw [hrun]
      exact bare_iterate hq _ span (by decide) _ b body s hs
  | _ => exact .pure (.inl rfl)

theorem bare_lowerSwitch (hq : q.Spares base) (k : Stmt) :
    Lower.Ensures base (Bare k) (Switches.lowerSwitch k) := by
  unfold Switches.lowerSwitch
  split
  next span subject clauses =>
    dsimp only
    split
    · exact (Lower.Ensures.unsupported _ _).bind fun _ _ => .pure (.inl rfl)
    · unfold Switches.lower
      split
      · exact .pure (.inr rfl)
      · refine (Lower.Ensures.freshLabel (by decide)).bind fun label _ => ?_
        extract_lets parts hoisted cs wrap
        have hwrap {P : List Stmt × List Stmt → Prop} {form : Lower (List Stmt × List Stmt)}
            (h : Lower.Ensures base P form) :
            Lower.Ensures base (Bare (.switchStmt span subject clauses)) (form >>= wrap) :=
          h.bind fun _ _ => .pure (.inr rfl)
        split
        · split
          · exact hwrap (ensures_indexForm hq subject _ cs)
          · exact hwrap (ensures_flagForm hq subject cs)
        · exact hwrap (ensures_flagForm hq subject cs)
  · exact .pure (.inl rfl)

theorem bare_lowerTry (hq : q.Spares base) (k : Stmt) :
    Lower.Ensures base (Bare k) (Finallys.lowerTry k) := by
  unfold Finallys.lowerTry
  split
  · refine (Lower.Ensures.forM (fun _ => .limitation _ _) _).bind fun _ _ => ?_
    refine (hq.fresh (by decide)).bind fun _ _ => (hq.fresh (by decide)).bind fun _ _ => ?_
    exact (hq.fresh (by decide)).bind fun _ _ => .pure (.inr rfl)
  · exact .pure (.inl rfl)

variable {cx : Context} {p : Program}

/-- No stage declares more names in the scope of a program. -/
theorem topShows_pass (hq : (bindingsOf x).Spares base) (stage : Stage) (hcx : base.Steps cx)
    (h : ((stage.pass p).run cx).1.TopShows x) : p.TopShows x := by
  cases stage with
  | declarations => exact (covers_splitDeclarations hq p cx hcx).2.topShows h
  | continues => exact (covers_replaceContinuesIn p ([], cx)).topShows h
  | loops => exact (covers_bottomUp (bare_lowerLoop hq) p cx hcx).2.topShows h
  | switches => exact (covers_bottomUp (bare_lowerSwitch hq) p cx hcx).2.topShows h
  | finallys => exact (covers_bottomUp (bare_lowerTry hq) p cx hcx).2.topShows h

theorem mem_topLevel (p : Program) :
    x ∈ p.topLevel.map (·.name) ↔ p.TopShows x ∨ (varsOf x).finds p = true := by
  have key {c : Cat} (hc : c.isProgram = false) (l : Node c) :
      x ∈ (l.lexicals ++ l.vars).map (·.name) ↔ l.Shows x ∨ (varsOf x).finds l = true := by
    rw [finds_varsOf hc, List.map_append, List.mem_append, lexicals]
    simp [Shows]
  cases p with
  | moduleProgram span interpreter items =>
    have hparts : (varsOf x).finds (.moduleProgram span interpreter items) =
        (varsOf x).finds items := finds_one rfl rfl rfl
    rw [hparts]
    exact key rfl items
  | scriptProgram span interpreter stmts =>
    have hparts : (varsOf x).finds (.scriptProgram span interpreter stmts) =
        (varsOf x).finds stmts := finds_one rfl rfl rfl
    rw [hparts]
    exact key rfl stmts

/-- The lowering declares no names at the top level but those of the supply. -/
theorem topLevel_stages (hsafe : ∀ u, cx.Steps u → ∀ hint ∈ NameSupply.hints, u.names.pick hint ≠ x)
    (hheads : p.all hasPlainHead = true)
    (h : x ∈ ((Lowering.stages p).run cx).1.topLevel.map (·.name)) :
    x ∈ p.topLevel.map (·.name) := by
  rw [mem_topLevel] at h ⊢
  refine h.imp (fun hshows => ?_) fun hfinds => ?_
  · have hq : (bindingsOf x).Spares cx := fun u hu hint stem kind => by
      simp [bindingsOf, declarations, hsafe u hu hint stem]
    exact (Lowering.stages_induction (I := fun _ q s => cx.Steps s ∧ (q.TopShows x → p.TopShows x))
      (fun h _ => h) (fun _ h _ _ => ⟨h.1.trans (Stage.steps_pass _ _ _),
        fun ht => h.2 (topShows_pass hq _ h.1 ht)⟩) ⟨.refl, id⟩).2 hshows
  · have hq : (varsOf x).Spares cx := fun u hu hint stem kind => by
      simp [varsOf, declarations, hsafe u hu hint stem]
    have hvar : (varsOf x).VarsOnly :=
      ⟨fun kind hkind y => by simp [varsOf, declarations, hkind], fun _ => rfl⟩
    have hsame : (varsOf x).beforeLoops cx = varsOf x := by simp [beforeLoops, varsOf, declarations]
    rwa [finds_stages hq hvar hheads, hsame, ite_self] at hfinds

end Search

end PlainJs

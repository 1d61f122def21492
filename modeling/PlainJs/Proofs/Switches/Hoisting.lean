import PlainJs.Proofs.Scopes.Resolution
import PlainJs.Proofs.Switches.Meaning

namespace PlainJs

namespace Node

variable {c : Cat} {n n' : Node c}

/-- The names that a tree declares in the scope around it, functions apart. -/
def bindings (n : Node c) : List Ident := (n.surface.filter (·.1 = .binding)).map (·.2)

/-- Nothing. -/
def noUses (_ : Levels) {c : Cat} (_ : Node c) : List Use := []

theorem scan_noUses (E : Levels) (n : Node c) : n.scan @noUses E = [] := by
  induction n using partsInduction generalizing E with
  | step n ih =>
    rw [scan_eq, List.flatMap_eq_nil_iff.mpr fun k hk => ih hk _]
    rfl

end Node

open Node Build

namespace Switches

variable {c : Cat} {E : Levels} {u : Use}

theorem rescoped_retarget (label : Ident) (n : Node c) :
    Rescoped [] @noUses n (retarget label n) := by
  induction n using partsInduction with
  | @step c n ih =>
    cases hleave : n.isLeave with
    | true =>
      cases n with
      | breakStmt span l =>
        cases l with
        | none =>
          rw [retarget_leave]
          refine ⟨⟨rfl, rfl, rfl⟩, fun E u _ => ?_⟩
          rw [scan_noUses]
          change tally u E _ = tally u E _ + 0
          rw [tally_leaf rfl rfl, tally_leaf rfl rfl]
        | some l => cases hleave
      | _ => cases hleave
    | false =>
      cases hshield : shieldsBreaks n with
      | true =>
        rw [retarget_of_shields label hshield]
        refine ⟨.refl n, fun E u _ => ?_⟩
        rw [scan_noUses]
        rfl
      | false =>
        rw [retarget_eq_mapParts label hleave hshield]
        refine .of_parts (fun _ => rfl) ?_
        exact (Parts.of_mapParts (retarget label) n).imp fun hk he => he ▸ ih hk

theorem tally_retarget (label : Ident) (n : Node c) : tally u E (retarget label n) = tally u E n := by
  have h := (rescoped_retarget label n).uses E u List.not_mem_nil
  rwa [scan_noUses] at h

theorem surface_ofList (l : List (Node c)) : (ofList l).surface = l.flatMap surface := by
  induction l with
  | nil => rfl
  | cons a l ih => exact congrArg (_ ++ ·) ih

theorem vars_ofList (l : List (Node c)) : (ofList l).vars = l.flatMap vars := by
  induction l with
  | nil => rfl
  | cons a l ih => exact congrArg (_ ++ ·) ih

theorem lexicals_ofList (l : List (Node c)) : (ofList l).lexicals = l.flatMap lexicals := by
  rw [lexicals, surface_ofList, List.map_flatMap]
  rfl

theorem surface_toList (l : Node (.list c)) : l.surface = l.toList.flatMap surface := by
  rw [← surface_ofList, ofList_toList]

theorem vars_toList (l : Node (.list c)) : l.vars = l.toList.flatMap vars := by
  rw [← vars_ofList, ofList_toList]

theorem boundIdents_toList (l : Node (.list c)) :
    l.boundIdents = l.toList.flatMap boundIdents := by
  conv_lhs => rw [← ofList_toList l]
  induction l.toList with
  | nil => rfl
  | cons a l ih => exact congrArg (_ ++ ·) ih

theorem stmts_append_perm (a b : Hoisted) : (a.append b).stmts.Perm (a.stmts ++ b.stmts) := by
  simp only [Hoisted.stmts, Hoisted.append, List.map_append, List.append_assoc]
  refine List.Perm.append_left _ ?_
  rw [← List.append_assoc, ← List.append_assoc]
  exact List.perm_append_comm.append_right _

theorem stmts_hoistAll {α : Type} (f : α → List Stmt × Hoisted) (l : List α) :
    (hoistAll f l).1 = l.flatMap (fun a => (f a).1) ∧
      (hoistAll f l).2.stmts.Perm (l.flatMap fun a => (f a).2.stmts) := by
  induction l with
  | nil => exact ⟨rfl, .refl _⟩
  | cons a l ih =>
    obtain ⟨hleft, hstmts⟩ := ih
    refine ⟨congrArg ((f a).1 ++ ·) hleft, ?_⟩
    exact (stmts_append_perm _ _).trans (hstmts.append_left _)

theorem snd_hoistAll {α : Type} (f : α → List Stmt × Hoisted) (l : List α) :
    (hoistAll f l).2 = l.foldr (fun a h => (f a).2.append h) Hoisted.none := by
  induction l with
  | nil => rfl
  | cons a l ih => exact congrArg (f a).2.append ih

/-- What becomes of something that declares `lexicals` and `bindings`, where `cost` counts its
occurrences: statements in its place and declarations before the clauses. -/
structure Splits (lexicals bindings vars : List Ident) (cost : Use → Levels → Nat)
    (left decls : List Stmt) : Prop where
  bare : ∀ s ∈ left, s.surface = []
  vars : left.flatMap Node.vars = vars
  declared : (decls.flatMap Node.lexicals).Perm lexicals
  form : ∀ s ∈ decls, (∃ id, s = declare .let id none) ∨ ∃ d id f, s = .declStmt (.declFunc d id f)
  uses : ∀ u E, tallies u E left + tallies u E decls =
    cost u E + (bindings.map fun id => (id, E id.name)).count u

theorem Splits.hoistAll {α : Type} {f : α → List Stmt × Hoisted} {lx bs vs : α → List Ident}
    {cost : α → Use → Levels → Nat} {l : List α}
    (h : ∀ a ∈ l, Splits (lx a) (bs a) (vs a) (cost a) (f a).1 (f a).2.stmts) :
    Splits (l.flatMap lx) (l.flatMap bs) (l.flatMap vs) (fun u E => (l.map (cost · u E)).sum)
      (hoistAll f l).1 (hoistAll f l).2.stmts := by
  obtain ⟨hleft, hdecls⟩ := stmts_hoistAll f l
  rw [hleft]
  refine ⟨fun s hs => ?_, ?_, (hdecls.flatMap_right _).trans ?_, fun s hs => ?_, fun u E => ?_⟩
  · obtain ⟨a, ha, hs⟩ := List.mem_flatMap.mp hs
    exact (h a ha).bare s hs
  · rw [List.flatMap_assoc]
    exact List.flatMap_congr fun a ha => (h a ha).vars
  · rw [List.flatMap_assoc]
    exact .flatMap_left _ fun a ha => (h a ha).declared
  · obtain ⟨a, ha, hs⟩ := List.mem_flatMap.mp (hdecls.mem_iff.mp hs)
    exact (h a ha).form s hs
  · rw [tallies_perm hdecls]
    clear hleft hdecls
    induction l with
    | nil => rfl
    | cons a l ih =>
      obtain ⟨ha, hl⟩ := List.forall_mem_cons.mp h
      have htail := ih hl
      have hhead := ha.uses u E
      simp only [List.flatMap_cons, tallies_append, List.map_cons, List.sum_cons, List.map_append,
        List.count_append]
      omega

theorem splits_hoistDeclarator (kind : VarKind) {d : Declarator}
    (h : d.declTarget.isBinder = true) :
    Splits d.boundIdents d.boundIdents [] (fun u E => tally u E d) (hoistDeclarator kind d).1
      (hoistDeclarator kind d).2.stmts := by
  cases d with
  | declarator span definite p init =>
    cases p with
    | binder id =>
      refine ⟨fun s hs => ?_, rfl, .refl _, fun s hs => .inl ⟨id, ?_⟩, fun u E => ?_⟩
      · rw [List.mem_singleton.mp hs]
        rfl
      · exact List.mem_singleton.mp hs
      · cases init with
        | none => simp [hoistDeclarator, Hoisted.stmts, toOption, boundIdents, assignTo, Build.assign,
            undefined, Build.unary, num]
        | some e =>
          simp [hoistDeclarator, Hoisted.stmts, toOption, boundIdents, assignTo, Build.assign]
    | _ => cases h

theorem splits_same {k : Stmt} (h : k.surface = []) :
    Splits k.lexicals k.bindings k.vars (fun u E => tally u E k) [k] Hoisted.none.stmts := by
  refine ⟨fun s hs => ?_, List.append_nil _, ?_, fun s hs => ?_, fun u E => ?_⟩
  · rw [List.mem_singleton.mp hs, h]
  · rw [Node.lexicals, h]
    exact .refl _
  · cases hs
  · simp [bindings, h, Hoisted.stmts, Hoisted.none]

theorem splits_hoistStmt {k : Stmt} (hfault : stmtFault k = .none)
    (hplain : ∀ d ∈ k.surface, d.1 ≠ .labeled) :
    Splits k.lexicals k.bindings k.vars (fun u E => tally u E k) (hoistStmt k).1
      (hoistStmt k).2.stmts := by
  cases k with
  | declStmt d =>
    cases d with
    | declVar v =>
      cases v with
      | varDecl span ctxt kind declare decls =>
        have hsurface : (Node.declStmt (.declVar (.varDecl span ctxt kind declare decls))).surface =
          if kind = .var then [] else decls.boundIdents.map fun id => (.binding, id) := rfl
        simp only [hoistStmt]
        split
        next hkind => exact splits_same (by rw [hsurface, if_pos hkind])
        next hkind =>
          have hbinders := (stmtFault_declVar_eq_none.mp hfault).resolve_left hkind
          have h := Splits.hoistAll fun d hd => splits_hoistDeclarator kind (hbinders d hd)
          rw [← boundIdents_toList] at h
          have hlexicals : (Node.declStmt (.declVar (.varDecl span ctxt kind declare decls))).lexicals =
              decls.boundIdents := by simp [Node.lexicals, hsurface, hkind]
          have hbindings : (Node.declStmt (.declVar (.varDecl span ctxt kind declare decls))).bindings =
              decls.boundIdents := by
            simp [bindings, hsurface, hkind, List.filter_map, Function.comp_def]
          have hvars : (Node.declStmt (.declVar (.varDecl span ctxt kind declare decls))).vars =
              decls.toList.flatMap fun _ => [] := by
            rw [List.flatMap_eq_nil_iff.mpr fun _ _ => rfl]
            exact if_neg hkind
          have hcost : (fun u E => tally u E
              (Node.declStmt (.declVar (.varDecl span ctxt kind declare decls)))) =
              fun u E => (decls.toList.map fun d => tally u E d).sum := by
            funext u E
            rw [tally_declStmt, tally_declVar, tally_varDecl, ← tallies_toList, tallies]
          rw [hlexicals, hbindings, hvars, hcost]
          exact h
    | declClass declare name a =>
      refine ⟨fun s hs => ?_, rfl, .refl _, fun s hs => .inl ⟨name, ?_⟩, fun u E => ?_⟩
      · rw [List.mem_singleton.mp hs]
        rfl
      · exact List.mem_singleton.mp hs
      · simp only [hoistStmt, Hoisted.stmts, tally_declStmt, tally_declClass, tallies_cons,
          tallies_nil, tally_exprStmt_build, assignTo, Build.assign, tally_assign, tally_binder,
          tally_atLeast, List.map_cons, List.map_nil, List.append_nil, tally_declare,
          Option.toList_none, Nat.add_zero]
        rfl
    | declFunc declare name f =>
      refine ⟨fun s hs => (List.not_mem_nil hs).elim, rfl, .refl _,
        fun s hs => .inr ⟨declare, name, f, ?_⟩,
        fun u E => ?_⟩
      · exact List.mem_singleton.mp hs
      · change 0 + (tally u E _ + 0) = tally u E _ + 0
        exact Nat.zero_add _
    | declUsing => cases hfault
  | labeledStmt span label body =>
    refine splits_same (List.eq_nil_iff_forall_not_mem.mpr fun d hd => hplain d hd ?_)
    obtain ⟨d, -, rfl⟩ := List.mem_map.mp hd
    rfl
  | _ => exact splits_same rfl

/-- The block of the statements of a clause. -/
def caseBlock? : Stmt → Option Block
  | .ifStmt _ _ (.blockStmt b) _ => .some b
  | _ => .none

/-- Statements that hold the tests and the statements `left` of clauses, and names of `T` besides. -/
structure Chain (T : List String) (tests : List Expr) (left chain : List Stmt) : Prop where
  bare : ∀ s ∈ chain, s.surface = []
  blocks : ∀ s ∈ chain, ∀ b ∈ caseBlock? s, ∀ d, b.opened d = []
  vars : chain.flatMap vars = left.flatMap vars
  uses : ∀ (u : Use) E, u.1.name ∉ T → tallies u E chain = tallies u E tests + tallies u E left

variable {T : List String}

theorem count_temp {id : Ident} (hid : id.name ∈ T) (hu : u.1.name ∉ T) (k : Nat) :
    [(id, k)].count u = 0 := by
  refine List.count_eq_zero.mpr fun h => ?_
  rw [List.mem_singleton.mp h] at hu
  exact hu hid

theorem Chain.nil : Chain T [] [] [] :=
  ⟨List.forall_mem_nil _, List.forall_mem_nil _, rfl, fun _ _ _ => rfl⟩

theorem Chain.append {tests tests' : List Expr} {left left' chain chain' : List Stmt}
    (h : Chain T tests left chain) (h' : Chain T tests' left' chain') :
    Chain T (tests ++ tests') (left ++ left') (chain ++ chain') where
  bare s hs := (List.mem_append.mp hs).elim (h.bare s) (h'.bare s)
  blocks s hs := (List.mem_append.mp hs).elim (h.blocks s) (h'.blocks s)
  vars := by simp only [List.flatMap_append, h.vars, h'.vars]
  uses u E hu := by
    simp only [tallies_append, h.uses u E hu, h'.uses u E hu]
    omega

theorem Chain.flatMap {α : Type} {tests : α → List Expr} {left chain : α → List Stmt} {l : List α}
    (h : ∀ a ∈ l, Chain T (tests a) (left a) (chain a)) :
    Chain T (l.flatMap tests) (l.flatMap left) (l.flatMap chain) := by
  induction l with
  | nil => exact .nil
  | cons a l ih =>
    obtain ⟨ha, hl⟩ := List.forall_mem_cons.mp h
    exact ha.append (ih hl)

/-- A statement that chooses a clause. -/
theorem Chain.choice {tests : List Expr} {s : Stmt} (hsurface : s.surface = []) (hvars : s.vars = [])
    (hblock : caseBlock? s = .none)
    (huses : ∀ (u : Use) E, u.1.name ∉ T → tally u E s = tallies u E tests) :
    Chain T tests [] [s] where
  bare t ht := by rw [List.mem_singleton.mp ht, hsurface]
  blocks t ht b hb := by
    rw [List.mem_singleton.mp ht, hblock] at hb
    cases hb
  vars := by rw [List.flatMap_singleton, hvars, List.flatMap_nil]
  uses u E hu := by rw [tallies_cons, huses u E hu, tallies_nil]

/-- The statements of a clause behind a condition. -/
theorem chain_guardedBody {test : Expr} (htest : ∀ (u : Use) E, u.1.name ∉ T → tally u E test = 0)
    {body : List Stmt} (hbare : ∀ s ∈ body, s.surface = []) :
    Chain T [] body ((block? body).map fun b => ifElse test b none).toList := by
  cases body with
  | nil => exact .nil
  | cons k body =>
    have hsurface : (ofList (k :: body)).surface = [] := by
      rw [surface_ofList]
      exact List.flatMap_eq_nil_iff.mpr hbare
    have hlexicals : (ofList (k :: body)).lexicals = [] := congrArg (List.map _) hsurface
    refine ⟨fun s hs => ?_, fun s hs b hb d => ?_, ?_, fun u E hu => ?_⟩
    · rw [List.mem_singleton.mp hs]
      rfl
    · rw [List.mem_singleton.mp hs] at hb
      cases hb
      exact hlexicals
    · change ((ofList (k :: body)).vars ++ []) ++ [] = _
      rw [vars_ofList, List.append_nil, List.append_nil]
    · change tally u E (.ifStmt .none test (.blockStmt (.block .none 0 (ofList (k :: body)))) .none) + 0
        = 0 + tallies u E (k :: body)
      rw [tally_ifStmt, htest u E hu, tally_blockStmt, tally_block, hlexicals, Levels.within_nil,
        tally_ofList, tally_none]
      omega

theorem tally_assignTo {id : Ident} (hid : id.name ∈ T) (hu : u.1.name ∉ T) (e : Expr) :
    tally u E (Build.exprStmt (assignTo id e)) = tally u E e := by
  rw [tally_exprStmt_build, assignTo, Build.assign, tally_assign, tally_binder, tally_atLeast,
    count_temp hid hu, Nat.zero_add]

theorem chain_flagCase {matched disc : Ident} (hmatched : matched.name ∈ T) (hdisc : disc.name ∈ T)
    {c : Case} (hbare : ∀ s ∈ c.body, s.surface = []) :
    Chain T c.test.toList c.body (flagCase matched disc c) := by
  obtain ⟨test, body⟩ := c
  have hflag (u : Use) (E : Levels) (hu : u.1.name ∉ T) : tally u E (.ref matched) = 0 := by
    rw [tally_ref, count_temp hmatched hu]
  have hbody := chain_guardedBody hflag hbare
  let enter := Build.exprStmt (assignTo matched (Build.bool true))
  have henter (u : Use) (E : Levels) (hu : u.1.name ∉ T) : tally u E enter = 0 := by
    rw [tally_assignTo hmatched hu, Build.bool, tally_atom]
  cases test with
  | none =>
    have hchoice : Chain T [] [] [enter] := .choice rfl rfl rfl henter
    exact hchoice.append hbody
  | some test =>
    let choice := ifElse (Build.binary .and (Build.not (.ref matched))
      (Build.binary .eqEqEq (.ref disc) test)) enter none
    have hchoice : Chain T [test] [] [choice] := by
      refine .choice rfl rfl rfl fun u E hu => ?_
      simp [choice, ifElse, henter u E hu, Build.binary, Build.not, Build.unary,
        count_temp hmatched hu, count_temp hdisc hu]
    exact hchoice.append hbody

theorem chain_selectCase {disc index : Ident} (hdisc : disc.name ∈ T) (hindex : index.name ∈ T)
    (l : List (Case × Nat)) :
    Chain T (l.flatMap (·.1.test.toList)) [] (selectCase disc index l).toList := by
  induction l with
  | nil => exact .nil
  | cons r l ih =>
    obtain ⟨⟨test, body⟩, i⟩ := r
    cases test with
    | none => exact ih
    | some test =>
      refine .choice rfl ?_ rfl fun u E hu => ?_
      · have hvars := ih.vars
        change [] ++ (ofOption (selectCase disc index l)).vars = []
        cases hrest : selectCase disc index l with
        | none => rfl
        | some s =>
          rw [hrest] at hvars
          exact (List.append_nil _).symm.trans hvars
      · have hrest := ih.uses u E hu
        rw [ifElse, tally_ifStmt, tally_assignTo hindex hu, tally_ofOption, hrest]
        simp [Build.binary, num, count_temp hdisc hu]

theorem chain_indexBodies {index : Ident} (hindex : index.name ∈ T) {cs : List Case}
    (hbare : ∀ c ∈ cs, ∀ s ∈ c.body, s.surface = []) (i : Nat) :
    Chain T [] (cs.flatMap (·.body)) ((cs.zipIdx i).flatMap fun r => indexBody index r.1 r.2) := by
  have h : Chain T ((cs.zipIdx i).flatMap fun _ => []) ((cs.zipIdx i).flatMap (·.1.body))
      ((cs.zipIdx i).flatMap fun r => indexBody index r.1 r.2) := by
    refine .flatMap fun r hr => chain_guardedBody (fun u E hu => ?_) ?_
    · simp [Build.binary, num, count_temp hindex hu]
    · exact hbare r.1 (List.fst_mem_of_mem_zipIdx hr)
  rw [List.flatMap_eq_nil_iff.mpr fun _ _ => rfl] at h
  rwa [← List.zipIdx_map_fst i cs, List.flatMap_map, List.zipIdx_map_fst]

/-- The statements of clauses. -/
def bodies (clauses : Node (.list .clause)) : List Stmt :=
  (clauses.toList.map Case.ofClause).flatMap (·.body)

/-- The tests of clauses. -/
def tests (clauses : Node (.list .clause)) : List Expr :=
  (clauses.toList.map Case.ofClause).flatMap (·.test.toList)

theorem surface_clauses (clauses : Node (.list .clause)) :
    clauses.surface = (bodies clauses).flatMap surface := by
  rw [surface_toList, bodies, List.flatMap_map, List.flatMap_assoc]
  refine List.flatMap_congr fun c _ => ?_
  cases c with
  | clause span test body => exact surface_toList body

theorem vars_clauses (clauses : Node (.list .clause)) :
    clauses.vars = (bodies clauses).flatMap vars := by
  rw [vars_toList, bodies, List.flatMap_map, List.flatMap_assoc]
  refine List.flatMap_congr fun c _ => ?_
  cases c with
  | clause span test body => exact vars_toList body

theorem lexicals_clauses (clauses : Node (.list .clause)) :
    clauses.lexicals = (bodies clauses).flatMap lexicals := by
  rw [lexicals, surface_clauses, List.map_flatMap]
  rfl

theorem bindings_clauses (clauses : Node (.list .clause)) :
    clauses.bindings = (bodies clauses).flatMap bindings := by
  rw [bindings, surface_clauses, List.filter_flatMap, List.map_flatMap]
  rfl

theorem tally_clauses (clauses : Node (.list .clause)) :
    tally u E clauses = tallies u E (tests clauses) + tallies u E (bodies clauses) := by
  rw [← tallies_toList, tests, bodies]
  induction clauses.toList with
  | nil => rfl
  | cons c l ih =>
    cases c with
    | clause span test body =>
      have htest : tally u E test = tallies u E test.toOption.toList := by
        cases test <;> simp [toOption]
      simp only [List.map_cons, List.flatMap_cons, tallies_append, tallies_cons, ih, tally_clause, htest,
        Case.ofClause, tallies_toList]
      omega

theorem splits_retarget (label : Ident) {k : Stmt} (hfault : stmtFault k = .none)
    (hplain : ∀ d ∈ k.surface, d.1 ≠ .labeled) :
    Splits k.lexicals k.bindings k.vars (fun u E => tally u E k) (hoistStmt (retarget label k)).1
      (hoistStmt (retarget label k)).2.stmts := by
  have hsame := (rescoped_retarget label k).toSameDecls
  have h := splits_hoistStmt (stmtFault_retarget label hfault) (hsame.surface.symm ▸ hplain)
  simp only [tally_retarget] at h
  rwa [hsame.lexicals, hsame.vars, bindings, hsame.surface, ← bindings] at h

/-- What is left of the clauses when their declarations have been taken out of them. -/
theorem splits_clauses (label : Ident) {clauses : Node (.list .clause)}
    (hfault : ∀ k ∈ bodies clauses, stmtFault k = .none)
    (hplain : ∀ d ∈ clauses.surface, d.1 ≠ .labeled) :
    let parts := (clauses.toList.map Case.ofClause).map fun c =>
      (c.test, hoistAll hoistStmt (c.body.map (retarget label)))
    Splits clauses.lexicals clauses.bindings clauses.vars (fun u E => tallies u E (bodies clauses))
      ((parts.map fun p => (⟨p.1, p.2.1⟩ : Case)).flatMap (·.body))
      (parts.foldr (fun p h => p.2.2.append h) Hoisted.none).stmts := by
  intro parts
  have hsplit (c : Case) (hc : c ∈ clauses.toList.map Case.ofClause) :
      Splits (c.body.flatMap lexicals) (c.body.flatMap bindings) (c.body.flatMap vars)
        (fun u E => tallies u E c.body) (hoistAll hoistStmt (c.body.map (retarget label))).1
        (hoistAll hoistStmt (c.body.map (retarget label))).2.stmts := by
    rw [hoistAll, List.foldr_map]
    refine Splits.hoistAll (f := fun k => hoistStmt (retarget label k)) fun k hk => ?_
    have hmem : k ∈ bodies clauses := List.mem_flatMap.mpr ⟨c, hc, hk⟩
    refine splits_retarget label (hfault k hmem) fun d hd => hplain d ?_
    rw [surface_clauses]
    exact List.mem_flatMap.mpr ⟨k, hmem, hd⟩
  have h := Splits.hoistAll hsplit
  have hleft : (parts.map fun p => (⟨p.1, p.2.1⟩ : Case)).flatMap (·.body) =
      (hoistAll (fun c : Case => hoistAll hoistStmt (c.body.map (retarget label)))
        (clauses.toList.map Case.ofClause)).1 := by
    rw [(stmts_hoistAll _ _).1, List.flatMap_map, List.flatMap_map]
  have hdecls : parts.foldr (fun p h => p.2.2.append h) Hoisted.none =
      (hoistAll (fun c : Case => hoistAll hoistStmt (c.body.map (retarget label)))
        (clauses.toList.map Case.ofClause)).2 := by
    rw [snd_hoistAll, List.foldr_map]
  rw [hleft, hdecls, lexicals_clauses, bindings_clauses, vars_clauses, bodies, List.flatMap_assoc,
    List.flatMap_assoc, List.flatMap_assoc]
  simp only [tallies_flatMap]
  exact h

/-- The form of a lowered `switch`: the statements of `decls` and `chain` stand in a block of their
own if there are declarations. -/
def sharedBlock (label : Ident) (span : Span) (head decls chain : List Stmt) : Stmt :=
  labeled label (Build.blockStmt span
    (head ++ if decls.isEmpty then chain else [.blockStmt (block (decls ++ chain))]))

/-- A `switch` with new names `T`: `head` evaluates the subject, `decls` declares what the clauses
declare, and `chain` holds the tests and the statements of the clauses. Besides, `extra` occurs. -/
structure Shared (T : List String) (extra : Levels → ∀ {c : Cat}, Node c → List Use) (subject : Expr)
    (clauses : Node (.list .clause)) (head decls chain : List Stmt) : Prop where
  temps : ∀ id ∈ head.flatMap lexicals, id.name ∈ T
  subject : ∀ (u : Use) E, u.1.name ∉ T →
    tallies u E head = tally u E subject + (subject.scan extra E).count u
  declared : (decls.flatMap lexicals).Perm clauses.lexicals
  form : ∀ s ∈ decls, (∃ id, s = declare .let id none) ∨ ∃ d id f, s = .declStmt (.declFunc d id f)
  bare : ∀ s ∈ chain, s.surface = []
  blocks : ∀ s ∈ chain, ∀ b ∈ caseBlock? s, ∀ d, b.opened d = []
  vars : (head ++ decls ++ chain).flatMap vars = clauses.vars
  clauses : ∀ (u : Use) E, u.1.name ∉ T → tallies u E (decls ++ chain) =
    tally u E clauses + (clauses.bindings.map fun id => (id, E id.name)).count u +
      (clauses.scan extra E).count u

theorem isEmpty_stmts (h : Hoisted) : h.stmts.isEmpty = h.isEmpty := by
  obtain ⟨names, functions⟩ := h
  cases names <;> cases functions <;> rfl

theorem stmtFault_of_fault {clauses : Node (.list .clause)}
    (h : fault (clauses.toList.map Case.ofClause) = .none) : ∀ k ∈ bodies clauses, stmtFault k = .none :=
  List.findSome?_eq_none_iff.mp h

theorem vars_of_form {decls : List Stmt} (h : ∀ s ∈ decls, (∃ id, s = declare .let id none) ∨
    ∃ d id f, s = .declStmt (.declFunc d id f)) : decls.flatMap vars = [] := by
  refine List.flatMap_eq_nil_iff.mpr fun s hs => ?_
  obtain ⟨id, rfl⟩ | ⟨d, id, f, rfl⟩ := h s hs <;> rfl

theorem shared_of_chain {T : List String} {subject : Expr} {clauses : Node (.list .clause)}
    {left head decls chain : List Stmt}
    (hsplits : Splits clauses.lexicals clauses.bindings clauses.vars
      (fun u E => tallies u E (bodies clauses)) left decls)
    (hchain : Chain T (tests clauses) left chain)
    (htemps : ∀ id ∈ head.flatMap lexicals, id.name ∈ T) (hvars : head.flatMap vars = [])
    (hsubject : ∀ (u : Use) E, u.1.name ∉ T → tallies u E head = tally u E subject) :
    Shared T @noUses subject clauses head decls chain where
  temps := htemps
  subject u E hu := by rw [hsubject u E hu, scan_noUses, List.count_nil, Nat.add_zero]
  declared := hsplits.declared
  form := hsplits.form
  bare := hchain.bare
  blocks := hchain.blocks
  vars := by
    rw [List.flatMap_append, List.flatMap_append, hvars, vars_of_form hsplits.form, hchain.vars,
      hsplits.vars]
    rfl
  clauses u E hu := by
    have huses := hsplits.uses u E
    rw [tallies_append, hchain.uses u E hu, tally_clauses, scan_noUses, List.count_nil]
    omega

section

variable {subject : Expr} {clauses : Node (.list .clause)} {cs : List Case} {decls : List Stmt}
  (hsplits : Splits clauses.lexicals clauses.bindings clauses.vars
    (fun u E => tallies u E (bodies clauses)) (cs.flatMap (·.body)) decls)
  (htests : cs.flatMap (·.test.toList) = tests clauses)

include hsplits htests

theorem shared_flagForm {matched disc : Ident} (hmatched : matched.name ∈ T)
    (hdisc : disc.name ∈ T) : Shared T @noUses subject clauses
      [declare .let matched (some (Build.bool false)), declare .let disc (some subject)] decls
      (cs.flatMap (flagCase matched disc)) := by
  refine shared_of_chain hsplits ?_ ?_ rfl fun u E hu => ?_
  · rw [← htests]
    refine .flatMap fun c hc => chain_flagCase hmatched hdisc fun s hs => ?_
    exact hsplits.bare s (List.mem_flatMap.mpr ⟨c, hc, hs⟩)
  · exact List.forall_mem_cons.mpr ⟨hmatched, List.forall_mem_singleton.mpr hdisc⟩
  · simp [Build.bool, count_temp hmatched hu, count_temp hdisc hu]

theorem shared_indexForm {disc index : Ident} (hdisc : disc.name ∈ T) (hindex : index.name ∈ T)
    (default : Nat) : Shared T @noUses subject clauses
      [declare .let disc (some subject), declare .let index (some (num default))] decls
      ((selectCase disc index cs.zipIdx).toList ++
        cs.zipIdx.flatMap fun r => indexBody index r.1 r.2) := by
  have hselect := chain_selectCase hdisc hindex cs.zipIdx
  have hbare (c : Case) (hc : c ∈ cs) (s : Stmt) (hs : s ∈ c.body) : s.surface = [] :=
    hsplits.bare s (List.mem_flatMap.mpr ⟨c, hc, hs⟩)
  have hbodies := chain_indexBodies hindex hbare 0
  have hall : cs.zipIdx.flatMap (·.1.test.toList) = tests clauses := by
    rw [← htests, ← List.zipIdx_map_fst 0 cs, List.flatMap_map, List.zipIdx_map_fst]
  rw [hall] at hselect
  refine shared_of_chain hsplits ?_ ?_ rfl fun u E hu => ?_
  · rw [← List.append_nil (tests clauses)]
    exact hselect.append hbodies
  · exact List.forall_mem_cons.mpr ⟨hdisc, List.forall_mem_singleton.mpr hindex⟩
  · simp [num, count_temp hdisc hu, count_temp hindex hu]

end

/-- A `switch` that is lowered gets a block that its clauses share. -/
theorem shared_lower {span : Span} {subject : Expr} {clauses : Node (.list .clause)}
    (hne : clauses.toList.map Case.ofClause ≠ [])
    (hfault : fault (clauses.toList.map Case.ofClause) = .none)
    (hplain : ∀ d ∈ clauses.surface, d.1 ≠ .labeled) (t : Context) :
    let r := (lower span subject (clauses.toList.map Case.ofClause)).run t
    ∃ label head decls chain, r.1 = sharedBlock label span head decls chain ∧
      Shared (t.newNames r.2) @noUses subject clauses head decls chain := by
  let label := labelOf t
  let parts := (clauses.toList.map Case.ofClause).map fun c =>
    (c.test, hoistAll hoistStmt (c.body.map (retarget label)))
  let decls := (parts.foldr (fun p h => p.2.2.append h) Hoisted.none).stmts
  let cs := parts.map fun p => (⟨p.1, p.2.1⟩ : Case)
  have hsplits := splits_clauses label (stmtFault_of_fault hfault) hplain
  have htests : cs.flatMap (·.test.toList) = tests clauses := by
    rw [List.flatMap_map, List.flatMap_map]
    rfl
  have hrun : (lower span subject (clauses.toList.map Case.ofClause)).run t =
      let r := (form subject cs).run (t.withFreshLabel "S")
      (sharedBlock label span r.1.1 decls r.1.2, r.2) := by
    simp only [lower_eq_form hne, sharedBlock, decls, isEmpty_stmts]
    rfl
  rw [hrun]
  refine ⟨label, _, decls, _, rfl, ?_⟩
  simp only [form]
  split
  · have hnew := Context.newPair (.refl t) (t.grows_withFreshLabel "S") "disc" "caseIndex"
    exact shared_indexForm hsplits htests hnew.mem_fst hnew.mem_snd _
  · have hnew := Context.newPair (.refl t) (t.grows_withFreshLabel "S") "matched" "disc"
    exact shared_flagForm hsplits htests hnew.mem_fst hnew.mem_snd

section

variable {subject : Expr} {clauses : Node (.list .clause)} {head decls chain : List Stmt}

/-- What stands besides the declarations and the statements of the clauses declares new names only. -/
theorem lexicals_outer (h : Shared T @noUses subject clauses head decls chain) {x : String}
    (hx : x ∉ T) : x ∉ ((head ++ if decls.isEmpty then chain else
      [.blockStmt (block (decls ++ chain))]).flatMap lexicals).map (·.name) := by
  intro hmem
  obtain ⟨id, hid, rfl⟩ := List.mem_map.mp hmem
  rw [List.flatMap_append] at hid
  rcases List.mem_append.mp hid with hid | hid
  · exact hx (h.temps id hid)
  · split at hid
    · obtain ⟨s, hs, hid⟩ := List.mem_flatMap.mp hid
      rw [lexicals, h.bare s hs] at hid
      cases hid
    · cases hid

/-- The subject of a lowered `switch` is outside the scope of its clauses, their tests and statements
are inside. -/
theorem tally_sharedBlock {label : Ident} {span : Span}
    (h : Shared T @noUses subject clauses head decls chain) (hu : u.1.name ∉ T) :
    tally u E (sharedBlock label span head decls chain) =
      tally u E subject + tally u (E.within clauses.lexicals) clauses +
        (clauses.bindings.map fun id => (id, E.within clauses.lexicals id.name)).count u := by
  let outer := head ++ if decls.isEmpty then chain else [.blockStmt (block (decls ++ chain))]
  let E₁ := E.within (ofList outer).lexicals
  have hE₁ (x : String) (hx : x ∉ T) : E₁ x = E x := by
    refine if_neg ?_
    rw [lexicals_ofList]
    exact lexicals_outer h hx
  have hinner (E₂ : Levels) (hE₂ : ∀ x ∉ T, E₂ x = E.within clauses.lexicals x) :
      tallies u E₂ (decls ++ chain) = tally u (E.within clauses.lexicals) clauses +
        (clauses.bindings.map fun id => (id, E.within clauses.lexicals id.name)).count u := by
    have hbindings : (clauses.bindings.map fun id => (id, E₂ id.name)).count u =
        (clauses.bindings.map fun id => (id, E.within clauses.lexicals id.name)).count u :=
      count_map_congr (fun _ hid => hE₂ _ hid) hu _
    rw [h.clauses u E₂ hu, scan_noUses, List.count_nil, tally_congr hE₂ hu, hbindings, Nat.add_zero]
  have hhead : tallies u E₁ head = tally u E subject := by
    rw [h.subject u E₁ hu, scan_noUses, List.count_nil, tally_congr hE₁ hu, Nat.add_zero]
  have hrest : tallies u E₁ (if decls.isEmpty then chain else [.blockStmt (block (decls ++ chain))]) =
      tally u (E.within clauses.lexicals) clauses +
        (clauses.bindings.map fun id => (id, E.within clauses.lexicals id.name)).count u := by
    split
    next hempty =>
      have hdecls := List.isEmpty_iff.mp hempty
      have hlexicals : clauses.lexicals = [] := by
        have hperm := h.declared
        rw [hdecls] at hperm
        exact hperm.nil_eq.symm
      have hE₂ : ∀ x ∉ T, E₁ x = E.within clauses.lexicals x := by rwa [hlexicals]
      have := hinner E₁ hE₂
      rwa [hdecls] at this
    next =>
      rw [tallies_cons, tally_blockStmt, Build.block, tally_block, tally_ofList, tallies_nil, Nat.add_zero]
      refine hinner _ fun x hx => Levels.within_apply_congr (hE₁ x hx) ?_
      have hbare : chain.flatMap lexicals = [] := List.flatMap_eq_nil_iff.mpr fun s hs => by
        rw [lexicals, h.bare s hs, List.map_nil]
      rw [lexicals_ofList, List.flatMap_append, hbare, List.append_nil]
      exact (h.declared.map _).mem_iff
  rw [sharedBlock, labeled, tally_labeledStmt, Build.blockStmt, tally_blockStmt, tally_block,
    tally_ofList]
  change tallies u E₁ outer = _
  rw [tallies_append, hhead, hrest, Nat.add_assoc]

end

end Switches

end PlainJs

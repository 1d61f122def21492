import PlainJs.Proofs.Finallys.EarlyExits
import PlainJs.Proofs.Finallys.Meaning
import PlainJs.Proofs.Finallys.Balance
import PlainJs.Proofs.Throwing

namespace PlainJs

namespace Node

variable {c : Cat} {n : Node c}

/-- The jumps of a tree. -/
def departures (n : Node c) : List Departure := n.nodes.filterMap fun k => k.2.departure?

theorem mem_departures {j : Departure} :
    j ∈ n.departures ↔ n.departure? = .some j ∨ ∃ k ∈ n.children, j ∈ k.2.departures := by
  simp only [departures, List.mem_filterMap]
  constructor
  · rintro ⟨k, hk, hj⟩
    obtain rfl | ⟨m, hm, hk⟩ := mem_nodes.mp hk
    · exact .inl hj
    · exact .inr ⟨m, hm, k, hk, hj⟩
  · rintro (hj | ⟨m, hm, k, hk, hj⟩)
    · exact ⟨_, mem_nodes_self, hj⟩
    · exact ⟨k, mem_nodes_of_part hm hk, hj⟩

theorem departures_of_eq_none (h : n.departure? = .none) :
    n.departures = n.children.flatMap fun k => k.2.departures := by
  rw [departures, nodes_eq, List.filterMap_cons, h, List.filterMap_flatMap]
  rfl

theorem departures_of_parts {n' : Node c} (h : Parts (fun k k' => k.departures = k'.departures) n n') :
    n.departures = n'.departures := by
  have hown : n.departure? = n'.departure? := h.form_eq departure? fun m => by cases m <;> rfl
  simp only [departures, nodes_eq n, nodes_eq n', List.filterMap_cons, hown,
    List.filterMap_flatMap]
  rw [flatMap_eq_of_paired (g := fun k => k.nodes.filterMap fun m => m.2.departure?) h.children id]

theorem departures_leaf (h : n.departure? = .none) (hparts : n.children = []) : n.departures = [] := by
  rw [departures_of_eq_none h, hparts, List.flatMap_nil]

theorem departures_one {d : Cat} {k : Node d} (h : n.departure? = .none)
    (hparts : n.children = [⟨d, k⟩]) : n.departures = k.departures := by
  rw [departures_of_eq_none h, hparts, List.flatMap_singleton]

theorem departures_two {d e : Cat} {k : Node d} {m : Node e} (h : n.departure? = .none)
    (hparts : n.children = [⟨d, k⟩, ⟨e, m⟩]) : n.departures = k.departures ++ m.departures := by
  rw [departures_of_eq_none h, hparts, List.flatMap_cons, List.flatMap_singleton]

theorem departures_three {d e f : Cat} {k : Node d} {m : Node e} {l : Node f}
    (h : n.departure? = .none) (hparts : n.children = [⟨d, k⟩, ⟨e, m⟩, ⟨f, l⟩]) :
    n.departures = k.departures ++ (m.departures ++ l.departures) := by
  rw [departures_of_eq_none h, hparts, List.flatMap_cons, List.flatMap_cons,
    List.flatMap_singleton]

@[simp] theorem departures_nil : (nil : Node (.list c)).departures = [] := departures_leaf rfl rfl

@[simp] theorem departures_cons (a : Node c) (l : Node (.list c)) :
    (cons a l).departures = a.departures ++ l.departures := departures_two rfl rfl

@[simp] theorem departures_none : (none : Node (.opt c)).departures = [] := departures_leaf rfl rfl

@[simp] theorem departures_some (a : Node c) : (some a).departures = a.departures :=
  departures_one rfl rfl

@[simp] theorem departures_block (span : Span) (ctxt : Nat) (stmts : Node (.list .stmt)) :
    (block span ctxt stmts).departures = stmts.departures := departures_one rfl rfl

@[simp] theorem departures_blockStmt (b : Block) : (blockStmt b).departures = b.departures :=
  departures_one rfl rfl

@[simp] theorem departures_handler (span : Span) (param : Node (.opt .pat)) (body : Block) :
    (handler span param body).departures = param.departures ++ body.departures :=
  departures_two rfl rfl

@[simp] theorem departures_tryStmt (span : Span) (body : Block) (handler : Node (.opt .handler))
    (fin : Node (.opt .block)) : (tryStmt span body handler fin).departures =
      body.departures ++ (handler.departures ++ fin.departures) := departures_three rfl rfl

@[simp] theorem departures_ref (id : Ident) : (ref id).departures = [] := departures_leaf rfl rfl

@[simp] theorem departures_binder (id : Ident) : (binder id).departures = [] :=
  departures_leaf rfl rfl

@[simp] theorem departures_bool (b : Bool) : (Build.bool b).departures = [] :=
  departures_leaf rfl rfl

theorem departures_atLeast (least : Nat) (e : Expr) : (atLeast least e).departures = e.departures := by
  unfold atLeast
  split
  · exact departures_one rfl rfl
  · rfl

@[simp] theorem departures_assignTo (id : Ident) (e : Expr) :
    (Build.exprStmt (Build.assignTo id e)).departures = e.departures := by
  have hassign : (Build.assignTo id e).departures = e.departures := by
    refine (departures_two rfl rfl).trans ?_
    rw [departures_binder, departures_atLeast, List.nil_append]
  exact (departures_one rfl rfl).trans hassign

@[simp] theorem departures_declare (kind : VarKind) (id : Ident) (init : Option Expr) :
    (Build.declare kind id init).departures = (ofOption init).departures := by
  have hdeclarator (span : Span) (init : Node (.opt .expr)) :
      (declarator span false (binder id) init).departures = init.departures := by
    refine (departures_two rfl rfl).trans ?_
    rw [departures_binder, List.nil_append]
  have hdecls (ds : Node (.list .declarator)) (span : Span) :
      (declStmt (.declVar (.varDecl span 0 kind false ds))).departures = ds.departures :=
    (departures_one rfl rfl).trans ((departures_one rfl rfl).trans (departures_one rfl rfl))
  rw [Build.declare, Build.declarePat, hdecls, departures_cons, departures_nil, List.append_nil,
    hdeclarator]

@[simp] theorem departures_throwIf (t e : Expr) :
    (Build.ifElse t (Build.throwStmt e) Option.none).departures = t.departures ++ e.departures := by
  have hthrow : (Build.throwStmt e).departures = e.departures := departures_one rfl rfl
  refine (departures_three rfl rfl).trans ?_
  rw [hthrow, ofOption, departures_none, List.append_nil]

end Node

namespace Finallys

open Node

variable {c : Cat} {n : Node c} {w : Within}

/-- Every exit is a jump of the tree. -/
theorem mem_departures_of_mem_exits {x : Span × Exit} (h : x ∈ exits w n) :
    ∃ j ∈ n.departures, x = (j.span, j.exit) := by
  induction w, c, n using exits.induct with
  | case1 w span value =>
    rw [exits, List.mem_singleton] at h
    exact ⟨_, mem_departures.mpr (.inl rfl), h⟩
  | case2 w span label hescapes =>
    rw [exits, if_pos hescapes, List.mem_singleton] at h
    exact ⟨_, mem_departures.mpr (.inl rfl), h⟩
  | case4 w span label hescapes =>
    rw [exits, if_pos hescapes, List.mem_singleton] at h
    exact ⟨_, mem_departures.mpr (.inl rfl), h⟩
  | case3 w span label hescapes | case5 w span label hescapes =>
    rw [exits, if_neg hescapes] at h
    cases h
  | case6 w span label body ih =>
    rw [exits] at h
    obtain ⟨j, hj, rfl⟩ := ih h
    exact ⟨j, mem_departures.mpr (.inr ⟨_, .head _, hj⟩), rfl⟩
  | case7 | case8 | case9 =>
    rw [exits] at h
    cases h
  | case10 w c n hreturn hbreak hcontinue hlabeled hfunc harrow hcls ih =>
    rw [exits.eq_8 w n hreturn hbreak hcontinue hlabeled hfunc harrow hcls] at h
    obtain ⟨⟨⟨d, k⟩, hk⟩, -, hx⟩ := List.mem_flatMap.mp h
    obtain ⟨j, hj, rfl⟩ := ih d k hk hx
    exact ⟨j, mem_departures.mpr (.inr ⟨_, hk, hj⟩), rfl⟩

theorem departures_recordClause (threw err caught : Ident) :
    (recordClause threw err caught).departures = [] := by
  simp [recordClause, Build.block, ofList]

theorem departures_guarded (body : Block) {recording : Node .handler}
    (h : recording.departures = []) (handler : Node (.opt .handler)) :
    (guarded body recording handler).departures = body.departures ++ handler.departures := by
  cases handler with
  | none => simp [guarded, h]
  | some h' =>
    cases h'
    simp [guarded, h, Build.block, ofList]

theorem departures_lower (span : Span) (body : Block) (handler : Node (.opt .handler))
    (finalizer : Block) (s : Context) :
    ((lower span body handler finalizer).run s).1.departures =
      body.departures ++ (handler.departures ++ finalizer.departures) := by
  rw [run_lower]
  simp [Build.blockStmt, ofList, ofOption, departures_guarded _ (departures_recordClause _ _ _)]

/-- A lowered `try` has no jumps but those of its parts. -/
theorem departures_lowerTry (k : Stmt) (s : Context) :
    ((lowerTry k).run s).1.departures = k.departures := by
  cases k with
  | tryStmt span body handler fin =>
    cases fin with
    | none => rfl
    | some f =>
      rw [departures_tryStmt, departures_some]
      exact departures_lower span body handler f _
  | _ => rfl

theorem departures_bottomUp (n : Node c) (s : Context) :
    ((Lower.bottomUp lowerTry n).run s).1.departures = n.departures := by
  induction n using partsInduction generalizing s with
  | @step c n ih =>
    have hparts := departures_of_parts (parts_traverse lowering (fun _ hk s => (ih hk s).symm) s)
    rw [Rewrites.run_bottomUp]
    by_cases hc : c = .stmt
    · subst hc
      exact (departures_lowerTry _ _).trans hparts.symm
    · simp only [Lower.onStmt_of_ne hc]
      exact hparts.symm

theorem nodes_subset_ofList {k : Stmt} {l : List Stmt} (hk : k ∈ l) : k.nodes ⊆ (ofList l).nodes := by
  intro m hm
  induction l with
  | nil => cases hk
  | cons a l ih =>
    cases hk with
    | head => exact mem_nodes_of_part (.head _) hm
    | tail _ hk => exact mem_nodes_of_part (.tail _ (.head _)) (ih hk)

theorem nodes_subset_block {k : Stmt} {l : List Stmt} (hk : k ∈ l) :
    k.nodes ⊆ (Build.block l).nodes :=
  fun _ hm => mem_nodes_of_part (.head _) (nodes_subset_ofList hk hm)

theorem nodes_subset_blockStmt {k : Stmt} {l : List Stmt} (hk : k ∈ l) (span : Span) :
    k.nodes ⊆ (Build.blockStmt span l).nodes :=
  fun _ hm => mem_nodes_of_part (.head _) (mem_nodes_of_part (.head _) (nodes_subset_ofList hk hm))

/-- Statements inside a handler or a body still stand in the guarded `try`. -/
theorem mem_nodes_guarded {body : Block} {recording : Node .handler}
    {handler : Node (.opt .handler)} {m : Stmt}
    (hm : ⟨.stmt, m⟩ ∈ body.nodes ∨ ⟨.stmt, m⟩ ∈ handler.nodes) :
    ⟨.stmt, m⟩ ∈ (guarded body recording handler).nodes := by
  cases handler with
  | none =>
    rcases hm with hm | hm
    · exact mem_nodes_of_part (.head _) hm
    · rcases mem_nodes.mp hm with heq | ⟨_, hpart, _⟩
      · cases heq
      · cases hpart
  | some h =>
    cases h with
    | handler span p b =>
      rcases hm with hm | hm
      · exact mem_nodes_of_part (.head _) hm
      · refine mem_nodes_of_part (.tail _ (.head _)) (mem_nodes_of_part (.head _) ?_)
        have hm : ⟨.stmt, m⟩ ∈ p.nodes ∨ ⟨.stmt, m⟩ ∈ b.nodes := by
          simpa [mem_nodes (n := .some _), mem_nodes (n := .handler ..), children] using hm
        rcases hm with hm | hm
        · exact mem_nodes_of_part (.head _) hm
        · exact mem_nodes_of_part (.tail _ (.head _))
            (nodes_subset_block (.head _) (mem_nodes_of_part (.head _) hm))

/-- Statements inside a `try` still stand in what becomes of it. -/
theorem mem_nodes_lowerTry {k m : Stmt} {part : Sigma Node} (hpart : part ∈ k.children)
    (hm : ⟨.stmt, m⟩ ∈ part.2.nodes) (s : Context) : ⟨.stmt, m⟩ ∈ ((lowerTry k).run s).1.nodes := by
  have hsame : ⟨.stmt, m⟩ ∈ k.nodes := mem_nodes_of_part hpart hm
  cases k with
  | tryStmt span body handler fin =>
    cases fin with
    | none => exact hsame
    | some f =>
      have hm : (⟨.stmt, m⟩ ∈ body.nodes ∨ ⟨.stmt, m⟩ ∈ handler.nodes) ∨ ⟨.stmt, m⟩ ∈ f.nodes := by
        simp only [children, List.mem_cons, List.not_mem_nil, or_false] at hpart
        rcases hpart with rfl | rfl | rfl
        · exact .inl (.inl hm)
        · exact .inl (.inr hm)
        · simpa [mem_nodes (n := .some _), children] using Or.inr hm
      rcases hm with hm | hm
      · exact nodes_subset_blockStmt (.tail _ (.tail _ (.head _))) span (mem_nodes_guarded hm)
      · exact nodes_subset_blockStmt (.tail _ (.tail _ (.tail _ (.head _)))) span
          (mem_nodes_of_part (.head _) hm)
  | _ => exact hsame

variable {base s : Context}

/-- The pass makes something of every statement of a tree, and this stands in the new tree. -/
theorem exists_made {k : Stmt} (hk : ⟨.stmt, k⟩ ∈ n.nodes) (hbase : base.Grows s) :
    let r := (Lower.bottomUp lowerTry n).run s
    ∃ k', Lower.Made lowerTry base r.2 k k' ∧ ⟨.stmt, k'⟩ ∈ r.1.nodes := by
  induction n using partsInduction generalizing s with
  | @step c n ih =>
    obtain heq | ⟨m, hm, hk⟩ := mem_nodes.mp hk
    · cases heq
      exact ⟨_, ⟨s, hbase, .refl _, rfl⟩, mem_nodes_self⟩
    · obtain ⟨u, hu, hv, hm'⟩ := (rewrites []).exists_visit hm s
      obtain ⟨k', ⟨v, hbasev, hvu, hk'⟩, hmem⟩ := ih hm hk (hbase.trans hu.grows)
      rw [Rewrites.run_bottomUp]
      refine ⟨k', ⟨v, hbasev, hvu.trans (hv.trans ((rewrites []).steps_onStmt _ _)).grows, hk'⟩, ?_⟩
      by_cases hc : c = .stmt
      · subst hc
        exact mem_nodes_lowerTry hm' hmem _
      · simp only [Lower.onStmt_of_ne hc]
        exact mem_nodes_of_part hm' hmem

section

open Effect Run Interp

variable {U V : Type} {I : Interp U V} {temps : List String} {threw err caught : Ident}
  {P : Completion V → Prop} {x : Effect (State U V) (Completion V)}

theorem yields_setting (y : String) (v : V) (h : Yields P x) : Yields P (setting y v x) :=
  fun _ _ hr => h _ _ hr

theorem yields_reading (y : String) {k : V → Effect (State U V) (Completion V)}
    (h : ∀ v, Yields P (k v)) : Yields P (reading y k) :=
  fun _ _ hr => h _ _ _ hr

theorem yields_updating (g : U → U) (h : Yields P x) : Yields P (updating g x) :=
  fun _ _ hr => h _ _ hr

/-- Recording what was thrown goes well, and so does everything that neither jumps nor returns. -/
theorem yields_tryCatch_recording (h : Yields Completion.Calm x) :
    Yields (· = .normal) (Run.tryCatch x (some (recording I threw err caught))) := by
  refine h.bind fun c hc => ?_
  obtain rfl | ⟨v, rfl⟩ := hc
  · exact .pure rfl
  · exact yields_setting _ _ (yields_setting _ _ (yields_reading _ fun _ =>
      yields_setting _ _ (.pure rfl)))

/-- A name can always be bound to what was thrown. -/
theorem exists_catching {span : Span} {param : Node (.opt .pat)} {b : Block}
    (hparam : param.toOption.all isBinder = true) (hb : Yields P (I.exec temps [] b)) :
    ∃ k, I.catching temps (.handler span param b) = .some k ∧ ∀ v, Yields P (k v) := by
  cases param with
  | none => exact ⟨_, catching_handler_none .., fun _ => hb⟩
  | some p =>
    cases p with
    | binder id =>
      have hskeleton : (Node.binder id).skeleton = .binder id := skeleton_eq_mapParts (by simp)
      refine ⟨_, catching_handler_some .., fun v => ?_⟩
      rw [hskeleton]
      by_cases hid : id.name ∈ temps
      · rw [bindCaught, if_pos hid, evaluating_writeTemp]
        exact yields_setting _ _ hb
      · rw [evaluating_bindCaught hid]
        exact yields_updating _ hb
    | _ => cases hparam

/-- A guarded `try` without exits ends normally. -/
theorem yields_guarded (h : AreTemps temps threw err caught) {body : Block}
    {handler : Node (.opt .handler)} (hexits : earlyExits body handler = []) {span : Span} {fin : Block}
    (hcatch : catchesName (.tryStmt span body handler (.some fin)) = true) :
    Yields (· = .normal) (I.exec temps [] (guarded body (recordClause threw err caught) handler)) := by
  obtain ⟨hbody, hhandler⟩ := List.append_eq_nil_iff.mp hexits
  cases handler with
  | none =>
    rw [exec_guarded_none h]
    exact yields_tryCatch_recording (calm_of_exits hbody)
  | some k =>
    cases k with
    | handler hspan param b =>
      have hinner : Yields (· = .normal) (I.exec temps [] (Node.Build.block
          [.tryStmt .none b (.some (recordClause threw err caught)) .none])) := by
        rw [Node.Build.block, exec_block, Node.ofList, exec_cons, Node.ofList, exec_nil, seq_done]
        exact (exec_guarded_none h b).symm ▸ yields_tryCatch_recording (calm_of_exits hhandler)
      obtain ⟨k, hk, hyields⟩ := exists_catching hcatch hinner
      rw [exec_guarded_some, hk]
      refine (calm_of_exits hbody).bind fun c hc => ?_
      obtain rfl | ⟨v, rfl⟩ := hc
      · exact .pure rfl
      · exact hyields v

end

end Finallys

/-- A run of statements that goes through the first of them normally and ends with the others. -/
def Interp.Reaches {U V : Type} (I : Interp U V) (temps : List String) (before rest : List Stmt)
    (s : State U V) (r : Completion V × State U V) : Prop :=
  ∃ t, (.normal, t) ∈ (I.exec temps [] (.ofList before)).run s ∧
    r ∈ (I.exec temps [] (.ofList rest)).run t

namespace Finallys

open Node Effect Run Interp

/-- The statements in front of a lowered finalizer. -/
def guardedPart (t : Context) (body : Block) (handler : Node (.opt .handler)) : List Stmt :=
  [Build.declare .let (threwName t) (some (Build.bool false)), Build.declare .let (errName t) Option.none,
    guarded body (recordClause (threwName t) (errName t) (caughtName t)) handler]

/-- The statements behind a lowered finalizer. -/
def rethrowPart (t : Context) : List Stmt :=
  [Build.ifElse (.ref (threwName t)) (Build.throwStmt (.ref (errName t))) Option.none]

variable {U V : Type} {I : Interp U V} {temps : List String}

/-- What stands in front of the finalizer ends normally where there are no exits. -/
theorem yields_guardedPart {t : Context}
    (h : AreTemps temps (threwName t) (errName t) (caughtName t)) {body fin : Block}
    {handler : Node (.opt .handler)} (hexits : earlyExits body handler = []) {span : Span}
    (hcatch : catchesName (.tryStmt span body handler (.some fin)) = true) :
    Yields (· = .normal) (I.exec temps [] (.ofList (guardedPart t body handler))) := by
  simp only [guardedPart, ofList, exec_cons, exec_nil, seq_done, exec_declare_some h.threw_mem,
    exec_declare_none h.err_mem, value_bool, evaluating_pure, seq_setting, done_seq]
  exact yields_setting _ _ (yields_setting _ _ (yields_guarded h hexits hcatch))

/-- Statements of which the first ones end normally come to the others. -/
theorem reaches_of_yields {before rest : List Stmt} {span : Span} {labels : List String}
    {s : State U V} {r : Completion V × State U V}
    (h : Yields (· = .normal) (I.exec temps [] (.ofList before)))
    (hr : r ∈ (I.exec temps labels (Build.blockStmt span (before ++ rest))).run s) :
    I.Reaches temps before rest s r := by
  rw [Build.blockStmt, exec_blockStmt, exec_block, exec_append, Run.seq, StateT.run_bind] at hr
  obtain ⟨⟨c, t⟩, ht, hr⟩ := Part.mem_bind_iff.mp hr
  obtain rfl : c = .normal := h _ _ ht
  exact ⟨t, ht, hr⟩

/-- A jump of the body or the handler has been reported since `base`. -/
def ReportsJump (base s : Context) (body : Block) (handler : Node (.opt .handler)) : Prop :=
  ∃ j ∈ body.departures ++ handler.departures,
    ⟨.limitation, j.span, exitMessage j.exit⟩ ∈ s.diagnostics.drop base.diagnostics.length

theorem exits_handlerBody {handler : Node (.opt .handler)} {x : Span × Exit}
    (h : x ∈ (handler.toOption.map fun h => exits .top (handlerBody h)).getD []) :
    ∃ j ∈ handler.departures, x = (j.span, j.exit) := by
  cases handler with
  | none => cases h
  | some k =>
    cases k with
    | handler span param b =>
      obtain ⟨j, hj, rfl⟩ := mem_departures_of_mem_exits (n := b) h
      exact ⟨j, by simp [hj], rfl⟩

/-- Every exit of a `try` is reported. -/
theorem reportsJump_reporting {base t : Context} (hbase : base.Grows t) {body : Block}
    {handler : Node (.opt .handler)} {x : Span × Exit} (hx : x ∈ earlyExits body handler) :
    ReportsJump base (reporting t (earlyExits body handler)) body handler := by
  obtain ⟨j, hj, hxj⟩ : ∃ j ∈ body.departures ++ handler.departures, x = (j.span, j.exit) := by
    rcases List.mem_append.mp hx with hx | hx
    · obtain ⟨j, hj, rfl⟩ := mem_departures_of_mem_exits hx
      exact ⟨j, List.mem_append_left _ hj, rfl⟩
    · obtain ⟨j, hj, rfl⟩ := exits_handlerBody hx
      exact ⟨j, List.mem_append_right _ hj, rfl⟩
  obtain ⟨new, hnew⟩ := hbase.diagnostics
  refine ⟨j, hj, ?_⟩
  rw [reporting, hnew, List.append_assoc, List.drop_left]
  exact List.mem_append_right _ (List.mem_map.mpr ⟨x, hx, by rw [hxj]⟩)

theorem ReportsJump.mono {base s t : Context} {body : Block} {handler : Node (.opt .handler)}
    (h : ReportsJump base s body handler) (hst : s.Grows t) : ReportsJump base t body handler := by
  obtain ⟨j, hj, h⟩ := h
  obtain ⟨new, hnew⟩ := hst.diagnostics
  refine ⟨j, hj, ?_⟩
  rw [hnew, List.drop_append]
  exact List.mem_append_left _ h

/-- The parts of a `try` are lowered from left to right, and then the `try` itself. -/
theorem run_bottomUp_tryStmt (span : Span) (body fin : Block) (handler : Node (.opt .handler))
    (s : Context) :
    let b := (Lower.bottomUp lowerTry body).run s
    let h := (Lower.bottomUp lowerTry handler).run b.2
    let f := (Lower.bottomUp lowerTry fin).run h.2
    let t := reporting f.2 (earlyExits b.1 h.1)
    (Lower.bottomUp lowerTry (.tryStmt span body handler (.some fin))).run s =
      (Build.blockStmt span (guardedPart t b.1 h.1 ++ .blockStmt f.1 :: rethrowPart t),
        afterCaught t) := by
  intro b h f t
  have hsome : (Lower.bottomUp lowerTry (.some fin)).run h.2 = (.some f.1, f.2) := by
    rw [Rewrites.run_bottomUp]
    rfl
  have htry : (Lower.bottomUp lowerTry (.tryStmt span body handler (.some fin))).run s =
      (lowerTry (.tryStmt span b.1 h.1 (.some f.1))).run f.2 := by
    rw [Rewrites.run_bottomUp]
    change (lowerTry (.tryStmt span b.1 h.1 ((Lower.bottomUp lowerTry (.some fin)).run h.2).1)).run
      ((Lower.bottomUp lowerTry (.some fin)).run h.2).2 = _
    rw [hsome]
  rw [htry, lowerTry, StateT.run_bind, run_report]
  exact run_lower span b.1 h.1 f.1 t

theorem isBinder_bottomUp (param : Node (.opt .pat)) (s : Context) :
    ((Lower.bottomUp lowerTry param).run s).1.toOption.all isBinder = param.toOption.all isBinder := by
  rw [Rewrites.run_bottomUp]
  cases param with
  | none => rfl
  | some p =>
    change isBinder ((Lower.bottomUp lowerTry p).run s).1 = isBinder p
    have hkept := ((rewrites []).outline p s).outline.plain
    rw [isPlainTarget_eq_isBinder, isPlainTarget_eq_isBinder] at hkept
    exact hkept.symm

theorem catchesName_bottomUp {span : Span} {body body' fin fin' : Block}
    {handler : Node (.opt .handler)}
    (h : catchesName (.tryStmt span body handler (.some fin)) = true) (s : Context) :
    catchesName (.tryStmt span body' ((Lower.bottomUp lowerTry handler).run s).1 (.some fin')) =
      true := by
  rw [Rewrites.run_bottomUp]
  cases handler with
  | none => rfl
  | some k =>
    change catchesName (.tryStmt span body' (.some ((Lower.bottomUp lowerTry k).run s).1) _) = true
    rw [Rewrites.run_bottomUp]
    cases k with
    | handler hspan param b => exact (isBinder_bottomUp param s).trans h

end Finallys

open Finallys in
/-- Every run of what becomes of a `try` comes to the finalizer, unless a jump inside the `try` has
been reported. -/
theorem lowerFinallys_reaches_finalizer (p : Program) (cx : Context) {span : Span}
    {body fin : Block} {handler : Node (.opt .handler)}
    (htry : ⟨.stmt, .tryStmt span body handler (.some fin)⟩ ∈ p.nodes)
    (hcatch : catchesName (.tryStmt span body handler (.some fin)) = true) :
    let r := (lowerFinallys p).run cx
    ∃ (before after : List Stmt) (fin' : Block),
      let lowered := Node.Build.blockStmt span (before ++ .blockStmt fin' :: after)
      Lower.Made lowerTry cx r.2 (.tryStmt span body handler (.some fin)) lowered ∧
      Lower.Made lowerTry cx r.2 fin fin' ∧ ⟨.stmt, lowered⟩ ∈ r.1.nodes ∧
      ∀ {U V : Type} (I : Interp U V) (temps labels : List String) (s : State U V),
        cx.newNames r.2 ⊆ temps → ∀ e ∈ (I.exec temps labels lowered).run s,
          I.Reaches temps before (.blockStmt fin' :: after) s e ∨ ReportsJump cx r.2 body handler := by
  intro r
  obtain ⟨_, ⟨u, hu, hend, rfl⟩, hmem⟩ := exists_made htry (.refl cx)
  let b := (Lower.bottomUp lowerTry body).run u
  let h := (Lower.bottomUp lowerTry handler).run b.2
  let f := (Lower.bottomUp lowerTry fin).run h.2
  let t := reporting f.2 (earlyExits b.1 h.1)
  have hrun : (Lower.bottomUp lowerTry (.tryStmt span body handler (.some fin))).run u = (_, _) :=
    run_bottomUp_tryStmt span body fin handler u
  have hb : cx.Grows b.2 := hu.trans ((rewrites []).calm_bottomUp body u).grows
  have hh : cx.Grows h.2 := hb.trans ((rewrites []).calm_bottomUp handler b.2).grows
  have hf : cx.Grows f.2 := hh.trans ((rewrites []).calm_bottomUp fin h.2).grows
  have ht : cx.Grows t := hf.trans (grows_reporting _ _)
  rw [hrun] at hend hmem
  have htend : t.Grows r.2 := (grows_afterCaught t).trans hend
  refine ⟨guardedPart t b.1 h.1, rethrowPart t, f.1, ⟨u, hu, by rw [hrun]; exact hend, by rw [hrun]⟩,
    ⟨h.2, hh, (grows_reporting _ _).trans htend, rfl⟩, hmem, ?_⟩
  intro U V I temps labels s htemps e he
  by_cases hexits : earlyExits b.1 h.1 = []
  · have hmine := mem_newNames_afterCaught ht
    have hnew : cx.newNames (afterCaught t) ⊆ temps :=
      List.Subset.trans (Context.newNames_subset hend) htemps
    have hare : AreTemps temps (threwName t) (errName t) (caughtName t) :=
      ⟨hnew (hmine _ (.head _)), hnew (hmine _ (.tail _ (.head _))),
        hnew (hmine _ (.tail _ (.tail _ (.head _))))⟩
    have hcaught : catchesName (.tryStmt span b.1 h.1 (.some fin)) = true :=
      catchesName_bottomUp hcatch b.2
    exact .inl (reaches_of_yields (yields_guardedPart hare hexits hcaught) he)
  · obtain ⟨x, hx⟩ := List.exists_mem_of_ne_nil _ hexits
    obtain ⟨j, hj, hreported⟩ := (reportsJump_reporting hf hx).mono htend
    rw [departures_bottomUp, departures_bottomUp] at hj
    exact .inr ⟨j, hj, hreported⟩

/-- `f(args);` -/
def Finallys.callOf (f : String) (args : List String) : Stmt :=
  Node.Build.exprStmt (Node.Build.call (Node.Build.name f) (args.map Node.Build.name))

open Finallys in
/-- `try { try { f(); } finally { g(); } } catch (e) { g(e); } finally { h(); }` -/
def nestedGuard : Stmt :=
  .tryStmt ⟨1, 80⟩
    (Node.Build.block [.tryStmt ⟨7, 38⟩ (Node.Build.block [callOf "f" []]) .none
      (.some (Node.Build.block [callOf "g" []]))])
    (.some (.handler ⟨41, 60⟩ (.some (.binder (.ofName "e"))) (Node.Build.block [callOf "g" ["e"]])))
    (.some (Node.Build.block [callOf "h" []]))

def nestedGuards : Program := .scriptProgram ⟨1, 80⟩ none (.ofList [nestedGuard])

/-- No jump leaves this one, so its finalizer is not missed. -/
theorem lowerFinallys_reaches_finalizer_nestedGuards :
    let cx := Context.start .default nestedGuards
    let r := (lowerFinallys nestedGuards).run cx
    ⟨.stmt, nestedGuard⟩ ∈ nestedGuards.nodes ∧ Finallys.catchesName nestedGuard = true ∧
      r.2.diagnostics = [] ∧ ∃ (before after : List Stmt) (fin : Block),
        let lowered := Node.Build.blockStmt ⟨1, 80⟩ (before ++ .blockStmt fin :: after)
        ⟨.stmt, lowered⟩ ∈ r.1.nodes ∧
        ∀ {U V : Type} (I : Interp U V) (labels : List String) (s : State U V),
          ∀ e ∈ (I.exec (cx.newNames r.2) labels lowered).run s,
            I.Reaches (cx.newNames r.2) before (.blockStmt fin :: after) s e := by
  intro cx r
  have htry : ⟨.stmt, nestedGuard⟩ ∈ nestedGuards.nodes :=
    Node.mem_nodes_of_part (.head _) (Node.mem_nodes_of_part (.head _) Node.mem_nodes_self)
  have hquiet : r.2.diagnostics = [] := by decide +kernel
  obtain ⟨before, after, fin, -, -, hmem, h⟩ := lowerFinallys_reaches_finalizer nestedGuards cx htry rfl
  refine ⟨htry, rfl, hquiet, before, after, fin, hmem, fun I labels s e he => ?_⟩
  refine (h I _ labels s (List.Subset.refl _) e he).resolve_right fun ⟨j, _, hj⟩ => ?_
  rw [hquiet, List.drop_nil] at hj
  cases hj

namespace Finallys

open Interp

/-- `catch ({ a }) { g(a); }` -/
def patternHandler : Node .handler :=
  .handler ⟨14, 38⟩
    (.some (.objectPat ⟨21, 26⟩ false (.ofList [.shortPat ⟨23, 24⟩ (.ofName "a") .none])))
    (Node.Build.block [callOf "g" ["a"]])

/-- `try { f(); } catch ({ a }) { g(a); } finally { h(); }` -/
def patternGuards : Program :=
  .scriptProgram ⟨1, 60⟩ none (.ofList [.tryStmt ⟨1, 60⟩ (Node.Build.block [callOf "f" []])
    (.some patternHandler) (.some (Node.Build.block [callOf "h" []]))])

theorem run_patternGuards (cx : Context) :
    let t := reporting cx []
    (lowerFinallys patternGuards).run cx =
      (.scriptProgram ⟨1, 60⟩ none (.ofList [Node.Build.blockStmt ⟨1, 60⟩
        (guardedPart t (Node.Build.block [callOf "f" []]) (.some patternHandler) ++
          .blockStmt (Node.Build.block [callOf "h" []]) :: rethrowPart t)]), afterCaught t) := by
  intro t
  have hnone : ∀ k ∈ (Node.tryStmt ⟨1, 60⟩ (Node.Build.block [callOf "f" []]) (.some patternHandler)
      (.some (Node.Build.block [callOf "h" []]))).children,
      k.2.all (fun m => !m.isTry) = true := by decide +kernel
  have hexits : earlyExits (Node.Build.block [callOf "f" []]) (.some patternHandler) = [] := by
    decide +kernel
  rw [lowerFinallys, patternGuards, Lower.run_bottomUp_script fun m hm => Lower.bottomUp_eq_pure
    (fun _ hk => lowerTry_of_isTry_eq_false (by simpa using hk)) (hnone _ hm)]
  have hrun : (lowerTry (.tryStmt ⟨1, 60⟩ (Node.Build.block [callOf "f" []]) (.some patternHandler)
      (.some (Node.Build.block [callOf "h" []])))).run cx =
      (Node.Build.blockStmt ⟨1, 60⟩ (guardedPart t (Node.Build.block [callOf "f" []])
        (.some patternHandler) ++ .blockStmt (Node.Build.block [callOf "h" []]) :: rethrowPart t),
        afterCaught t) := by
    rw [lowerTry, StateT.run_bind, run_report, hexits]
    exact run_lower ..
  rw [hrun]

/-- Binding the pattern throws, and nothing catches this. -/
theorem exec_patternGuarded {temps : List String} {threw err caught : Ident} :
    throwing.exec temps [] (guarded (Node.Build.block [callOf "f" []])
      (recordClause threw err caught) (.some patternHandler)) = pure (.throw (.ofNat 0)) := by
  have hbody : throwing.exec temps [] (Node.Build.block [callOf "f" []]) = pure (.throw (.ofNat 0)) := by
    rw [Node.Build.block, exec_block, Node.ofList, exec_cons, Node.ofList, exec_nil, Run.seq_done,
      callOf, exec_buildExprStmt, List.map_nil, value_throwing, Run.evaluating_throw]
  rw [patternHandler, exec_guarded_some, catching_handler_some, hbody,
    Node.skeleton_eq_mapParts (by simp), Run.tryCatch, pure_bind]
  change Run.evaluating (lift (throw (Decimal.ofNat 0) : Action Unit Decimal Unit)) _ = _
  rw [lift_throw, Run.evaluating_throw]

end Finallys

open Finallys Interp in
/-- An exception from the binding of a pattern leaves the lowered `try` without a word, and the
finalizer is missed. -/
theorem lowerFinallys_misses_finalizer_patternGuards :
    let cx := Context.start .default patternGuards
    let r := (lowerFinallys patternGuards).run cx
    let s : State Unit Decimal := ⟨(), fun _ => .ofNat 0⟩
    r.2.diagnostics = [] ∧ ∃ (before after : List Stmt) (fin : Block),
      let lowered := Node.Build.blockStmt ⟨1, 60⟩ (before ++ .blockStmt fin :: after)
      r.1 = .scriptProgram ⟨1, 60⟩ none (.ofList [lowered]) ∧
      ∃ e ∈ (throwing.exec (cx.newNames r.2) [] lowered).run s,
        ¬ throwing.Reaches (cx.newNames r.2) before (.blockStmt fin :: after) s e := by
  intro cx r s
  let t := reporting cx []
  have hrun : r = (_, afterCaught t) := run_patternGuards cx
  refine ⟨by rw [hrun]; rfl, ?_⟩
  have hmine := mem_newNames_afterCaught (grows_reporting cx [])
  have hare : AreTemps (cx.newNames (afterCaught t)) (threwName t) (errName t) (caughtName t) :=
    ⟨hmine _ (.head _), hmine _ (.tail _ (.head _)), hmine _ (.tail _ (.tail _ (.head _)))⟩
  have hbefore : throwing.exec (cx.newNames (afterCaught t)) [] (.ofList (guardedPart t
      (Node.Build.block [callOf "f" []]) (.some patternHandler))) =
      setting (threwName t).name (.ofNat 0) (setting (errName t).name (.ofNat 0)
        (pure (.throw (.ofNat 0)))) := by
    simp only [guardedPart, Node.ofList, exec_cons, exec_nil, Run.seq_done,
      exec_declare_some hare.threw_mem, exec_declare_none hare.err_mem, value_bool,
      Run.evaluating_pure, seq_setting, Run.done_seq, exec_patternGuarded]
    rfl
  rw [hrun]
  refine ⟨_, _, _, rfl, ?_⟩
  refine ⟨(.throw (.ofNat 0), ⟨(), Function.update (Function.update s.temps (threwName t).name
    (.ofNat 0)) (errName t).name (.ofNat 0)⟩), ?_, ?_⟩
  · rw [Node.Build.blockStmt, exec_blockStmt, exec_block, exec_append, hbefore, seq_setting,
      seq_setting, Run.seq, pure_bind]
    exact Part.mem_some _
  · rintro ⟨u, hu, -⟩
    rw [hbefore] at hu
    cases Part.mem_some_iff.mp hu

end PlainJs

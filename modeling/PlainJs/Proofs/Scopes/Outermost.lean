import PlainJs.Proofs.Scopes.Analysis
import PlainJs.Proofs.Search.TopLevel

namespace PlainJs

open Node

namespace Node

/-- The names that a tree declares around it without the analysis of scopes recording them. -/
def unrecorded : {c : Cat} → Node c → List Ident
  | _, .cons a l => a.unrecorded ++ l.unrecorded
  | _, .some a => a.unrecorded
  | _, .clause _ _ body => body.unrecorded
  | _, .labeledStmt _ _ body => body.unrecorded
  | _, .declStmt d => d.unrecorded
  | _, .stmtItem s => s.unrecorded
  | _, .exportDecl _ d => d.unrecorded
  | _, .declUsing _ _ decls | _, .headUsing _ _ decls => decls.boundIdents
  | _, .exportFunc _ name _ | _, .exportClass _ name _ => name.toList
  | _, .moduleProgram _ _ items => items.unrecorded
  | _, .scriptProgram _ _ stmts => stmts.unrecorded
  | _, _ => []

end Node

namespace ScopeTable

variable {t t' t'' : ScopeTable} {stack : List Nat} {i : Nat} {x : String} {c : Cat} {n : Node c}

/-- A table has grown by scopes that lie in earlier ones. -/
structure Grafts (t t' : ScopeTable) : Prop where
  grows : Grows t t'
  parent : ∀ i, t.scopes.length ≤ i → i < t'.scopes.length → ∃ p < i, HasParent t' i p

namespace Grafts

theorem of_length (hg : Grows t t') (hlength : t'.scopes.length = t.scopes.length) : Grafts t t' :=
  ⟨hg, fun i hi hi' => by omega⟩

theorem trans (h : Grafts t t') (h' : Grafts t' t'') : Grafts t t'' where
  grows := h.grows.trans h'.grows
  parent i hi hi' := by
    rcases Nat.lt_or_ge i t'.scopes.length with hlt | hge
    · obtain ⟨p, hp, hparent⟩ := h.parent i hi hlt
      exact ⟨p, hp, hparent.mono h'.grows⟩
    · exact h'.parent i hge hi'

theorem of_entered {o : Opening} (hstack : Stacked t stack) (h : Entered stack o t t') :
    Grafts t t' where
  grows := h.grows
  parent i hi hi' := by
    have hlength := h.length
    obtain rfl : i = t.scopes.length := by omega
    obtain ⟨s, hs, -, -, hparent⟩ := h.scope
    exact ⟨_, hstack.head_lt, s, hs, hparent⟩

theorem visit {l : List (Sigma Node)} (h : ∀ k ∈ l, ∀ {t : ScopeTable}, Stacked t stack →
    Grafts t ((collect stack k.2).run t).2) (hstack : Stacked t stack) :
    Grafts t ((visit stack l).run t).2 := by
  induction l generalizing t with
  | nil => exact .of_length (.refl t) rfl
  | cons k l ih =>
    obtain ⟨hk, hl⟩ := List.forall_mem_cons.mp h
    have hfirst := hk hstack
    exact hfirst.trans (ih hl (hstack.mono hfirst.grows))

end Grafts

/-- What a node declares itself is noted, and no scope is opened. -/
theorem noteOwn_spec (hstack : Stacked t stack) (n : Node c) :
    let t' := ((noteOwn stack n).run t).2
    Grafts t t' ∧ ∀ reach, ∀ x ∈ n.ownBinds reach, Binds t' (t.target stack reach) x := by
  obtain ⟨hgrows, hlength, hbinds⟩ := bindOwn_spec hstack n
  have hscopes := scopes_noteOwn stack n t
  have hsame : Grows ((bindOwn stack n).run t).2 ((noteOwn stack n).run t).2 := .of_scopes hscopes
  exact ⟨.of_length (hgrows.trans hsame) ((congrArg List.length hscopes).trans hlength),
    fun reach x hx => (hbinds reach x hx).mono hsame⟩

theorem grafts_collect (n : Node c) (hstack : Stacked t stack) :
    Grafts t ((collect stack n).run t).2 := by
  induction n using scopeInduction generalizing stack t with
  | @step c n ihout ihin =>
    have hahead {t : ScopeTable} (hstack : Stacked t stack) :
        Grafts t ((visit stack n.ahead).run t).2 :=
      .visit (fun k hk {_} hstack => ihout (n.ahead_sublist.subset hk) hstack) hstack
    cases ho : n.opening with
    | none =>
      obtain ⟨hown, -⟩ := noteOwn_spec hstack n
      rw [collect_other stack ho]
      exact hown.trans (hahead (hstack.mono hown.grows))
    | some o =>
      rw [collect_opening ho]
      have hout := hahead hstack
      obtain ⟨-, henter⟩ := run_enter stack o ((visit stack n.ahead).run t).2
      have hin := Grafts.of_entered (hstack.mono hout.grows) henter
      refine hout.trans (hin.trans (.visit (fun k hk {_} hstack => ihin hk hstack) ?_))
      exact henter.stacked (hstack.mono hout.grows)

theorem stacked_start : Stacked start [0] :=
  ⟨List.cons_ne_nil _ _, List.forall_mem_singleton.mpr Nat.one_pos⟩

theorem grafts_analyze (p : Program) : Grafts start (analyze p) := grafts_collect p stacked_start

theorem isOrdered_analyze (p : Program) : IsOrdered (analyze p) := by
  intro i q hq
  have h := grafts_analyze p
  obtain ⟨s, hs, hparent⟩ := hq
  rcases Nat.lt_or_ge i start.scopes.length with hlt | hge
  · obtain ⟨s₀, hs₀, hext⟩ := h.grows.before hlt hs
    obtain rfl : i = 0 := Nat.lt_one_iff.mp hlt
    cases hs₀
    rw [hext.parent] at hparent
    cases hparent
  · obtain ⟨q', hlt, hq'⟩ := h.parent i hge (List.getElem?_eq_some_iff.mp hs).1
    obtain rfl := hq'.unique ⟨s, hs, hparent⟩
    exact hlt

theorem within_zero_analyze (p : Program) (hi : i < (analyze p).scopes.length) :
    Within (analyze p) 0 i := by
  rcases Nat.eq_zero_or_pos i with rfl | hpos
  · exact .refl
  · refine within_of_parents (m := 1) (fun i hi hi' => ?_) hpos hi
    obtain ⟨q, hlt, hq⟩ := (grafts_analyze p).parent i hi hi'
    exact ⟨q, hq, hlt, by omega⟩

/-- What the outermost scope binds is bound at every source range. -/
theorem isBoundAt_of_binds {p : Program} (h : Binds (analyze p) 0 x) (r : Span) :
    (analyze p).isBoundAt x r = true := by
  have hscope : (analyze p).scopeAt r < (analyze p).scopes.length := by
    have hpos : 0 < (analyze p).scopes.length :=
      Nat.lt_of_lt_of_le Nat.one_pos (grafts_analyze p).grows.length_le
    cases hr : r.isDummy with
    | true => rwa [scopeAt, if_pos hr]
    | false =>
      rcases scopeAt_spec (t := analyze p) hr with ⟨hzero, -⟩ | ⟨⟨-, s, hs, -⟩, -⟩
      · rwa [hzero]
      · exact (List.getElem?_eq_some_iff.mp hs).1
  have hsees := (within_zero_analyze p hscope).sees (.here h)
  obtain ⟨b, hb, hx⟩ := hsees.mem_visibleBindings (isOrdered_analyze p)
  exact List.any_eq_true.mpr ⟨b, hb, beq_iff_eq.mpr hx⟩

/-- What is recorded for one of several parts stays recorded. -/
theorem binds_visit {l : List (Sigma Node)} {k : Sigma Node} (hk : k ∈ l)
    (h : ∀ {t' : ScopeTable}, Grows t t' → Stacked t' stack →
      Binds ((collect stack k.2).run t').2 i x) (hstack : Stacked t stack) :
    Binds ((visit stack l).run t).2 i x := by
  induction l generalizing t with
  | nil => cases hk
  | cons k' l ih =>
    have hfirst := grafts_collect k'.2 hstack
    have hstack' := hstack.mono hfirst.grows
    rcases List.mem_cons.mp hk with rfl | hk
    · have hrest := Grafts.visit (l := l) (fun k _ {_} hstack => grafts_collect k.2 hstack) hstack'
      exact (h (.refl t) hstack).mono hrest.grows
    · exact ih hk (fun hg hstack => h (hfirst.grows.trans hg) hstack) hstack'

/-- Parts of a node without a scope of its own. -/
theorem binds_part {d : Cat} {k : Node d} (ho : n.opening = .none) (hk : ⟨d, k⟩ ∈ n.children)
    (h : ∀ {t' : ScopeTable}, Grows t t' → Stacked t' stack →
      Binds ((collect stack k).run t').2 i x) (hstack : Stacked t stack) :
    Binds ((collect stack n).run t).2 i x := by
  obtain ⟨hown, -⟩ := noteOwn_spec hstack n
  rw [collect_other stack ho, ahead_eq_children ho]
  exact binds_visit hk (fun hg hstack => h (hown.grows.trans hg) hstack) (hstack.mono hown.grows)

/-- What a node without a scope of its own declares itself. -/
theorem binds_own {reach : Reach} (ho : n.opening = .none) (hx : x ∈ n.ownBinds reach)
    (hstack : Stacked t stack) : Binds ((collect stack n).run t).2 (t.target stack reach) x := by
  obtain ⟨hown, hbinds⟩ := noteOwn_spec hstack n
  rw [collect_other stack ho]
  have hrest := Grafts.visit (l := n.ahead) (fun k _ {_} hstack => grafts_collect k.2 hstack)
    (hstack.mono hown.grows)
  exact (hbinds reach x hx).mono hrest.grows

/-- The `var` names of a scope that is no function's are those of what lies in it. -/
theorem mem_vars_inside {o : Opening} (ho : n.opening = .some o) (hopen : n.isFunctionLike = false)
    {id : Ident} (hid : id ∈ n.vars) : ∃ k ∈ n.inside, k.1.isProgram = false ∧ id ∈ k.2.vars := by
  cases n with
  | block => exact ⟨_, .head _, rfl, hid⟩
  | handler span target body =>
    cases body with
    | block => exact ⟨_, .tail _ (.head _), rfl, hid⟩
  | forStmt =>
    rcases List.mem_append.mp hid with hid | hid
    · exact ⟨_, .head _, rfl, hid⟩
    · exact ⟨_, .tail _ (.tail _ (.tail _ (.head _))), rfl, hid⟩
  | forInStmt | forOfStmt =>
    rcases List.mem_append.mp hid with hid | hid
    · exact ⟨_, .head _, rfl, hid⟩
    · exact ⟨_, .tail _ (.tail _ (.head _)), rfl, hid⟩
  | _ => first | exact Bool.noConfusion hopen | cases ho

/-- A `var` is recorded in the function around it. -/
theorem binds_vars (hc : c.isProgram = false) (n : Node c) {id : Ident} (hid : id ∈ n.vars)
    (hstack : Stacked t stack) :
    Binds ((collect stack n).run t).2 (t.target stack .function) id.name := by
  induction n using scopeInduction generalizing stack t with
  | @step c n ihout ihin =>
    cases hfun : n.isFunctionLike with
    | true =>
      have hnone : n.vars = [] := by
        cases n <;> first | rfl | exact Bool.noConfusion hfun
      rw [hnone] at hid
      cases hid
    | false =>
      cases ho : n.opening with
      | none =>
        rw [vars_eq hc hfun, List.mem_append, List.mem_flatMap] at hid
        rcases hid with hid | ⟨k, hk, hid⟩
        · refine binds_own ho ?_ hstack
          cases n with
          | varDecl span ctxt kind declare decls =>
            rw [ownVars] at hid
            split at hid
            next hkind =>
              subst hkind
              exact List.mem_map_of_mem hid
            next => cases hid
          | _ => cases hid
        · refine binds_part ho hk (fun hg hstack' => ?_) hstack
          rw [← hstack.target_eq hg]
          rw [← ahead_eq_children ho] at hk
          exact ihout (n.ahead_sublist.subset hk) (isProgram_of_mem_children hc
            (ahead_eq_children ho ▸ hk)) hid hstack'
      | some o =>
        obtain ⟨k, hk, hkc, hid⟩ := mem_vars_inside ho hfun hid
        have hkind : (o.kind == .function || o.kind == .program) = false := by
          cases n <;> cases ho <;> first | rfl | exact Bool.noConfusion hfun
        rw [collect_opening ho]
        have hout : Grafts t ((visit stack n.ahead).run t).2 :=
          .visit (fun k _ {_} hstack => grafts_collect k.2 hstack) hstack
        have hstack' := hstack.mono hout.grows
        obtain ⟨-, henter⟩ := run_enter stack o ((visit stack n.ahead).run t).2
        have htarget := henter.target_eq hstack'
        rw [hkind, if_neg Bool.false_ne_true, hstack.target_eq hout.grows] at htarget
        refine binds_visit hk (fun hg hstack'' => ?_) (henter.stacked hstack')
        rw [← htarget, ← (henter.stacked hstack').target_eq hg]
        exact ihin hk hkc hid hstack''

/-- What a tree declares around it is recorded in the innermost scope, unless it is a resource or the
name of a default export. -/
theorem binds_shows (n : Node c) (hx : n.Shows x) (hseen : x ∉ n.unrecorded.map (·.name))
    (hstack : Stacked t [0]) : Binds ((collect [0] n).run t).2 0 x := by
  induction n using partsInduction generalizing t with
  | @step c n ih =>
    have part {d : Cat} {k : Node d} (ho : n.opening = .none) (hk : ⟨d, k⟩ ∈ n.children)
        (hx : k.Shows x) (hseen : x ∉ k.unrecorded.map (·.name)) :
        Binds ((collect [0] n).run t).2 0 x :=
      binds_part ho hk (fun _ hstack => ih hk hx hseen hstack) hstack
    have own (reach : Reach) (ho : n.opening = .none) (htarget : t.target [0] reach = 0)
        (hx : x ∈ n.ownBinds reach) : Binds ((collect [0] n).run t).2 0 x := by
      have hbinds := binds_own ho hx hstack
      rwa [htarget] at hbinds
    cases hn : n.ownSurface with
    | none =>
      cases n with
      | cons a l =>
        have hparts : x ∉ a.unrecorded.map (·.name) ∧ x ∉ l.unrecorded.map (·.name) := by
          rw [← not_or, ← List.mem_append, ← List.map_append]
          exact hseen
        exact ((shows_cons a l).mp hx).elim (part rfl (.head _) · hparts.1)
          (part rfl (.tail _ (.head _)) · hparts.2)
      | some | declStmt | stmtItem | exportDecl => exact part rfl (.head _) hx hseen
      | initDecl v | headDecl v | declVar v =>
        have hnone : v.unrecorded = [] := by cases v; rfl
        exact part rfl (.head _) hx (by simp [hnone])
      | clause => exact part rfl (.tail _ (.head _)) hx hseen
      | labeledStmt => exact part rfl (.head _) ((shows_labeledStmt _ _ _).mp hx) hseen
      | headUsing | declUsing =>
        obtain ⟨id, hid, rfl⟩ := shows_using.mp hx
        exact absurd (List.mem_map_of_mem hid) hseen
      | varDecl span ctxt kind declare decls =>
        obtain ⟨hkind, id, hid, rfl⟩ := (shows_varDecl _ _ _ _ _).mp hx
        refine own .scope rfl rfl ?_
        simp only [ownBinds, ownBindings, if_neg hkind, if_true]
        exact List.mem_map_of_mem hid
      | _ => cases hn
    | some l =>
      obtain ⟨d, hd, rfl⟩ := hx
      cases n with
      | declFunc | declClass =>
        rw [List.mem_singleton.mp hd] at own ⊢
        exact own .scope rfl rfl (.head _)
      | importItem i =>
        obtain ⟨a, ha, rfl⟩ := List.mem_map.mp hd
        refine own .program rfl rfl ?_
        exact List.mem_map_of_mem (f := Ident.name) (List.mem_map_of_mem ha)
      | exportFunc span name f | exportClass span name f =>
        obtain ⟨id, hid, rfl⟩ := List.mem_map.mp hd
        exact absurd (List.mem_map_of_mem hid) hseen
      | _ => first | cases hd | cases hn

/-- A name that a program declares at its top level is bound everywhere, unless it is a resource or
the name of a default export. -/
theorem isBoundAt_of_mem_topLevel {p : Program} (hx : x ∈ p.topLevel.map (·.name))
    (hseen : x ∉ p.unrecorded.map (·.name)) (r : Span) : (analyze p).isBoundAt x r = true := by
  refine isBoundAt_of_binds ?_ r
  have key {c : Cat} {l : Node c} (hc : c.isProgram = false) (ho : p.opening = .none)
      (hl : ⟨c, l⟩ ∈ p.children) (hx : x ∈ (l.lexicals ++ l.vars).map (·.name))
      (hseen : x ∉ l.unrecorded.map (·.name)) : Binds (analyze p) 0 x := by
    refine binds_part ho hl (fun hg hstack => ?_) stacked_start
    rw [List.map_append, List.mem_append] at hx
    rcases hx with hx | hx
    · rw [lexicals, List.map_map] at hx
      obtain ⟨d, hd, hdx⟩ := List.mem_map.mp hx
      exact binds_shows l ⟨d, hd, hdx⟩ hseen hstack
    · obtain ⟨id, hid, rfl⟩ := List.mem_map.mp hx
      have htarget : ScopeTable.target _ [0] .function = 0 := stacked_start.target_eq hg .function
      have hbinds := binds_vars hc l hid hstack
      rwa [htarget] at hbinds
  cases p with
  | moduleProgram => exact key rfl rfl (.head _) hx hseen
  | scriptProgram => exact key rfl rfl (.head _) hx hseen

end ScopeTable

end PlainJs

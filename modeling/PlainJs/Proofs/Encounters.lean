import PlainJs.Proofs.Carried
import PlainJs.Proofs.Declarations.Runs
import PlainJs.Proofs.Sites

namespace PlainJs

open Node

/-- Between the contexts `s` and `t` a computation is run. -/
def Lower.RunsBetween {α : Type} (s t : Context) (x : Lower α) : Prop :=
  ∃ u : Context, s.Steps u ∧ (x.run u).2.Steps t

namespace Lower.RunsBetween

variable {α : Type} {x : Lower α} {s s' t t' : Context}

theorem mono (h : RunsBetween s t x) (hs : s'.Steps s) (ht : t.Steps t') : RunsBetween s' t' x := by
  obtain ⟨u, hu, ht'⟩ := h
  exact ⟨u, hs.trans hu, ht'.trans ht⟩

end Lower.RunsBetween

open Lower (RunsBetween)

variable {c : Cat} {s : Context}

/-- A pass from the inside out comes to every statement of a tree, once its parts are rewritten. -/
theorem Rewrites.runsBetween_bottomUp {known : List Diagnostic} {f : Stmt → Lower Stmt}
    {form : ∀ {c : Cat}, Node c → Bool} (hf : Rewrites known f form) (n : Node c) (s : Context)
    {k : Stmt} (hk : ⟨.stmt, k⟩ ∈ n.nodes) : ∃ k' : Stmt, Parts (fun _ _ => True) k k' ∧
      RunsBetween s ((Lower.bottomUp f n).run s).2 (f k') := by
  obtain ⟨u, hu, hend⟩ := hf.exists_run hk s
  rw [Rewrites.run_bottomUp k] at hend
  exact ⟨_, parts_traverse lowering (fun _ _ _ => trivial) u, _, hu.trans (hf.steps_traverse k u), hend⟩

namespace Node

/-- The ranges of the declarators of a declaration that collect the remaining properties of an
object. -/
def restSpans : {c : Cat} → Node c → List Span
  | _, .cons a l => a.restSpans ++ l.restSpans
  | _, .declarator span _ target _ => if target.hasObjectRest then [span] else []
  | _, .varDecl _ _ _ _ decls => decls.restSpans
  | _, _ => []

/-- Trees that collect the remaining properties of objects in the same places. -/
structure SameRests {c : Cat} (n n' : Node c) : Prop where
  rest : n.hasObjectRest = n'.hasObjectRest
  spans : n.restSpans = n'.restSpans

theorem SameRests.of_parts {n n' : Node c} (h : Parts SameRests n n') : SameRests n n' := by
  cases n
  all_goals
    first
      | obtain rfl := h
        exact ⟨rfl, rfl⟩
      | obtain ⟨a, ha, rfl⟩ := h
        exact ⟨by first | rfl | exact ha.rest, by first | rfl | exact ha.spans⟩
      | obtain ⟨a, ha, b, hb, rfl⟩ := h
        refine ⟨?_, ?_⟩
        · first
            | rfl
            | exact ha.rest
            | exact hb.rest
            | exact congrArg₂ (· || ·) ha.rest hb.rest
        · first
            | rfl
            | exact congrArg₂ (· ++ ·) ha.spans hb.spans
            | simp only [restSpans, ha.rest]
      | obtain ⟨a, ha, b, hb, c, hc, h⟩ := h
        first
          | obtain rfl := h
          | obtain ⟨d, hd, rfl⟩ := h
        exact ⟨rfl, rfl⟩

theorem rests_of_isMute (hc : c.isMute = true) (n : Node c) :
    n.hasObjectRest = false ∧ n.restSpans = [] := by
  induction n with
  | cons a l iha ihl =>
    change (a.hasObjectRest || l.hasObjectRest) = false ∧ a.restSpans ++ l.restSpans = []
    rw [(iha hc).1, (iha hc).2, (ihl hc).1, (ihl hc).2]
    exact ⟨rfl, rfl⟩
  | _ => first | exact ⟨rfl, rfl⟩ | cases hc

theorem SameRests.of_isMute (hc : c.isMute = true) (n n' : Node c) : SameRests n n' := by
  obtain ⟨hrest, hspans⟩ := rests_of_isMute hc n
  obtain ⟨hrest', hspans'⟩ := rests_of_isMute hc n'
  exact ⟨hrest.trans hrest'.symm, hspans.trans hspans'.symm⟩

theorem mem_restSpans {v : VarDecl} {span : Span} : span ∈ v.restSpans ↔
    ∃ definite target init, declarator span definite target init ∈ v.declarators ∧
      target.hasObjectRest = true := by
  have hlist (l : Node (.list .declarator)) : span ∈ l.restSpans ↔
      ∃ definite target init, declarator span definite target init ∈ l.toList ∧
        target.hasObjectRest = true := by
    rw [← ofList_toList l, toList_ofList]
    induction l.toList with
    | nil =>
      constructor
      · intro h
        cases h
      · rintro ⟨_, _, _, h, -⟩
        cases h
    | cons a l ih =>
      cases a with
      | declarator at_ definite target init =>
        change span ∈ (if target.hasObjectRest then [at_] else []) ++ (ofList l).restSpans ↔ _
        rw [List.mem_append, ih]
        constructor
        · rintro (h | ⟨definite', target', init', hmem, htarget⟩)
          · split at h
            next htarget =>
              obtain rfl := List.mem_singleton.mp h
              exact ⟨definite, target, init, .head _, htarget⟩
            next => cases h
          · exact ⟨definite', target', init', .tail _ hmem, htarget⟩
        · rintro ⟨definite', target', init', hmem, htarget⟩
          cases hmem with
          | head => exact .inl (by rw [if_pos htarget]; exact .head _)
          | tail _ hmem => exact .inr ⟨definite', target', init', hmem, htarget⟩
  cases v with
  | varDecl _ _ _ _ decls => exact hlist decls

theorem needsSplit_of_mem_restSpans {v : VarDecl} {span : Span} (h : span ∈ v.restSpans) :
    v.needsSplit = true := by
  obtain ⟨definite, target, init, hmem, htarget⟩ := mem_restSpans.mp h
  have hbinder : target.isBinder = false := by cases target <;> first | rfl | cases htarget
  rw [needsSplit, Bool.or_eq_true, List.any_eq_true]
  exact .inr ⟨_, hmem, by simp [declTarget, hbinder]⟩

end Node

theorem sameRests_splitDeclarations (n : Node c) (s : Context) :
    SameRests n ((splitDeclarations n).run s).1 := by
  induction c, n using splitDeclarations.induct generalizing s with
  | case1 | case2 | case3 | case4 => exact .of_isMute rfl _ _
  | case5 c n h₁ h₂ h₃ h₄ ih =>
    rw [splitDeclarations.eq_5 n h₁ h₂ h₃ h₄]
    exact .of_parts (parts_traverse lowering (fun k hk s => ih k hk s) s)

theorem steps_splitIfNeeded (v : VarDecl) (s : Context) :
    s.Steps ((Declarations.splitIfNeeded v).run s).2 := by
  unfold Declarations.splitIfNeeded
  split
  · exact Declarations.steps_split v s
  · exact .refl

theorem steps_splitDeclarations (n : Node c) (s : Context) :
    s.Steps ((splitDeclarations n).run s).2 := by
  let w : Measure [] := (Weight.offences [] []).toMeasure
  have hturn : w.Turns w isDeclVar := ⟨rfl, rfl, fun _ => rfl, fun _ => rfl⟩
  exact (costs_splitDeclarations (T := .free) hturn (fun _ => rfl) n (.inr fun _ _ => rfl) .top s
    trivial).1.steps

namespace Declarations

/-- Between the contexts `s` and `t` a declaration is split that has an object rest in the declarator
with the range `span`. -/
def SplitsRest (span : Span) (s t : Context) : Prop :=
  ∃ v : VarDecl, span ∈ v.restSpans ∧ RunsBetween s t (split v)

variable {span : Span} {s' t t' : Context} {v w : VarDecl}

theorem SplitsRest.mono (h : SplitsRest span s t) (hs : s'.Steps s) (ht : t.Steps t') :
    SplitsRest span s' t' := by
  obtain ⟨v, hspan, hruns⟩ := h
  exact ⟨v, hspan, hruns.mono hs ht⟩

/-- Splitting a declaration comes to every declarator. -/
theorem runsBetween_split {a : Declarator} (ha : a ∈ v.declarators) (s : Context) :
    ∃ span ctxt kind declare,
      RunsBetween s ((split v).run s).2 (splitDeclarator span ctxt kind declare a) := by
  cases v with
  | varDecl span ctxt kind declare decls =>
    refine ⟨span, ctxt, kind, declare, ?_⟩
    change RunsBetween s ((decls.toList.mapM (splitDeclarator span ctxt kind declare)).run s).2 _
    replace ha : a ∈ decls.toList := ha
    generalize decls.toList = l at ha
    induction l generalizing s with
    | nil => cases ha
    | cons b l ih =>
      rw [List.mapM_cons]
      cases ha with
      | head => exact ⟨s, .refl, steps_splitDeclarators span ctxt kind declare l _⟩
      | tail _ ha => exact (ih _ ha).mono (steps_splitDeclarator span ctxt kind declare b s) .refl

/-- A declaration is split as far as it has to be once the parts of it are done. -/
def splitWhole (v : VarDecl) (s : Context) : List Stmt × Context :=
  let r := (splitDeclarations v).run s
  (splitIfNeeded r.1).run r.2

theorem steps_splitWhole (v : VarDecl) (s : Context) : s.Steps (splitWhole v s).2 :=
  (steps_splitDeclarations v s).trans (steps_splitIfNeeded _ _)

theorem splitsRest_splitWhole (hspan : span ∈ v.restSpans)
    (hv : ⟨.decl, declVar v⟩ ∈ (declVar w).nodes)
    (ih : ⟨.decl, declVar v⟩ ∈ w.nodes → SplitsRest span s ((splitDeclarations w).run s).2) :
    SplitsRest span s (splitWhole w s).2 := by
  rcases mem_nodes.mp hv with heq | ⟨m, hm, hv⟩
  · cases heq
    have hspan' := (sameRests_splitDeclarations v s).spans ▸ hspan
    rw [splitWhole, splitIfNeeded, if_pos (needsSplit_of_mem_restSpans hspan')]
    exact ⟨_, hspan', _, steps_splitDeclarations v s, .refl⟩
  · obtain rfl := List.mem_singleton.mp hm
    exact (ih hv).mono .refl (steps_splitIfNeeded _ _)

theorem run_splitDeclarations_export (span : Span) (v : VarDecl) (rest : Node (.list .item))
    (s : Context) : ((splitDeclarations (cons (.exportDecl span (.declVar v)) rest)).run s).2 =
      ((splitDeclarations rest).run (splitWhole v s).2).2 := by
  rw [splitDeclarations, splitWhole, splitIfNeeded, StateT.run_bind]
  change (StateT.run (if ((splitDeclarations v).run s).1.needsSplit then _ else _ :
    Lower (Node (.list .item))) ((splitDeclarations v).run s).2).2 = _
  split <;> rfl

theorem run_splitDeclarations_declStmt (v : VarDecl) (s : Context) :
    ((splitDeclarations (declStmt (.declVar v))).run s).2 = (splitWhole v s).2 := by
  rw [splitDeclarations, splitWhole, splitIfNeeded, StateT.run_bind]
  change (StateT.run (if ((splitDeclarations v).run s).1.needsSplit then _ else _ :
    Lower Stmt) ((splitDeclarations v).run s).2).2 = _
  split <;> rfl

theorem exists_part_of_mem_nodes {n : Node c} (hv : ⟨.decl, declVar v⟩ ∈ n.nodes) (hc : c ≠ .decl) :
    ∃ m ∈ n.children, ⟨.decl, declVar v⟩ ∈ m.2.nodes := by
  rcases mem_nodes.mp hv with heq | hpart
  · exact absurd (congrArg Sigma.fst heq).symm hc
  · exact hpart

theorem mem_nodes_of_single {d : Cat} {n : Node c} {k : Node d}
    (hv : ⟨.decl, declVar v⟩ ∈ n.nodes) (hparts : n.children = [⟨d, k⟩]) (hc : c ≠ .decl) :
    ⟨.decl, declVar v⟩ ∈ k.nodes := by
  obtain ⟨m, hm, hv⟩ := exists_part_of_mem_nodes hv hc
  rw [hparts] at hm
  obtain rfl := List.mem_singleton.mp hm
  exact hv

/-- What comes of a list whose first element declares variables. -/
theorem splitsRest_cons {a : Node c} {rest : Node (.list c)} (hspan : span ∈ v.restSpans)
    (hv : ⟨.decl, declVar v⟩ ∈ (cons a rest).nodes)
    (ha : ⟨.decl, declVar v⟩ ∈ a.nodes → ⟨.decl, declVar v⟩ ∈ (declVar w).nodes)
    (ihw : ⟨.decl, declVar v⟩ ∈ w.nodes →
      ∀ s, SplitsRest span s ((splitDeclarations w).run s).2)
    (ihrest : ⟨.decl, declVar v⟩ ∈ rest.nodes →
      ∀ s, SplitsRest span s ((splitDeclarations rest).run s).2) (s : Context) :
    SplitsRest span s ((splitDeclarations rest).run (splitWhole w s).2).2 := by
  obtain ⟨m, hm, hv⟩ := exists_part_of_mem_nodes hv nofun
  rcases List.mem_pair.mp hm with rfl | rfl
  · exact (splitsRest_splitWhole hspan (ha hv) fun hv => ihw hv s).mono .refl
      (steps_splitDeclarations _ _)
  · exact (ihrest hv _).mono (steps_splitWhole w s) .refl

/-- The pass that splits declarations comes to every declaration of a tree that collects the
remaining properties of an object, the heads of loops apart. -/
theorem splitsRest_splitDeclarations (hspan : span ∈ v.restSpans) (n : Node c)
    (hloose : n.isLoose = true) (hv : ⟨.decl, declVar v⟩ ∈ n.nodes) (s : Context) :
    SplitsRest span s ((splitDeclarations n).run s).2 := by
  induction c, n using splitDeclarations.induct generalizing s with
  | case1 w rest ihw ihrest =>
    rw [splitDeclarations]
    exact splitsRest_cons hspan hv (fun hv => mem_nodes_of_single hv rfl (by decide))
      (ihw (isLoose_of_isClosed rfl)) (ihrest (isLoose_of_isClosed rfl)) s
  | case2 w rest ihw ihrest =>
    rw [splitDeclarations]
    exact splitsRest_cons hspan hv
      (fun hv => mem_nodes_of_single (mem_nodes_of_single hv rfl (by decide)) rfl (by decide))
      (ihw (isLoose_of_isClosed rfl)) (ihrest (isLoose_of_isClosed rfl)) s
  | case3 at_ w rest ihw ihrest =>
    rw [run_splitDeclarations_export]
    exact splitsRest_cons hspan hv (fun hv => mem_nodes_of_single hv rfl (by decide))
      (ihw (isLoose_of_isClosed rfl)) (ihrest (isLoose_of_isClosed rfl)) s
  | case4 w ihw =>
    rw [run_splitDeclarations_declStmt]
    exact splitsRest_splitWhole hspan (mem_nodes_of_single hv rfl (by decide)) fun hv =>
      ihw (isLoose_of_isClosed rfl) hv s
  | case5 c n h₁ h₂ h₃ h₄ ih =>
    rcases mem_nodes.mp hv with heq | ⟨⟨d, m⟩, hm, hv⟩
    · cases heq
      cases hloose
    rw [splitDeclarations.eq_5 n h₁ h₂ h₃ h₄]
    obtain ⟨t, ht, hrun, -⟩ := Lower.exists_visit steps_splitDeclarations hm s
    exact (ih m hm (isLoose_part hloose h₃ h₄ hm) hv t).mono ht hrun

end Declarations

end PlainJs

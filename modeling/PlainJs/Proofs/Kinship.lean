import PlainJs.Proofs.Builders
import PlainJs.Proofs.Jumps

namespace PlainJs

open Effect Run Interp

/-- Whether trees of a category count as code, which is compared by what its surroundings see of it.
Where functions stand, `closed` tells whether what leaves a block is the same on both sides. -/
def Cat.IsCode (closed : Prop) : Cat → Prop
  | .stmt | .clause | .handler | .item | .program => False
  | .block | .arrowBody => closed
  | .list c | .opt c => c.IsCode closed
  | _ => True

namespace Node

/-- Whether a tree is run by a rule of its own form, rather than as a leaf. -/
def isRun : {c : Cat} → Node c → Bool
  | _, .nil | _, .cons .. | _, .none | _, .some _ | _, .block .. | _, .blockStmt _
  | _, .emptyStmt _ | _, .exprStmt .. | _, .withStmt .. | _, .returnStmt .. | _, .throwStmt ..
  | _, .labeledStmt .. | _, .breakStmt .. | _, .continueStmt .. | _, .ifStmt ..
  | _, .switchStmt .. | _, .tryStmt .. | _, .whileStmt .. | _, .doWhileStmt .. | _, .forStmt ..
  | _, .forInStmt .. | _, .forOfStmt .. | _, .declStmt _ | _, .declVar _ | _, .initDecl _
  | _, .initExpr _ | _, .varDecl .. | _, .clause .. | _, .handler .. | _, .blockBody _
  | _, .stmtItem _ | _, .exportDecl .. | _, .moduleProgram .. | _, .scriptProgram .. => true
  | _, _ => false

theorem Parts.isRun_eq {P : ∀ {d : Cat}, Node d → Node d → Prop} {c : Cat} {n n' : Node c}
    (h : Parts P n n') : n.isRun = n'.isRun :=
  h.form_eq isRun fun m => by cases m <;> rfl

/-- Whether a tree is neither a jump nor anything that a jump finds its end in. -/
def isPlain : {c : Cat} → Node c → Bool
  | _, .returnStmt .. | _, .labeledStmt .. | _, .breakStmt .. | _, .continueStmt ..
  | _, .switchStmt .. => false
  | _, n => !n.isLoop

/-- How a jump with no more to do ends. -/
def ownJump? {V : Type} : {c : Cat} → Node c → Option (Completion V)
  | _, .breakStmt _ label => Option.some (.break (label.map (·.name)))
  | _, .continueStmt _ label => Option.some (.continue (label.map (·.name)))
  | _, _ => Option.none

theorem mapLoopBody_id {c : Cat} (n : Node c) : n.mapLoopBody id = n := by cases n <;> rfl

theorem isCode_of_mem_children {closed : Prop} {c d : Cat} {n : Node c} {k : Node d}
    (hn : c.IsCode closed ∨ n.isRun = false) (hblock : c ≠ .block)
    (hfun : n.isFunctionLike = true → closed) (hk : ⟨d, k⟩ ∈ n.children) : d.IsCode closed := by
  have key : ∀ k ∈ n.children, k.1.IsCode closed := by
    cases n with
    | block => exact absurd rfl hblock
    | _ =>
      repeat' first
        | exact List.forall_mem_nil _
        | refine List.forall_mem_cons.2 ⟨?_, ?_⟩
        | exact trivial
        | exact hfun rfl
        | exact hn.resolve_right Bool.noConfusion
        | exact (hn.resolve_right Bool.noConfusion).elim
  exact key _ hk

end Node

section

variable {U V : Type} (I : Interp U V) (temps : List String)

theorem codeOf_eq_of_parts {c : Cat} {n n' : Node c} (hc : c ≠ .block)
    (h : Node.Parts (fun k k' => codeOf I temps k = codeOf I temps k') n n') :
    codeOf I temps n = codeOf I temps n' := by
  refine Prod.ext ?_ ?_
  · simp only [codeOf, Node.skeleton_eq_mapParts hc]
    exact h.mapParts_eq fun hk => congrArg Prod.fst hk
  · simp only [codeOf, meanings_eq_flatMap I temps hc]
    exact Node.flatMap_eq_of_paired h.children fun hk => congrArg Prod.snd hk

/-- What two runs are compared by: how their states and their ends are related. -/
structure Comparison (U V : Type) where
  Index : Type
  state : Index → State U V → State U V → Prop
  result : Completion V → Completion V → Prop
  neutral : ∀ i, Neutral (state i)
  start : ∀ s, ∃ i, state i s s
  transparent : Transparent result
  /-- How the functions inside are compared. -/
  nested : List (Body U V) → List (Body U V) → Prop
  nested_refl : ∀ l, nested l l
  nested_append : ∀ {l l' m m'}, nested l l' → nested m m' → nested (l ++ m) (l' ++ m')

namespace Comparison

/-- Both runs end in the same way. -/
def Closed (K : Comparison U V) : Prop := ∀ c c', K.result c c' → c = c'

/-- Trees whose code keeps the relation between the states: any tree if the states are equal, and
otherwise a tree without temporaries. -/
def Tame (K : Comparison U V) {c : Cat} (n : Node c) : Prop :=
  (∀ i s s', K.state i s s' ↔ s = s') ∨ n.Clear temps

/-- Two trees that stand for each other. Statements are compared by their runs, under labels in `L`,
and code by what its surroundings see of it. -/
structure Kin (K : Comparison U V) (L : List String → Prop) {c : Cat} (n n' : Node c) : Prop where
  exec : ∀ i labels, L labels →
    Sim (K.state i) K.result (exec I temps labels n) (exec I temps labels n')
  declare : ∀ i kind,
    Sim (K.state i) K.result (declare I temps kind n) (declare I temps kind n')
  cases : ∀ i, List.Forall₂ (CaseAlike (K.state i) K.result) (cases I temps n) (cases I temps n')
  catching : ∀ i, Option.Rel (fun k k' => ∀ v, Sim (K.state i) K.result (k v) (k' v))
    (catching I temps n) (catching I temps n')
  code : c.IsCode K.Closed → codeOf I temps n = codeOf I temps n'
  nested : K.nested (I.functionMeanings temps n) (I.functionMeanings temps n')

variable {I temps} {K : Comparison U V} {L : List String → Prop}

theorem Tame.part {c d : Cat} {n : Node c} {k : Node d} (h : K.Tame temps n)
    (hk : ⟨d, k⟩ ∈ n.children) : K.Tame temps k :=
  h.imp_right fun hclear => hclear.part hk

theorem Tame.keep {A : Type} {c : Cat} {n : Node c} {x : Action (State U V) V A}
    (h : K.Tame temps n) (i : K.Index)
    (hx : n.Clear temps → ∀ {R : State U V → State U V → Prop}, Neutral R → x.Keep R x) :
    x.Keep (K.state i) x := by
  rcases h with hexact | hclear
  · have hi : K.state i = Eq := by
      funext s s'
      exact propext (hexact i s s')
    rw [hi]
    exact Sim.refl x.run
  · exact hx hclear (K.neutral i)

theorem keep_value {e e' : Expr} (h : K.Tame temps e) (i : K.Index)
    (he : codeOf I temps e = codeOf I temps e') :
    (value I temps e).Keep (K.state i) (value I temps e') := by
  rw [value_eq, value_eq, ← he]
  exact h.keep i fun hclear _ hR => keep_eval hR hclear.skeleton _

theorem bodyOf_eq {x x' : Effect (State U V) (Completion V)} (hK : K.Closed)
    (h : ∀ i, Sim (K.state i) K.result x x') : I.bodyOf x = I.bodyOf x' := by
  funext u
  obtain ⟨i, hi⟩ := K.start ⟨u, fun _ => I.undefined⟩
  refine Alike.eq ((h i _ _ hi).map ?_)
  rintro ⟨c, s⟩ ⟨c', s'⟩ ⟨hc, hs⟩
  exact Prod.ext (hK c c' hc) ((K.neutral i).user_eq hs)

theorem codeOf_block (span : Span) (ctxt : Nat) (stmts : Node (.list .stmt)) :
    codeOf I temps (.block span ctxt stmts) =
      (.block span ctxt .nil, [I.bodyOf (Interp.exec I temps [] stmts)]) := by
  rw [codeOf, meanings_eq, Node.skeleton, Node.bodies]
  rfl

theorem Kin.code_of_parts {c : Cat} {n n' : Node c} (hL : L []) (hf : n.isFunctionLike = true → K.Closed)
    (h : Node.Parts (K.Kin I temps L) n n') (hc : c.IsCode K.Closed ∨ n.isRun = false) :
    codeOf I temps n = codeOf I temps n' := by
  by_cases hblock : c = .block
  · subst hblock
    cases n with
    | block span ctxt stmts =>
      obtain ⟨stmts', hs, rfl⟩ := h
      rw [codeOf_block, codeOf_block, bodyOf_eq (hc.resolve_right Bool.noConfusion) fun i => hs.exec i [] hL]
  · refine codeOf_eq_of_parts I temps hblock (h.imp fun hk hkin => hkin.code ?_)
    exact Node.isCode_of_mem_children hc hblock hf hk

theorem exec_leaf {c : Cat} {n : Node c} (h : n.isRun = false) (labels : List String) :
    Interp.exec I temps labels n =
      evaluating (lift (I.leaf (codeOf I temps n).1 (codeOf I temps n).2)) fun _ => done := by
  unfold Interp.exec
  cases n <;> first | exact Bool.noConfusion h | rfl

theorem codeOf_opt_cases {c : Cat} {o o' : Node (.opt c)} (h : codeOf I temps o = codeOf I temps o') :
    o = .none ∧ o' = .none ∨
      ∃ a a', o = .some a ∧ o' = .some a' ∧ codeOf I temps a = codeOf I temps a' := by
  cases o with
  | none =>
    cases o' with
    | none => exact .inl ⟨rfl, rfl⟩
    | some a' => rw [codeOf_none, codeOf_some] at h; cases h
  | some a =>
    cases o' with
    | none => rw [codeOf_none, codeOf_some] at h; cases h
    | some a' =>
      rw [codeOf_some, codeOf_some, Prod.mk.injEq] at h
      exact .inr ⟨a, a', rfl, rfl, Prod.ext (Node.some.inj h.1) h.2⟩

theorem keep_valueOr {o o' : Node (.opt .expr)} (v : V) (h : K.Tame temps o) (i : K.Index)
    (ho : codeOf I temps o = codeOf I temps o') :
    (I.valueOr temps v o).Keep (K.state i) (I.valueOr temps v o') := by
  rcases codeOf_opt_cases ho with ⟨rfl, rfl⟩ | ⟨e, e', rfl, rfl, he⟩
  · rw [valueOr_none]
    exact .pure v
  · rw [valueOr_some, valueOr_some]
    exact keep_value (h.part (.head _)) i he

theorem keep_bindName {R : State U V → State U V → Prop} (hR : Neutral R) {id : Ident}
    (h : id.name ∉ temps) (kind : VarKind) (v : Option V) :
    (I.bindName temps kind id v).Keep R (I.bindName temps kind id v) := by
  rw [bindName, if_neg h]
  exact keep_lift hR _

theorem keep_bindDeclarator {R : State U V → State U V → Prop} (hR : Neutral R) {d : Declarator}
    (h : d.Clear temps) (kind : VarKind) (bs : List (Body U V)) :
    (I.bindDeclarator temps kind bs d).Keep R (I.bindDeclarator temps kind bs d) := by
  cases d with
  | declarator span definite p init =>
    have hp := h.part (.head _)
    have hinit := h.part (.tail _ (.head _))
    cases p with
    | binder id =>
      have hid : id.name ∉ temps := hp.own (.head _)
      cases init with
      | none => exact keep_bindName hR hid _ _
      | some e =>
        exact (keep_eval hR (hinit.part (.head _)) _).bind fun _ => keep_bindName hR hid _ _
    | _ => exact keep_lift hR _

theorem keep_bindCaught {R : State U V → State U V → Prop} (hR : Neutral R) {p : Pat}
    (h : p.Clear temps) (bs : List (Body U V)) (v : V) :
    (I.bindCaught temps bs v p).Keep R (I.bindCaught temps bs v p) := by
  unfold bindCaught
  split
  · rw [if_neg (h.own (.head _))]
    exact keep_lift hR _
  · exact keep_lift hR _

variable {c : Cat} {n n' : Node c}

theorem sim_modify {R : State U V → State U V → Prop} (hR : Neutral R) (f : U → U) :
    Sim R Eq (modify fun s => { s with user := f s.user })
      (modify fun s => { s with user := f s.user }) := by
  intro s s' hs
  refine Alike.some ⟨rfl, ?_⟩
  change R ⟨f s.user, s.temps⟩ ⟨f s'.user, s'.temps⟩
  rw [← hR.user_eq hs]
  exact hR.update (f s.user) hs

theorem Kin.exec_of_parts (hL : L []) (ht : K.Tame temps n)
    (hf : n.isFunctionLike = true → K.Closed) (hn : n.isPlain = true)
    (h : Node.Parts (K.Kin I temps L) n n') (i : K.Index) (labels : List String) :
    Sim (K.state i) K.result (I.exec temps labels n) (I.exec temps labels n') := by
  have hK := K.transparent
  cases hrun : n.isRun with
  | false =>
    have hrun' : n'.isRun = false := h.isRun_eq ▸ hrun
    rw [exec_leaf hrun, exec_leaf hrun', code_of_parts hL hf h (.inr hrun)]
    exact sim_evaluating (keep_lift (K.neutral i) _) hK.throw fun _ => .pure hK.normal
  | true =>
    cases n with
    | nil | none | emptyStmt =>
      obtain rfl := h
      simp only [exec_nil, exec_none, exec_emptyStmt]
      exact .pure hK.normal
    | cons a l =>
      obtain ⟨a', ha, l', hl, rfl⟩ := h
      rw [exec_cons, exec_cons]
      exact sim_seq hK (ha.exec i [] hL) (hl.exec i [] hL)
    | some | block | blockStmt | declStmt | declVar | initDecl | blockBody | stmtItem
    | exportDecl | moduleProgram | scriptProgram =>
      obtain ⟨k', hk, rfl⟩ := h
      simp only [exec_some, exec_block, exec_blockStmt, exec_declStmt, exec_declVar, exec_initDecl,
        exec_blockBody, exec_stmtItem, exec_exportDecl, exec_moduleProgram, exec_scriptProgram]
      exact hk.exec i [] hL
    | clause | handler =>
      obtain ⟨_, _, k', hk, rfl⟩ := h
      simp only [exec_clause, exec_handler]
      exact hk.exec i [] hL
    | exprStmt | initExpr =>
      obtain ⟨e', he, rfl⟩ := h
      simp only [exec_exprStmt, exec_initExpr]
      exact sim_evaluating (keep_value (ht.part (.head _)) i (he.code trivial)) hK.throw
        fun _ => .pure hK.normal
    | withStmt span o body =>
      obtain ⟨o', ho, body', hbody, rfl⟩ := h
      rw [exec_withStmt, exec_withStmt]
      have henter := (keep_value (ht.part (.head _)) i (ho.code trivial)).bind
        fun v => keep_lift (K.neutral i) (I.enterWith v)
      refine sim_evaluating henter hK.throw fun _ => (hbody.exec i [] hL).bind fun c c' hc => ?_
      exact (sim_modify (K.neutral i) I.leaveWith).bind fun _ _ _ => .pure hc
    | throwStmt span e =>
      obtain ⟨e', he, rfl⟩ := h
      rw [exec_throwStmt, exec_throwStmt]
      exact sim_evaluating (keep_value (ht.part (.head _)) i (he.code trivial)) hK.throw
        fun v => .pure (hK.throw v)
    | ifStmt span test yes no =>
      obtain ⟨test', htest, yes', hyes, no', hno, rfl⟩ := h
      rw [exec_ifStmt, exec_ifStmt]
      refine sim_evaluating (keep_value (ht.part (.head _)) i (htest.code trivial)) hK.throw
        fun v => ?_
      split
      · exact hyes.exec i [] hL
      · exact hno.exec i [] hL
    | tryStmt span body handler finalizer =>
      obtain ⟨body', hbody, handler', hhandler, finalizer', hfinalizer, rfl⟩ := h
      rw [exec_tryStmt, exec_tryStmt]
      exact sim_tryFinally hK (sim_tryCatch hK (hbody.exec i [] hL) (hhandler.catching i))
        (hfinalizer.exec i [] hL)
    | varDecl span ctxt kind isDeclare ds =>
      obtain ⟨ds', hds, rfl⟩ := h
      rw [exec_varDecl, exec_varDecl]
      exact hds.declare i kind
    | _ => first | exact Bool.noConfusion hrun | exact Bool.noConfusion hn

theorem declare_eq_done (n : Node c) (hl : ¬∃ d, c = .list d) (hd : c ≠ .declarator)
    (kind : VarKind) : I.declare temps kind n = done := by
  unfold Interp.declare
  split
  · exact absurd ⟨_, rfl⟩ hl
  · exact absurd rfl hd
  · rfl

theorem cases_eq_nil (n : Node c) (hl : ¬∃ d, c = .list d) (hc : c ≠ .clause) :
    I.cases temps n = [] := by
  unfold Interp.cases
  split
  · exact absurd ⟨_, rfl⟩ hl
  · exact absurd rfl hc
  · rfl

theorem catching_eq_none (n : Node c) (ho : ¬∃ d, c = .opt d) (hh : c ≠ .handler) :
    I.catching temps n = none := by
  unfold Interp.catching
  split
  · exact absurd ⟨_, rfl⟩ ho
  · exact absurd rfl hh
  · rfl

theorem Kin.declare_of_parts (ht : K.Tame temps n) (h : Node.Parts (K.Kin I temps L) n n')
    (hcode : c = .declarator → codeOf I temps n = codeOf I temps n')
    (i : K.Index) (kind : VarKind) :
    Sim (K.state i) K.result (I.declare temps kind n) (I.declare temps kind n') := by
  have hK := K.transparent
  by_cases hd : c = .declarator
  · subst hd
    have hd := hcode rfl
    rw [codeOf, codeOf, Prod.mk.injEq] at hd
    rw [declare_declarator, declare_declarator, ← hd.1, ← hd.2]
    refine sim_evaluating ?_ hK.throw fun _ => .pure hK.normal
    exact ht.keep i fun hclear _ hR => keep_bindDeclarator hR hclear.skeleton _ _
  by_cases hl : ∃ d, c = .list d
  · obtain ⟨d, rfl⟩ := hl
    cases n with
    | nil =>
      obtain rfl := h
      rw [declare_nil]
      exact .pure hK.normal
    | cons a l =>
      obtain ⟨a', ha, l', hl, rfl⟩ := h
      rw [declare_cons, declare_cons]
      exact sim_seq hK (ha.declare i kind) (hl.declare i kind)
  · rw [declare_eq_done n hl hd, declare_eq_done n' hl hd]
    exact .pure hK.normal

theorem Kin.cases_of_parts (hL : L []) (ht : K.Tame temps n)
    (h : Node.Parts (K.Kin I temps L) n n') (i : K.Index) :
    List.Forall₂ (CaseAlike (K.state i) K.result) (I.cases temps n) (I.cases temps n') := by
  by_cases hc : c = .clause
  · subst hc
    cases n with
    | clause span test body =>
      obtain ⟨test', htest, body', hbody, rfl⟩ := h
      rw [cases_clause, cases_clause]
      refine .cons ⟨?_, hbody.exec i [] hL⟩ .nil
      rcases codeOf_opt_cases (htest.code trivial) with ⟨rfl, rfl⟩ | ⟨e, e', rfl, rfl, he⟩
      · exact .none
      · exact .some (keep_value ((ht.part (.head _)).part (.head _)) i he)
  by_cases hl : ∃ d, c = .list d
  · obtain ⟨d, rfl⟩ := hl
    cases n with
    | nil =>
      obtain rfl := h
      rw [cases_nil]
      exact .nil
    | cons a l =>
      obtain ⟨a', ha, l', hl, rfl⟩ := h
      rw [cases_cons, cases_cons]
      exact List.rel_append (ha.cases i) (hl.cases i)
  · rw [cases_eq_nil n hl hc, cases_eq_nil n' hl hc]
    exact .nil

theorem Kin.catching_of_parts (hL : L []) (ht : K.Tame temps n)
    (h : Node.Parts (K.Kin I temps L) n n') (i : K.Index) :
    Option.Rel (fun k k' => ∀ v, Sim (K.state i) K.result (k v) (k' v))
      (I.catching temps n) (I.catching temps n') := by
  by_cases hh : c = .handler
  · subst hh
    cases n with
    | handler span param body =>
      obtain ⟨param', hparam, body', hbody, rfl⟩ := h
      have hrun := hbody.exec i [] hL
      rcases codeOf_opt_cases (hparam.code trivial) with ⟨rfl, rfl⟩ | ⟨p, p', rfl, rfl, hp⟩
      · rw [catching_handler_none, catching_handler_none]
        exact .some fun _ => hrun
      · rw [codeOf, codeOf, Prod.mk.injEq] at hp
        rw [catching_handler_some, catching_handler_some, ← hp.1, ← hp.2]
        refine .some fun v => sim_evaluating ?_ K.transparent.throw fun _ => hrun
        exact ((ht.part (.head _)).part (.head _)).keep i
          fun hclear _ hR => keep_bindCaught hR hclear.skeleton _ _
  by_cases ho : ∃ d, c = .opt d
  · obtain ⟨d, rfl⟩ := ho
    cases n with
    | none =>
      obtain rfl := h
      rw [catching_none]
      exact .none
    | some a =>
      obtain ⟨a', ha, rfl⟩ := h
      rw [catching_some, catching_some]
      exact ha.catching i
  · rw [catching_eq_none n ho hh, catching_eq_none n' ho hh]
    exact .none

theorem meanings_map {c : Cat} (n : Node c) :
    (n.bodies.map fun b => I.bodyOf (I.exec temps [] b)) = (codeOf I temps n).2 :=
  (meanings_eq I temps n).symm

theorem ofArrow_eq {b b' : Node .arrowBody} (h : codeOf I temps b = codeOf I temps b') :
    ((Node.ownBodies.ofArrow b).map fun b => I.bodyOf (I.exec temps [] b)) =
      (Node.ownBodies.ofArrow b').map fun b => I.bodyOf (I.exec temps [] b) := by
  have hc : Cat.arrowBody ≠ .block := nofun
  have hs : b.mapParts Node.skeleton = b'.mapParts Node.skeleton := by
    rw [← Node.skeleton_eq_mapParts hc, ← Node.skeleton_eq_mapParts hc]
    exact congrArg Prod.fst h
  have hm : (b.children.flatMap fun k => I.meanings temps k.2) =
      b'.children.flatMap fun k => I.meanings temps k.2 := by
    rw [← meanings_eq_flatMap I temps hc, ← meanings_eq_flatMap I temps hc]
    exact congrArg Prod.snd h
  cases b with
  | blockBody x =>
    cases b' with
    | blockBody x' => simpa [Node.children, meanings_eq, Node.ownBodies.ofArrow] using hm
    | exprBody => cases hs
  | exprBody e =>
    cases b' with
    | blockBody => cases hs
    | exprBody => rfl

theorem Kin.ownBodies_of_parts (hf : n.isFunctionLike = true → K.Closed)
    (h : Node.Parts (K.Kin I temps L) n n') :
    (n.ownBodies.map fun b => I.bodyOf (I.exec temps [] b)) =
      n'.ownBodies.map fun b => I.bodyOf (I.exec temps [] b) := by
  cases n with
  | func | ctorMember | setterProp =>
    obtain ⟨_, _, _, _, b', hb, rfl⟩ := h
    simp only [Node.ownBodies, meanings_map, hb.code (hf rfl)]
  | getterProp =>
    obtain ⟨_, _, b', hb, rfl⟩ := h
    simp only [Node.ownBodies, meanings_map, hb.code (hf rfl)]
  | staticBlock =>
    obtain ⟨b', hb, rfl⟩ := h
    simp only [Node.ownBodies, meanings_map, hb.code (hf rfl)]
  | arrow =>
    obtain ⟨_, _, b', hb, rfl⟩ := h
    exact ofArrow_eq (hb.code (hf rfl))
  | _ =>
    first
      | obtain rfl := h
        rfl
      | obtain ⟨_, _, rfl⟩ := h
        rfl
      | obtain ⟨_, _, _, _, rfl⟩ := h
        rfl
      | obtain ⟨_, _, _, _, _, _, rfl⟩ := h
        rfl
      | obtain ⟨_, _, _, _, _, _, _, _, rfl⟩ := h
        rfl

theorem nested_of_paired {l l' : List (Sigma Node)}
    (h : List.Forall₂ (Node.Paired (K.Kin I temps L)) l l') :
    K.nested (l.flatMap fun k => I.functionMeanings temps k.2)
      (l'.flatMap fun k => I.functionMeanings temps k.2) := by
  induction h with
  | nil => exact K.nested_refl []
  | cons hk _ ih =>
    obtain ⟨hk⟩ := hk
    simp only [List.flatMap_cons]
    exact K.nested_append hk.nested ih

theorem Kin.nested_of_parts (hf : n.isFunctionLike = true → K.Closed)
    (h : Node.Parts (K.Kin I temps L) n n') :
    K.nested (I.functionMeanings temps n) (I.functionMeanings temps n') := by
  rw [functionMeanings_eq, functionMeanings_eq I temps n', ownBodies_of_parts hf h]
  exact K.nested_append (K.nested_refl _) (nested_of_paired h.children)

/-- Trees of the same form whose parts stand for each other stand for each other, jumps and what
ends them apart. -/
theorem Kin.of_parts (hL : L []) (ht : K.Tame temps n) (hf : n.isFunctionLike = true → K.Closed)
    (hn : n.isPlain = true) (h : Node.Parts (K.Kin I temps L) n n') {L' : List String → Prop} :
    K.Kin I temps L' n n' where
  exec i labels _ := exec_of_parts hL ht hf hn h i labels
  declare i kind := declare_of_parts ht h (fun hc => code_of_parts hL hf h (.inl (hc ▸ trivial))) i kind
  cases i := cases_of_parts hL ht h i
  catching i := catching_of_parts hL ht h i
  code hc := code_of_parts hL hf h (.inl hc)
  nested := nested_of_parts hf h

theorem Kin.of_exec {s s' : Stmt} (h : ∀ i labels, L labels →
    Sim (K.state i) K.result (I.exec temps labels s) (I.exec temps labels s'))
    (hnested : K.nested (I.functionMeanings temps s) (I.functionMeanings temps s')) :
    K.Kin I temps L s s' where
  exec := h
  nested := hnested
  declare i kind := by
    rw [declare_eq_done s nofun nofun, declare_eq_done s' nofun nofun]
    exact .pure K.transparent.normal
  cases i := by
    rw [cases_eq_nil s nofun nofun, cases_eq_nil s' nofun nofun]
    exact .nil
  catching i := by
    rw [catching_eq_none s nofun nofun, catching_eq_none s' nofun nofun]
    exact .none
  code := False.elim

/-- The same comparison of states with another one of completions. -/
def withResult (K : Comparison U V) (Q : Completion V → Completion V → Prop)
    (hQ : Transparent Q) : Comparison U V :=
  { K with result := Q, transparent := hQ }

theorem optionRel_imp {α β : Type} {r r' : α → β → Prop} {a : Option α} {b : Option β}
    (h : Option.Rel r a b) (hr : ∀ x y, r x y → r' x y) : Option.Rel r' a b := by
  cases h with
  | none => exact .none
  | some hxy => exact .some (hr _ _ hxy)

theorem isCode_mono {closed closed' : Prop} (h : closed' → closed) :
    (c : Cat) → c.IsCode closed' → c.IsCode closed
  | .list c => isCode_mono h c
  | .opt c => isCode_mono h c
  | .block | .arrowBody => h
  | .stmt | .clause | .handler | .item | .program => id
  | .expr | .pat | .patProp | .key | .prop | .arg | .callee | .func | .param | .decorator | .cls
  | .member | .decl | .varDecl | .declarator | .forInit | .forHead => id

theorem Kin.mono {Q Q' : Completion V → Completion V → Prop} {hQ : Transparent Q}
    {hQ' : Transparent Q'} {L' : List String → Prop} (h : (K.withResult Q hQ).Kin I temps L n n')
    (hres : ∀ {c c'}, Q c c' → Q' c c') (hL : ∀ ls, L' ls → L ls) :
    (K.withResult Q' hQ').Kin I temps L' n n' where
  exec i labels hlabels := (h.exec i labels (hL labels hlabels)).mono fun _ _ => hres
  declare i kind := (h.declare i kind).mono fun _ _ => hres
  cases i := (h.cases i).imp fun _ _ hc => ⟨hc.1, hc.2.mono fun _ _ => hres⟩
  catching i := optionRel_imp (h.catching i) fun _ _ hk v => (hk v).mono fun _ _ => hres
  code hc := h.code (isCode_mono (fun hclosed c c' hq => hclosed c c' (hres hq)) c hc)
  nested := h.nested

theorem not_mem_of_soleName? {ds : Node (.list .declarator)} (h : ds.Clear temps) {id : Ident}
    (hid : soleName? ds = some id) : id.name ∉ temps := by
  cases ds with
  | nil => cases hid
  | cons d rest =>
    cases d with
    | declarator span definite p init =>
      have hp := (h.part (.head _)).part (.head _)
      simp only [soleName?, soleName?.target] at hid
      split at hid
      · cases p with
        | binder id' =>
          cases hid
          exact hp.own (.head _)
        | _ => cases hid
      · cases hid

theorem keep_bindStep {R : State U V → State U V → Prop} (hR : Neutral R) {h : Node .forHead}
    (hclear : h.Clear temps) (bs : List (Body U V)) (v : V) :
    (I.bindStep temps bs v h).Keep R (I.bindStep temps bs v h) := by
  cases h with
  | headDecl d =>
    cases d with
    | varDecl span ctxt kind isDeclare ds =>
      have hds := (hclear.part (.head _)).part (.head _)
      simp only [bindStep, bindStep.ofDecl]
      split
      · exact keep_bindName hR (not_mem_of_soleName? hds ‹_›) _ _
      · exact keep_lift hR _
  | headUsing => exact keep_lift hR _
  | headPat => exact keep_lift hR _

theorem keep_stepFrame {R : State U V → State U V → Prop} (hR : Neutral R) (isAwait : Bool) (it : V)
    {bind : V → Action (State U V) V Unit} (hbind : ∀ v, (bind v).Keep R (bind v))
    {close : Action (State U V) V Unit} (hclose : close.Keep R close) :
    (I.stepFrame isAwait it bind close).enter.Keep R (I.stepFrame isAwait it bind close).enter := by
  refine (keep_lift hR (I.next isAwait it)).bind fun r => ?_
  split
  · exact .pure false
  · exact ((hbind _).orClose hclose).bind fun _ => .pure true

theorem calm_declare (kind : VarKind) : (ds : Node (.list .declarator)) →
    Yields Completion.Calm (I.declare temps kind ds)
  | .nil => by
    rw [declare_nil]
    exact .pure (.inl rfl)
  | .cons d rest => by
    rw [declare_cons, declare_declarator]
    exact calm_seq (calm_evaluating fun _ => .pure (.inl rfl)) (calm_declare kind rest)

theorem calm_init (init : Node (.opt .forInit)) :
    Yields Completion.Calm (I.exec temps [] init) := by
  cases init with
  | none =>
    rw [exec_none]
    exact .pure (.inl rfl)
  | some a =>
    cases a with
    | initDecl v =>
      cases v
      simp only [exec_some, exec_initDecl, exec_varDecl]
      exact calm_declare _ _
    | initExpr e =>
      simp only [exec_some, exec_initExpr]
      exact calm_evaluating fun _ => .pure (.inl rfl)

variable {s s₁ : Stmt} {Q₁ Q₂ : Completion V → Completion V → Prop} {hQ₁ : Transparent Q₁}
  {labels : List String}

/-- A loop with a changed body, from its parts and from what the change does to a body. -/
theorem Kin.exec_loop (hloop : s.isLoop = true) (hL : L []) (ht : K.Tame temps s)
    (h : Node.Parts ((K.withResult Q₁ hQ₁).Kin I temps L) s s₁)
    (hQ : LoopRel labels labels Q₂ K.result) {f : Stmt → Stmt}
    (hf : ∀ {b b' : Stmt} (i : K.Index),
      Sim (K.state i) Q₁ (I.exec temps [] b) (I.exec temps [] b') →
      Sim (K.state i) Q₂ (I.exec temps [] b) (I.exec temps [] (f b'))) (i : K.Index) :
    Sim (K.state i) K.result (I.exec temps labels s) (I.exec temps labels (s₁.mapLoopBody f)) := by
  have hR := K.neutral i
  cases s with
  | whileStmt span test body =>
    obtain ⟨test', htest, body', hbody, rfl⟩ := h
    simp only [Node.mapLoopBody, exec_whileStmt]
    have hkeep := keep_value (ht.part (.head _)) i (htest.code trivial)
    exact Frame.sim_loop (hkeep.map _) (.map (.pure _) _) (.pure _) hQ (hf i (hbody.exec i [] hL))
  | doWhileStmt span test body =>
    obtain ⟨test', htest, body', hbody, rfl⟩ := h
    simp only [Node.mapLoopBody, exec_doWhileStmt]
    have hkeep := keep_value (ht.part (.head _)) i (htest.code trivial)
    exact Frame.sim_loop (.pure _) (hkeep.map _) (.pure _) hQ (hf i (hbody.exec i [] hL))
  | forStmt span init test update body =>
    obtain ⟨init', hinit, test', htest, update', hupdate, body', hbody, rfl⟩ := h
    simp only [Node.mapLoopBody, exec_forStmt]
    have hk := keep_valueOr (I.bool true) (ht.part (.tail _ (.head _))) i (htest.code trivial)
    have hk' := keep_valueOr I.undefined (ht.part (.tail _ (.tail _ (.head _)))) i
      (hupdate.code trivial)
    have hcalm := (hinit.exec i [] hL).restrict (calm_init init)
    exact sim_seq K.transparent (hcalm.mono fun c c' hc => K.transparent.of_calm hQ₁ hc.1 hc.2)
      (Frame.sim_loop (hk.map _) (hk'.map _) (.pure _) hQ (hf i (hbody.exec i [] hL)))
  | forInStmt span head subject body =>
    obtain ⟨head', hhead, subject', hsubject, body', hbody, rfl⟩ := h
    simp only [Node.mapLoopBody, exec_forInStmt]
    have hcode := hhead.code trivial
    rw [codeOf, codeOf, Prod.mk.injEq] at hcode
    have hkeep := keep_value (ht.part (.tail _ (.head _))) i (hsubject.code trivial)
    refine sim_evaluating (hkeep.bind fun v => keep_lift hR (I.keys v)) K.transparent.throw
      fun it => ?_
    rw [← hcode.1, ← hcode.2]
    refine Frame.sim_loop ?_ (.pure _) (.pure _) hQ (hf i (hbody.exec i [] hL))
    exact (ht.part (.head _)).keep i fun hclear _ hR =>
      keep_stepFrame hR _ _ (fun v => keep_bindStep hR hclear.skeleton _ v) (.pure _)
  | forOfStmt span isAwait head subject body =>
    obtain ⟨head', hhead, subject', hsubject, body', hbody, rfl⟩ := h
    simp only [Node.mapLoopBody, exec_forOfStmt]
    have hcode := hhead.code trivial
    rw [codeOf, codeOf, Prod.mk.injEq] at hcode
    have hkeep := keep_value (ht.part (.tail _ (.head _))) i (hsubject.code trivial)
    refine sim_evaluating (hkeep.bind fun v => keep_lift hR (I.iterator isAwait v))
      K.transparent.throw fun it => ?_
    rw [← hcode.1, ← hcode.2]
    refine Frame.sim_loop ?_ (.pure _) (keep_lift hR _) hQ (hf i (hbody.exec i [] hL))
    exact (ht.part (.head _)).keep i fun hclear _ hR =>
      keep_stepFrame hR _ _ (fun v => keep_bindStep hR hclear.skeleton _ v) (keep_lift hR _)
  | _ => exact Bool.noConfusion hloop

theorem Kin.exec_switch {span : Span} {subject : Expr} {clauses : Node (.list .clause)}
    (ht : K.Tame temps (.switchStmt span subject clauses))
    (h : Node.Parts ((K.withResult Q₁ hQ₁).Kin I temps L) (.switchStmt span subject clauses) s₁)
    (hleave : ∀ c c', Q₁ c c' → K.result c.leave c'.leave) (i : K.Index) :
    Sim (K.state i) K.result (I.exec temps labels (.switchStmt span subject clauses))
      (I.exec temps labels s₁) := by
  obtain ⟨subject', hsubject, clauses', hclauses, rfl⟩ := h
  rw [exec_switchStmt, exec_switchStmt]
  have hkeep := keep_value (ht.part (.head _)) i (hsubject.code trivial)
  exact sim_evaluating hkeep K.transparent.throw fun v =>
    sim_switchOn _ hQ₁ K.transparent.throw hleave (hclauses.cases i)

theorem Kin.exec_return {span : Span} {result : Node (.opt .expr)}
    (ht : K.Tame temps (.returnStmt span result))
    (h : Node.Parts (K.Kin I temps L) (.returnStmt span result) s₁)
    (hreturn : ∀ v, K.result (.return v) (.return v)) (i : K.Index) :
    Sim (K.state i) K.result (I.exec temps labels (.returnStmt span result))
      (I.exec temps labels s₁) := by
  obtain ⟨result', hresult, rfl⟩ := h
  rw [exec_returnStmt, exec_returnStmt]
  exact sim_evaluating (keep_valueOr _ (ht.part (.head _)) i (hresult.code trivial))
    K.transparent.throw fun v => .pure (hreturn v)

/-- Trees of the same form whose parts stand for each other stand for each other if the form hands
on how the completions of the parts are related. -/
theorem Kin.of_form (hL : ∀ ls, L ls) (ht : K.Tame temps n) (hf : n.isFunctionLike = true → K.Closed)
    (hloop : n.isLoop = true → ∀ labels, LoopRel labels labels K.result K.result)
    (hswitch : n.isSwitch = true → ∀ c c', K.result c c' → K.result c.leave c'.leave)
    (hlabel : ∀ l ∈ n.ownLabels, ∀ c c', K.result c c' →
      Option.Rel K.result (c.leaveLabel l) (c'.leaveLabel l))
    (hjump : ∀ c ∈ n.ownJump?, K.result c c) (hreturn : ∀ v, K.result (.return v) (.return v))
    (h : Node.Parts (K.Kin I temps L) n n') : K.Kin I temps L n n' := by
  by_cases hplain : n.isPlain = true
  · exact .of_parts (hL []) ht hf hplain h
  · cases n with
    | returnStmt span result =>
      exact .of_exec (fun i labels _ => Kin.exec_return ht h hreturn i) (Kin.nested_of_parts hf h)
    | labeledStmt span label body =>
      refine .of_exec (fun i labels _ => ?_) (Kin.nested_of_parts hf h)
      obtain ⟨body', hbody, rfl⟩ := h
      rw [exec_labeledStmt, exec_labeledStmt]
      exact sim_labeled (hbody.exec i _ (hL _)) (hlabel _ (.head _))
    | breakStmt span label =>
      refine .of_exec (fun i labels _ => ?_) (Kin.nested_of_parts hf h)
      obtain rfl := h
      rw [exec_breakStmt]
      exact .pure (hjump _ rfl)
    | continueStmt span label =>
      refine .of_exec (fun i labels _ => ?_) (Kin.nested_of_parts hf h)
      obtain rfl := h
      rw [exec_continueStmt]
      exact .pure (hjump _ rfl)
    | switchStmt span subject clauses =>
      exact .of_exec (fun i labels _ => Kin.exec_switch (K := K) ht h (hswitch rfl) i)
        (Kin.nested_of_parts hf h)
    | whileStmt | doWhileStmt | forStmt | forInStmt | forOfStmt =>
      refine .of_exec (fun i labels _ => ?_) (Kin.nested_of_parts hf h)
      rw [← Node.mapLoopBody_id n']
      exact Kin.exec_loop (K := K) rfl (hL []) ht h (hloop rfl labels) (fun _ hb => hb) i
    | _ => exact absurd rfl hplain

/-- Comparison of runs from equal states. -/
def exact (U V : Type) : Comparison U V where
  Index := Unit
  state _ := Eq
  result := Eq
  neutral _ := ⟨fun h => h ▸ rfl, fun _ h => h ▸ rfl⟩
  start _ := ⟨(), rfl⟩
  transparent := ⟨rfl, fun _ => rfl, .inl⟩
  nested := Eq
  nested_refl _ := rfl
  nested_append h h' := h ▸ h' ▸ rfl

theorem exact_tame {Q : Completion V → Completion V → Prop}
    {hQ : Transparent Q} (n : Node c) :
    ((exact U V).withResult Q hQ).Tame temps n :=
  .inl fun _ _ _ => Iff.rfl

theorem Kin.refl (n : Node c) : (exact U V).Kin I temps L n n where
  exec _ _ _ := Sim.refl _
  declare _ _ := Sim.refl _
  cases _ := List.forall₂_same.mpr fun a _ => by
    obtain ⟨test, body⟩ := a
    cases test with
    | none => exact ⟨.none, Sim.refl _⟩
    | some test => exact ⟨.some (Sim.refl test.run), Sim.refl _⟩
  catching _ := by
    cases I.catching temps n with
    | none => exact .none
    | some k => exact .some fun v => Sim.refl _
  code _ := rfl
  nested := rfl

/-- A tree that is run as a leaf ends alike in any sense. -/
theorem Kin.refl_of_leaf (hQ : Transparent Q) (hn : n.isRun = false) :
    ((exact U V).withResult Q hQ).Kin I temps L n n where
  exec i labels _ := by
    rw [exec_leaf hn]
    exact sim_evaluating (Sim.refl _) hQ.throw fun _ => .pure hQ.normal
  declare i kind := by
    by_cases hd : c = .declarator
    · subst hd
      rw [declare_declarator]
      exact sim_evaluating (Sim.refl _) hQ.throw fun _ => .pure hQ.normal
    · rw [declare_eq_done n ?_ hd]
      · exact .pure hQ.normal
      · rintro ⟨d, rfl⟩
        cases n <;> cases hn
  cases i := by
    rw [cases_eq_nil n]
    · exact .nil
    · rintro ⟨d, rfl⟩
      cases n <;> cases hn
    · rintro rfl
      cases n
      cases hn
  catching i := by
    rw [catching_eq_none n]
    · exact .none
    · rintro ⟨d, rfl⟩
      cases n <;> cases hn
    · rintro rfl
      cases n
      cases hn
  code _ := rfl
  nested := rfl

end Comparison

end

end PlainJs

import PlainJs.Proofs.Collected
import PlainJs.Proofs.KeyHelper
import PlainJs.Proofs.Loops.Bindings
import PlainJs.Proofs.Throwing

namespace PlainJs

open Effect Run Interp Comparison

namespace NameSupply

/-- No hint gives the name of the global `Symbol`. -/
theorem not_stems_symbol {hint : String} (h : hint ∈ hints ++ labelHints) :
    ¬Stems hint "Symbol" := by
  intro hstems
  have honly : ∀ x ∈ hints ++ labelHints, x.toList <+: "Symbol".toList → x = "S" := by decide
  obtain rfl := honly hint h hstems.isPrefix
  rcases hstems with heq | ⟨n, heq⟩
  · exact absurd heq (by decide)
  · have hdigits : ['y', 'm', 'b', 'o', 'l'] = Nat.toDigits 10 n := by
      have hl := congrArg String.toList heq
      simpa [numbered] using hl
    have hy : 'y' ∈ Nat.toDigits 10 n := hdigits ▸ .head _
    exact absurd (Nat.isDigit_of_mem_toDigits (by decide) (by decide) hy) (by decide)

end NameSupply

namespace Loops

open Node

variable {U V : Type} {I : Interp U V} {temps M M' N labels : List String} {t : Context}
  {continues : Bool}

theorem leaveLabel_eq {c : Completion V} (h : c.Within N continues) {l : String} (hl : l ∉ N) :
    c.leaveLabel l = .some c := by
  match c with
  | .normal | .return _ | .throw _ | .break .none | .continue .none => rfl
  | .break (.some x) =>
    have hne : x ≠ l := fun he => hl (he ▸ h x rfl)
    exact congrArg Option.some (if_neg hne)
  | .continue (.some x) =>
    have hne : x ≠ l := fun he => hl (he ▸ h.2 x rfl)
    exact if_neg hne

/-- A label that no jump names changes nothing. -/
theorem sim_labeled_of_notMem {R : State U V → State U V → Prop}
    {x y : Effect (State U V) (Completion V)} {l : String} (hl : l ∉ N)
    (h : Sim R (fun c c' => c = c' ∧ c.Within N continues) x y) :
    Sim R (fun c c' => c = c' ∧ c.Within N continues) x (labeled l y) := by
  rw [← bind_pure x]
  refine h.bind ?_
  rintro c _ ⟨rfl, hc⟩
  rw [leaveLabel_eq hc hl]
  exact .pure ⟨rfl, hc⟩

theorem run_labeledBody (body : Stmt) (t : Context) :
    (labeledBody body).run t = (body, t) ∨ (labeledBody body).run t =
      (Build.labeled (.ofName (t.names.pick "L")) (.blockStmt (Build.intoBlock body)),
        t.withFreshLabel "L") := by
  unfold labeledBody
  split
  next span label s =>
    by_cases h : t.names.isMadeLabel label.name = true
    · refine .inl ?_
      simp [h]
      rfl
    · refine .inr ?_
      simp [h]
      rfl
  next => exact .inr rfl

theorem grows_labeledBody (body : Stmt) (t : Context) : t.Grows ((labeledBody body).run t).2 := by
  rcases run_labeledBody body t with hrun | hrun
  · rw [hrun]
    exact .refl t
  · rw [hrun]
    exact t.grows_withFreshLabel "L"

theorem sim_labeledBody_of_notMem (hl : t.names.pick "L" ∉ N) {R : State U V → State U V → Prop}
    {x : Effect (State U V) (Completion V)} {body : Stmt}
    (h : Sim R (fun c c' => c = c' ∧ c.Within N continues) x (I.exec temps [] body)) :
    Sim R (fun c c' => c = c' ∧ c.Within N continues) x
      (I.exec temps [] ((labeledBody body).run t).1) := by
  rcases run_labeledBody body t with hrun | hrun
  · rw [hrun]
    exact h
  · rw [hrun, Build.labeled, exec_labeledStmt, exec_blockStmt, exec_intoBlock]
    exact sim_labeled_of_notMem hl h

theorem sim_labeledBody (hN : N ⊆ t.names.reserved) {R : State U V → State U V → Prop}
    {x : Effect (State U V) (Completion V)} {body : Stmt}
    (h : Sim R (Same N) x (I.exec temps [] body)) :
    Sim R (Same N) x (I.exec temps [] ((labeledBody body).run t).1) :=
  sim_labeledBody_of_notMem (fun hmem => t.names.pick_notMem "L" (hN hmem)) h

theorem functionMeanings_labeledBody (body : Stmt) (t : Context) :
    I.functionMeanings temps ((labeledBody body).run t).1 = I.functionMeanings temps body := by
  rcases run_labeledBody body t with hrun | hrun
  · rw [hrun]
  · rw [hrun, Build.labeled, functionMeanings_labeledStmt, functionMeanings_blockStmt,
      functionMeanings_intoBlock]

/-- What becomes of a `for` loop. -/
def whileFor (span : Span) (before : List Stmt) (test update : Node (.opt .expr)) (body : Stmt) :
    Stmt :=
  let body := body :: (update.toOption.map Build.exprStmt).toList
  let test := test.toOption.getD (Build.bool true)
  if before.isEmpty then Build.whileDo span test body
  else Build.blockStmt span (before ++ [Build.whileDo .none test body])

theorem run_lowerFor (span : Span) (init : Node (.opt .forInit)) (test update : Node (.opt .expr))
    (body : Stmt) (t : Context) :
    ∃ u, t.Grows u ∧ (lowerFor span init test update body).run t =
      let before := (Loops.prelude init).run u
      let r := (labeledBody body).run before.2
      (whileFor span before.1 test update r.1, r.2) := by
  have hrest : (do
      let before ← Loops.prelude init
      let body ← labeledBody body
      let body := body :: (update.toOption.map Build.exprStmt).toList
      let test := test.toOption.getD (Build.bool true)
      if before.isEmpty then return Build.whileDo span test body
      return Build.blockStmt span (before ++ [Build.whileDo .none test body]) : Lower Stmt) = do
        let before ← Loops.prelude init
        let body ← labeledBody body
        return whileFor span before test update body := by
    refine bind_congr fun before => bind_congr fun body => ?_
    unfold whileFor
    split <;> rfl
  unfold lowerFor
  rw [hrest]
  split
  · exact ⟨t.record ⟨.limitation, span, _⟩, ⟨rfl, List.Subset.refl _, [_], rfl⟩, rfl⟩
  · exact ⟨t, .refl t, rfl⟩

theorem value_getD (v : Bool) (o : Node (.opt .expr)) :
    I.value temps (o.toOption.getD (Build.bool v)) = I.valueOr temps (I.bool v) o := by
  cases o with
  | none => rw [valueOr_none]; exact value_bool v
  | some e => rw [valueOr_some]; rfl

theorem exec_update (o : Node (.opt .expr)) :
    I.exec temps [] (.ofList (o.toOption.map Build.exprStmt).toList) =
      evaluating (I.valueOr temps I.undefined o) fun _ => done := by
  rw [exec_ofList_toList]
  cases o with
  | none => rw [valueOr_none, evaluating_pure]; exact exec_none
  | some e => rw [valueOr_some]; exact exec_some .. |>.trans (exec_buildExprStmt e)

theorem exec_whileDo (span : Span) (test : Expr) (body : List Stmt) :
    I.exec temps labels (Build.whileDo span test body) =
      (I.whileFrame (I.value temps test) (pure I.undefined)).loop labels
        (I.exec temps [] (.ofList body)) := by
  rw [Build.whileDo, exec_whileStmt, exec_blockStmt, Build.block, exec_block]

variable (I temps) in
theorem exec_whileFor (span : Span) (before : List Stmt) (test update : Node (.opt .expr))
    (body : Stmt) (labels : List String) :
    ∃ labels', I.exec temps labels (whileFor span before test update body) =
      seq (I.exec temps [] (.ofList before))
        ((I.whileFrame (I.valueOr temps (I.bool true) test) (pure I.undefined)).loop labels'
          (seq (I.exec temps [] body)
            (evaluating (I.valueOr temps I.undefined update) fun _ => done))) := by
  unfold whileFor
  split
  next h =>
    refine ⟨labels, ?_⟩
    rw [List.isEmpty_iff.mp h, ofList, exec_nil, done_seq, exec_whileDo, value_getD, ofList,
      exec_cons, exec_update]
  next =>
    refine ⟨[], ?_⟩
    rw [Build.blockStmt, exec_blockStmt, exec_block, exec_append, ofList, ofList, exec_cons,
      exec_nil, seq_done, exec_whileDo, value_getD, ofList, exec_cons, exec_update]

theorem functionMeanings_whileFor (span : Span) (before : List Stmt)
    (test update : Node (.opt .expr)) (body : Stmt) :
    I.functionMeanings temps (whileFor span before test update body) =
      I.functionMeanings temps (.ofList before) ++ (I.functionMeanings temps test ++
        (I.functionMeanings temps body ++ I.functionMeanings temps update)) := by
  have htest : I.functionMeanings temps (test.toOption.getD (Build.bool true)) =
      I.functionMeanings temps test := by
    cases test <;> simp [toOption, Build.bool]
  have hupdate : (update.toOption.map Build.exprStmt).toList.flatMap
      (I.functionMeanings temps ·) = I.functionMeanings temps update := by
    cases update <;> simp [toOption]
  unfold whileFor
  split
  next h => simp [List.isEmpty_iff.mp h, Build.whileDo, Build.block, htest, hupdate]
  next => simp [Build.blockStmt, Build.whileDo, Build.block, htest, hupdate]

/-- Code that looks the same declares names only on both sides. -/
theorem bindsNames_of_codeOf {c : Cat} (hc : c ≠ .block) {n n' : Node c}
    (h : codeOf I temps n = codeOf I temps n') : n'.bindsNames = n.bindsNames := by
  have hskeleton : n.skeleton = n'.skeleton := congrArg Prod.fst h
  rw [← bindsNames_skeleton hc, ← hskeleton, bindsNames_skeleton hc]

section

variable {span : Span} {body body' : Stmt} (hN : N ⊆ t.names.reserved)
  (hbody : (keeping M N false).Kin I temps (fun _ => True) body body')
include hN hbody

theorem kin_lowerFor {init init' : Node (.opt .forInit)}
    {test test' update update' : Node (.opt .expr)}
    (hclear : (forStmt span init test update body).Clear temps)
    (hnames : ∀ i ∈ init.toOption, i.bindsNames = true)
    (hinit : (keeping M N false).Kin I temps (fun _ => True) init init')
    (htest : (keeping M N false).Kin I temps (fun _ => True) test test')
    (hupdate : (keeping M N false).Kin I temps (fun _ => True) update update') :
    (keeping M N false).Kin I temps (fun _ => True) (.forStmt span init test update body)
      ((lowerFor span init' test' update' body').run t).1 := by
  have hnames' : ∀ i ∈ init'.toOption, i.bindsNames = true := by
    rcases codeOf_opt_cases (hinit.code trivial) with ⟨rfl, rfl⟩ | ⟨i, i', rfl, rfl, hcode⟩
    · exact nofun
    · rintro _ ⟨⟩
      rw [bindsNames_of_codeOf (c := .forInit) nofun hcode]
      exact hnames i rfl
  obtain ⟨u, hu, hrun⟩ := run_lowerFor span init' test' update' body' t
  obtain ⟨before, hbefore, hexec, hfunctions⟩ := run_prelude I temps hnames' u
  rw [hbefore] at hrun
  rw [hrun]
  refine .of_exec (fun given labels _ => ?_) ?_
  · obtain ⟨labels', hlowered⟩ := exec_whileFor I temps span before test' update'
      ((labeledBody body').run u).1 labels
    have hrounds := sim_labeledBody (List.Subset.trans hN hu.reserved) (hbody.exec given [] trivial)
    rw [hlowered, hexec, exec_forStmt]
    refine sim_seq (keeping M N false).transparent (hinit.exec given [] trivial)
      (sim_forLoop ?_ ?_ hrounds)
    · exact keep_valueOr _ (.inr (hclear.part (.tail _ (.head _)))) given (htest.code trivial)
    · exact keep_valueOr _ (.inr (hclear.part (.tail _ (.tail _ (.head _))))) given
        (hupdate.code trivial)
  · change List.Subperm _ _
    rw [functionMeanings_whileFor, functionMeanings_labeledBody, hfunctions,
      functionMeanings_four (n := forStmt span init test update body) rfl rfl]
    refine hinit.nested.append (htest.nested.append ?_)
    exact List.perm_append_comm.subperm.trans (hupdate.nested.append hbody.nested)

theorem kin_lowerDoWhile {test test' : Expr} (hclear : test.Clear temps)
    (htest : (keeping M N false).Kin I temps (fun _ => True) test test') :
    (keeping M N false).Kin I temps (fun _ => True) (.doWhileStmt span test body)
      ((lowerDoWhile span test' body').run t).1 := by
  have hrun : (lowerDoWhile span test' body').run t =
      let r := (labeledBody body').run t
      (Build.whileDo span (Build.bool true)
        [r.1, Build.ifElse (Build.not test') (Build.breakTo .none) .none], r.2) := rfl
  have hleave : I.exec temps [] (Build.ifElse (Build.not test') (Build.breakTo .none) .none) =
      evaluating (I.value temps test') fun v =>
        if I.truthy v then done else pure (.break .none) := by
    rw [Build.ifElse, exec_ifStmt, value_not, evaluating_map]
    congr 1
    funext v
    rw [I.truthy_bool, Build.breakTo, exec_breakStmt, ofOption, exec_none]
    cases I.truthy v <;> rfl
  rw [hrun]
  refine .of_exec (fun given labels _ => ?_) ?_
  · rw [exec_doWhileStmt, exec_whileDo, value_bool, ofList, ofList, ofList, exec_cons, exec_cons,
      exec_nil, seq_done, hleave]
    exact sim_doWhileLoop (keep_value (.inr hclear) given (htest.code trivial))
      (sim_labeledBody hN (hbody.exec given [] trivial))
  · have hlowered : I.functionMeanings temps (Build.whileDo span (Build.bool true)
        [((labeledBody body').run t).1,
          Build.ifElse (Build.not test') (Build.breakTo .none) .none]) =
        I.functionMeanings temps body' ++ I.functionMeanings temps test' := by
      simp [Build.whileDo, Build.block, Build.bool, Build.ifElse, Build.not, Build.unary,
        Build.breakTo, ofOption, functionMeanings_labeledBody]
    change List.Subperm _ _
    rw [hlowered, functionMeanings_two (n := doWhileStmt span test body) rfl rfl]
    exact List.perm_append_comm.subperm.trans (htest.nested.append hbody.nested)

end

/-- What becomes of a loop over an iterator. -/
def iterated (span : Span) (iter step : Ident) (init : Expr) (bound : List Stmt) (body : Stmt) :
    Stmt :=
  let next := Build.call (Build.member (.ref iter) "next") []
  let test := Build.not (Build.member (Build.assignTo step next) "done")
  Build.blockStmt span [Build.declare .let iter (.some init), Build.declare .let step .none,
    Build.whileDo .none test (bound ++ [body])]

theorem run_iterate (span : Span) (hint : String) (init : Expr) (b : StepBinding) (body : Stmt)
    (t : Context) :
    (iterate span hint init b body).run t =
      let u := (t.withFresh hint).withFresh "step"
      let step : Ident := .ofName ((t.withFresh hint).names.pick "step")
      let bound := (bindStep (Build.member (.ref step) "value") b).run u
      let r := (labeledBody body).run bound.2
      (iterated span (.ofName (t.names.pick hint)) step init bound.1 r.1, r.2) := rfl

variable {iter step : Ident} {init : Expr} {bound : List Stmt} {body body' : Stmt} {span : Span}

theorem exec_iterated (hiter : iter.name ∈ temps) (hstep : step.name ∈ temps) :
    I.exec temps labels (iterated span iter step init bound body) =
      evaluating (I.value temps init) fun v => setting iter.name v (setting step.name I.undefined
        ((I.whileFrame (I.stepTest iter.name step.name) (pure I.undefined)).loop []
          (seq (I.exec temps [] (.ofList bound)) (I.exec temps [] body)))) := by
  have hlast : I.exec temps [] (.ofList [body]) = I.exec temps [] body := by
    rw [ofList, ofList, exec_cons, exec_nil, seq_done]
  rw [iterated, Build.blockStmt, exec_blockStmt, exec_block, ofList, ofList, ofList, ofList,
    exec_cons, exec_cons, exec_cons, exec_nil, seq_done, exec_declare_some hiter,
    exec_declare_none hstep, exec_whileDo, value_stepTest hiter hstep, exec_append, hlast,
    seq_evaluating]
  congr 1
  funext v
  rw [seq_setting, done_seq, seq_setting, done_seq]

theorem functionMeanings_iterated :
    I.functionMeanings temps (iterated span iter step init bound body) =
      I.functionMeanings temps init ++ (I.functionMeanings temps (.ofList bound) ++
        I.functionMeanings temps body) := by
  have hstep : I.functionMeanings temps (Build.declare .let step .none) = [] := by
    simp [Build.declare, Build.declarePat, ofOption]
  simp [iterated, Build.blockStmt, functionMeanings_declare, hstep, Build.whileDo, Build.block,
    Build.not, Build.unary, Build.member, Build.access, Build.assignTo, Build.assign, Build.call]

/-- A loop over an iterator and the loop that keeps the iterator and its steps in temporaries. -/
theorem sim_iterated {subject subject' : Expr} {make : V → Action U V V}
    {bind : V → Action (State U V) V Unit} (hnew : NewPair M M' iter.name step.name)
    (hiter : iter.name ∈ temps) (hstep : step.name ∈ temps)
    (hsubject : ∀ given, (I.value temps subject).Keep (Near M given) (I.value temps subject'))
    (hinit : I.value temps init = I.value temps subject' >>= fun v => lift (make v))
    (hbound : I.exec temps [] (.ofList bound) = bindRun I step.name bind)
    (hbind : ∀ given v, (bind v).Keep (Near M given) (bind v))
    {x : Effect (State U V) (Completion V)}
    (hbody : ∀ given, Sim (Near M given) (Same N) x (I.exec temps [] body)) {labels' : List String}
    (given : String → V) :
    Sim (Near M' given) (Same N)
      (evaluating (I.value temps subject >>= fun v => lift (make v)) fun it =>
        (I.stepFrame false it bind (pure ())).loop labels x)
      (I.exec temps labels' (iterated span iter step init bound body)) := by
  rw [exec_iterated hiter hstep, hbound, hinit]
  refine sim_of_related (M := M) (fun given => ?_) given
  refine related_evaluating ?_ (fun v s s' hs => ?_) fun it => ?_
  · exact (hsubject given).bind fun v => keep_lift ((keeping M N false).neutral given) _
  · exact ⟨⟨rfl, trivial⟩, hs.mono hnew.subset fun _ _ => rfl⟩
  · refine related_setting (related_setting ?_)
    have hsubset : step.name :: M ⊆ M' := List.cons_subset.mpr ⟨hnew.mem_snd, hnew.subset⟩
    have hother : iter.name ∉ step.name :: M := by
      simp [hnew.ne, hnew.notMem_fst]
    have hgiven : Function.update (Function.update given iter.name it) step.name I.undefined
        iter.name = it := by
      rw [Function.update_of_ne hnew.ne, Function.update_self]
    refine Related.mono (Related.weaken (sim_stepLoop hnew.notMem_snd hbind hbody hother hgiven)
      fun s s' hs => ?_) fun c s c' s' hc => ?_
    · exact hs.mono (List.subset_cons_self ..) fun _ _ => rfl
    · exact ⟨hc.1, hc.2.mono hsubset fun _ hx => hnew.update given it I.undefined hx⟩

/-- The parts of a loop over an iterator, and what has become of them. -/
structure Lowered (I : Interp U V) (temps M N : List String) (head head' : Node .forHead)
    (subject subject' : Expr) (body body' : Stmt) : Prop where
  clear_head : head.Clear temps
  clear_subject : subject.Clear temps
  names : head.bindsNames = true
  head : (keeping M N false).Kin I temps (fun _ => True) head head'
  subject : (keeping M N false).Kin I temps (fun _ => True) subject subject'
  body : (keeping M N false).Kin I temps (fun _ => True) body body'

/-- What a loop over an iterator does that needs no closing. -/
def stepping (I : Interp U V) (temps labels : List String) (make : V → Action U V V)
    (head : Node .forHead) (subject : Expr) (body : Stmt) : Effect (State U V) (Completion V) :=
  evaluating (I.value temps subject >>= fun v => lift (make v)) fun it =>
    (I.stepFrame false it (I.bindStep temps (I.meanings temps head) · head.skeleton) (pure ())).loop
      labels (I.exec temps [] body)

theorem Lowered.kin_iterate {head head' : Node .forHead} {subject subject' : Expr}
    {base : Context} (h : Lowered I temps (base.newNames t) N head head' subject subject' body body')
    (hbase : base.Grows t) (hN : N ⊆ t.names.reserved) {hint : String} {b : StepBinding}
    (hb : stepBinding head' = .ok b) {n : Stmt} {make : V → Action U V V}
    (hexec : ∀ labels, I.exec temps labels n = stepping I temps labels make head subject body)
    (hfunctions : I.functionMeanings temps n = I.functionMeanings temps head ++
      (I.functionMeanings temps subject ++ I.functionMeanings temps body))
    (hinit : I.value temps init = I.value temps subject' >>= fun v => lift (make v))
    (hinitFunctions : I.functionMeanings temps init = I.functionMeanings temps subject')
    (htemps : base.newNames ((iterate span hint init b body').run t).2 ⊆ temps) :
    (keeping (base.newNames ((iterate span hint init b body').run t).2) N false).Kin I temps
      (fun _ => True) n ((iterate span hint init b body').run t).1 := by
  let u := (t.withFresh hint).withFresh "step"
  let iter : Ident := .ofName (t.names.pick hint)
  let step : Ident := .ofName ((t.withFresh hint).names.pick "step")
  have hu : t.Grows u := (t.grows_withFresh hint).trans ((t.withFresh hint).grows_withFresh "step")
  have hnew : NewPair (base.newNames t) (base.newNames u) iter.name step.name :=
    Context.newPair hbase (.refl t) hint "step"
  have hcode := h.head.code trivial
  have hnames : head'.bindsNames = true := by
    rw [bindsNames_of_codeOf (c := .forHead) nofun hcode]
    exact h.names
  rw [codeOf, codeOf, Prod.mk.injEq] at hcode
  have hclear : head'.skeleton.Clear temps := hcode.1 ▸ h.clear_head.skeleton
  rw [run_iterate] at htemps ⊢
  dsimp only at htemps ⊢
  have hlast : base.newNames u ⊆ base.newNames ((labeledBody body').run u).2 :=
    Context.newNames_subset (grows_labeledBody body' u)
  obtain ⟨bound, hrun, hbound, hsubperm⟩ := run_bindStep (I := I) hb hnames hclear u
  rw [hrun] at htemps ⊢
  have hiter : iter.name ∈ temps := htemps (hlast hnew.mem_fst)
  have hstep : step.name ∈ temps := htemps (hlast hnew.mem_snd)
  refine Kin.widen hlast (.of_exec (fun given labels _ => ?_) ?_)
  · rw [hexec, stepping, hcode.1, hcode.2]
    refine sim_iterated hnew hiter hstep (fun given => ?_) hinit (hbound hstep)
      (fun given v => ?_) (fun given => ?_) given
    · exact keep_value (K := keeping (base.newNames t) N false) (.inr h.clear_subject) given
        (h.subject.code trivial)
    · exact keep_bindStep ((keeping (base.newNames t) N false).neutral given) hclear _ v
    · exact sim_labeledBody (List.Subset.trans hN hu.reserved) (h.body.exec given [] trivial)
  · change List.Subperm _ _
    rw [functionMeanings_iterated, hinitFunctions, functionMeanings_labeledBody, hfunctions,
      ← List.append_assoc, ← List.append_assoc]
    refine List.Subperm.append ?_ h.body.nested
    exact (h.subject.nested.append (hsubperm.trans h.head.nested)).trans
      List.perm_append_comm.subperm

/-- What this pass has made of a tree. -/
abbrev Done (I : Interp U V) (temps N : List String) (base t : Context) {c : Cat}
    (n n' : Node c) : Prop :=
  LoweredTo I temps N false base (·.count .unsupported ≤ base.count .unsupported) bindsNames t n n'

/-- What the lowered loops rely on: iterators need no closing, and the code that makes them calls
what it means to call. -/
structure Sound (I : Interp U V) (temps : List String) (config : Config) : Prop where
  close : ∀ it, I.close false it = pure ()
  keyHelper : I.keyHelper = config.keyHelper
  spares_keyHelper : config.keyHelper ∉ temps
  spares_symbol : "Symbol" ∉ temps

variable {base : Context} {head head' : Node .forHead} {subject subject' : Expr}

/-- A loop that is reported ends the quiet. -/
theorem not_quiet (hbase : base.Grows t) (message : String) :
    ¬(t.record ⟨.unsupported, span, message⟩).count .unsupported ≤ base.count .unsupported := by
  intro hquiet
  have hle := hbase.count_le .unsupported
  simp only [Context.count, Context.record, List.countP_append] at hquiet hle
  simp at hquiet
  omega

theorem lift_pure {A : Type} (a : A) :
    lift (pure a : Action U V A) = (pure a : Action (State U V) V A) := rfl

/-- A `for-of` loop and what becomes of it. -/
theorem Lowered.kin_lowerForOf
    (h : Lowered I temps (base.newNames t) N head head' subject subject' body body')
    (hI : Sound I temps base.config) (hbase : base.Grows t) (hN : N ⊆ t.names.reserved)
    {isAwait : Bool} :
    let r := (lowerForOf span isAwait head' subject' body').run t
    r.2.count .unsupported ≤ base.count .unsupported → base.newNames r.2 ⊆ temps →
      (keeping (base.newNames r.2) N false).Kin I temps (fun _ => True)
        (.forOfStmt span isAwait head subject body) r.1 := by
  intro r hquiet htemps
  rcases run_lowerForOf span isAwait head' subject' body' t with
    ⟨message, hrun : r = _⟩ | ⟨rfl, b, hb, hrun : r = _⟩
  · exact absurd (hrun ▸ hquiet) (not_quiet hbase message)
  · rw [hrun] at htemps ⊢
    refine h.kin_iterate hbase hN hb (fun labels => ?_) (functionMeanings_three rfl rfl)
      (value_iterator hI.spares_symbol subject') ?_ htemps
    · rw [exec_forOfStmt, stepping]
      simp only [hI.close, lift_pure]
    · simp [Build.call, Build.computed, Build.access, Build.member, Build.name]

/-- A `for-in` loop and what becomes of it. -/
theorem Lowered.kin_lowerForIn
    (h : Lowered I temps (base.newNames t) N head head' subject subject' body body')
    (hI : Sound I temps base.config) (hbase : base.Grows t) (hN : N ⊆ t.names.reserved) :
    let r := (lowerForIn span head' subject' body').run t
    r.2.count .unsupported ≤ base.count .unsupported → base.newNames r.2 ⊆ temps →
      (keeping (base.newNames r.2) N false).Kin I temps (fun _ => True)
        (.forInStmt span head subject body) r.1 := by
  intro r hquiet htemps
  rcases run_lowerForIn span head' subject' body' t with
    ⟨message, hrun : r = _⟩ | ⟨b, hb, -, hrun : r = _⟩
  · exact absurd (hrun ▸ hquiet) (not_quiet hbase message)
  · rw [hrun, hbase.config] at htemps
    rw [hrun, hbase.config]
    refine h.kin_iterate hbase hN hb (fun labels => exec_forInStmt ..)
      (functionMeanings_three rfl rfl) (value_keys hI.keyHelper hI.spares_keyHelper subject') ?_
      htemps
    simp [Build.call, Build.name]

theorem done_lowerLoop (hI : Sound I temps base.config) (hN : N ⊆ base.names.reserved) {k k' : Stmt}
    (hbase : base.Grows t) (h : Node.Parts (Node.Deep (Done I temps N base t)) k k') :
    t.Grows ((lowerLoop k').run t).2 ∧
      Done I temps N base ((lowerLoop k').run t).2 k ((lowerLoop k').run t).1 := by
  have hgrows := ((rewrites []).calm k' t).grows
  refine ⟨hgrows, ?_⟩
  have hnames : N ⊆ t.names.reserved := List.Subset.trans hN hbase.reserved
  have hlasting : Context.Lasting (·.count .unsupported ≤ base.count .unsupported) :=
    Context.lasting_count _ _
  have hparts := h.imp fun _ hk => hk.rel
  have hsame : Done I temps N base t k k' := .of_parts hparts
  by_cases hloop : k.isLoop = true
  · intro hquiet htemps hclear hlabels hfine hcontinue
    have hwiden : base.newNames t ⊆ base.newNames ((lowerLoop k').run t).2 :=
      Context.newNames_subset hgrows
    have hkin := LoweredTo.kin_parts (hlasting hgrows hquiet)
      (List.Subset.trans hwiden htemps) hclear hlabels hfine hcontinue hparts
    cases k with
    | whileStmt span test body =>
      obtain ⟨test', -, body', -, rfl⟩ := h
      exact hsame hquiet htemps hclear hlabels hfine hcontinue
    | doWhileStmt span test body =>
      obtain ⟨test', htest, body', hbody, rfl⟩ := hkin
      exact Kin.widen hwiden (kin_lowerDoWhile hnames hbody (hclear.part (.head _)) htest)
    | forStmt span init test update body =>
      obtain ⟨init', hinit, test', htest, update', hupdate, body', hbody, rfl⟩ := hkin
      refine Kin.widen hwiden (kin_lowerFor hnames hbody hclear (fun i hi => ?_) hinit htest hupdate)
      have hinit := Node.all_part hfine (.head _)
      cases init with
      | none => cases hi
      | some a =>
        cases hi
        exact (Node.all_iff.mp (Node.all_part hinit (.head _))).1
    | forInStmt span head subject body =>
      obtain ⟨head', hhead, subject', hsubject, body', hbody, rfl⟩ := hkin
      have hlow : Lowered I temps _ N head head' subject subject' body body' :=
        ⟨hclear.part (.head _), hclear.part (.tail _ (.head _)),
          (Node.all_iff.mp (Node.all_part hfine (.head _))).1, hhead, hsubject, hbody⟩
      exact hlow.kin_lowerForIn hI hbase hnames hquiet htemps
    | forOfStmt span isAwait head subject body =>
      obtain ⟨head', hhead, subject', hsubject, body', hbody, rfl⟩ := hkin
      have hlow : Lowered I temps _ N head head' subject subject' body body' :=
        ⟨hclear.part (.head _), hclear.part (.tail _ (.head _)),
          (Node.all_iff.mp (Node.all_part hfine (.head _))).1, hhead, hsubject, hbody⟩
      exact hlow.kin_lowerForOf hI hbase hnames hquiet htemps
    | _ => cases hloop
  · have hnot : k'.isLoop = false :=
      ((rewrites []).form_parts h).symm.trans (Bool.eq_false_iff.mpr hloop)
    rw [(rewrites []).other k' hnot]
    exact hsame

end Loops

/-- The names that have been made are none that the lowered code calls. -/
theorem symbol_notMem_newNames {s t : Context} (h : s.Steps t) : "Symbol" ∉ s.newNames t := by
  intro hmem
  obtain ⟨hnew, hold⟩ := Context.mem_newNames.mp hmem
  obtain ⟨hint, hhint, hstems⟩ := (h.stems hnew).resolve_left hold
  exact NameSupply.not_stems_symbol hhint hstems

/-- Lowering every loop of a program without `continue` keeps what the program and its functions do,
if nothing is reported as unsupported: the bodies run as often as before and with the same values, and
a jump out of a loop ends the same loops. Loops declare names only, iterators need no closing, the
supply of names has to know the names of the program, and it must not hand out the name of the key
helper. -/
theorem lowerLoops_preserves (p : Program) (cx : Context)
    (hknown : p.names ⊆ cx.names.reserved) (hcontinue : p.hasContinue = false)
    (hheads : p.all Node.bindsNames = true) {U V : Type} (I : Interp U V)
    (hclose : ∀ it, I.close false it = pure ()) (hhelper : I.keyHelper = cx.config.keyHelper) :
    let r := (lowerLoops p).run cx
    cx.config.keyHelper ∉ cx.newNames r.2 → r.2.count .unsupported = cx.count .unsupported →
      SameRuns I (cx.newNames r.2) p r.1 := by
  intro r hspared hquiet
  have hsteps := ((Loops.rewrites []).calm_bottomUp p cx).steps
  have hI : Loops.Sound I (cx.newNames r.2) cx.config :=
    ⟨hclose, hhelper, hspared, symbol_notMem_newNames hsteps⟩
  have hlabels := List.Subset.trans (Node.labelNames_subset_names p) hknown
  obtain ⟨-, hlow : Loops.Done I (cx.newNames r.2) p.labelNames cx r.2 p r.1⟩ :=
    loweredTo_bottomUp (Context.lasting_count _ _) (Loops.done_lowerLoop hI hlabels) p
  exact (hlow (Nat.le_of_eq hquiet) (List.Subset.refl _) (clear_newNames hknown _)
    (List.Subset.refl _) hheads (.inr hcontinue)).sameRuns

/-- `outer: for (let i = 0, n = f(); i; g(i)) { do { try { for (const k in o) if (h(k)) break outer; }
catch { } } while (a); for (x of xs) switch (x) { case 1: break; default: g(x); } }` -/
def nestedRounds : Program :=
  let call (f : String) (args : List String) : Expr :=
    Node.Build.call (Node.Build.name f) (args.map Node.Build.name)
  let declarator (x : String) (init : Option Expr) : Declarator :=
    .declarator .none false (.binder (.ofName x)) (.ofOption init)
  let leaving : Stmt :=
    Node.Build.ifElse (call "h" ["k"]) (Node.Build.breakTo (some (.ofName "outer"))) none
  let key : VarDecl := .varDecl .none 0 .const false (.ofList [declarator "k" none])
  let overKeys : Stmt := .forInStmt .none (.headDecl key) (Node.Build.name "o") leaving
  let guarding : Stmt := .tryStmt .none (Node.Build.block [overKeys])
    (.some (.handler .none .none (Node.Build.block []))) .none
  let choosing : Stmt := .switchStmt .none (Node.Build.name "x") (.ofList [
    .clause .none (.some (Node.Build.num 1)) (.ofList [Node.Build.breakTo none]),
    .clause .none .none (.ofList [Node.Build.exprStmt (call "g" ["x"])])])
  .scriptProgram .none none (.ofList [.labeledStmt .none (.ofName "outer")
    (.forStmt .none (.some (.initDecl (.varDecl .none 0 .let false (.ofList [
        declarator "i" (some (Node.Build.num 0)), declarator "n" (some (call "f" []))]))))
      (.some (Node.Build.name "i")) (.some (call "g" ["i"])) (Node.Build.blockStmt .none [
        .doWhileStmt .none (Node.Build.name "a") guarding,
        .forOfStmt .none false (.headPat (.binder (.ofName "x"))) (Node.Build.name "xs") choosing]))])

/-- An interpretation in which expressions give zero and iterators have nothing to give, but asking
for keys throws. -/
def Interp.keyless (helper : String) : Interp Unit Decimal :=
  { Interp.throwing with
    keyHelper := helper
    expr _ _ := pure (.ofNat 0)
    next _ _ := pure (.ofNat 1)
    close _ _ := pure () }

theorem lowerLoops_preserves_nestedRounds :
    let cx := Context.start .default nestedRounds
    let r := (lowerLoops nestedRounds).run cx
    nestedRounds.names ⊆ cx.names.reserved ∧ nestedRounds.hasContinue = false ∧
      nestedRounds.all Node.bindsNames = true ∧ cx.config.keyHelper ∉ cx.newNames r.2 ∧
      r.2.count .unsupported = cx.count .unsupported ∧
      SameRuns (.keyless "$forIn") (cx.newNames r.2) nestedRounds r.1 := by
  intro cx r
  have hknown : nestedRounds.names ⊆ cx.names.reserved := by decide +kernel
  have hcontinue : nestedRounds.hasContinue = false := by decide +kernel
  have hheads : nestedRounds.all Node.bindsNames = true := by decide +kernel
  have hspared : cx.config.keyHelper ∉ cx.newNames r.2 := by decide +kernel
  have hquiet : r.2.count .unsupported = cx.count .unsupported := by decide +kernel
  exact ⟨hknown, hcontinue, hheads, hspared, hquiet, lowerLoops_preserves nestedRounds cx hknown
    hcontinue hheads (.keyless "$forIn") (fun _ => rfl) rfl hspared hquiet⟩

namespace Interp

variable {helper : String} {temps : List String}

theorem value_keyless_name {x : String} (h : x ∉ temps) :
    (keyless helper).value temps (Node.Build.name x) = pure (.ofNat 0) := by
  rw [Node.Build.name, value_eq, codeOf_ref]
  conv_lhs => unfold eval
  exact if_neg h

/-- A call of a temporary is none of the key helper. -/
theorem value_keyless_call (h : helper ∈ temps) (subject : Expr) :
    (keyless helper).value temps (Node.Build.call (Node.Build.name helper) [subject]) =
      pure (.ofNat 0) := by
  have hcall : Node.Build.call (Node.Build.name helper) [subject] =
      .call .none 0 (.exprCallee (.ref (.ofName helper)))
        (.cons (.plainArg (Node.atLeast Node.assignStrength subject)) .nil) := rfl
  have hother (args : Node (.list .arg)) : loopCall (keyless helper) temps args
      (.exprCallee (.ref (.ofName helper))) = .other := by
    rw [loopCall, loopCall.ofCallee, if_neg fun hfree => hfree.2 h]
  rw [hcall, value_eq, codeOf_call, codeOf_exprCallee, codeOf_ref, eval_call_other _ (hother _)]
  rfl

end Interp

namespace Loops

variable {helper : String} {temps : List String}

theorem round_keyless (iter step : String) (body : Effect (State Unit Decimal) (Completion Decimal))
    (s : State Unit Decimal) :
    (((keyless helper).whileFrame ((keyless helper).stepTest iter step) (pure (.ofNat 0))).round []
      body).run s =
      .some (some .normal, { s with temps := Function.update s.temps step (.ofNat 1) }) := by
  rw [Frame.round_eq]
  change StateT.run (Frame.checking
    ((keyless helper).truthy <$> (keyless helper).stepTest iter step) _) s = _
  have hnext (v : Decimal) : lift ((keyless helper).next false v) =
      (pure (.ofNat 1) : Action (State Unit Decimal) Decimal Decimal) := rfl
  have hdone : (keyless helper).truthy ((keyless helper).field (.ofNat 1) "done") = true := by
    change (Decimal.ofNat 1 != Decimal.ofNat 0) = true
    decide
  simp only [checking_stepTest, hnext, orEnd_pure, hdone, if_true]
  rfl

/-- A lowered loop ends at once if its iterator has nothing to give. -/
theorem exec_iterated_keyless {iter step : Ident} {init : Expr} (hiter : iter.name ∈ temps)
    (hstep : step.name ∈ temps) (hinit : (keyless helper).value temps init = pure (.ofNat 0))
    (span : Span) (bound : List Stmt) (body : Stmt) (s : State Unit Decimal) :
    ∃ s', ((keyless helper).exec temps [] (iterated span iter step init bound body)).run s =
      .some (.normal, s') := by
  rw [exec_iterated hiter hstep, hinit, evaluating_pure]
  exact ⟨_, repeatUntil_of_some (round_keyless _ _ _ _)⟩

/-- A `for-in` loop ends with what is thrown when it asks for keys. -/
theorem exec_forIn_keyless {subject : Expr}
    (h : (keyless helper).value temps subject = pure (.ofNat 0)) (span : Span)
    (head : Node .forHead) (body : Stmt) :
    (keyless helper).exec temps [] (.forInStmt span head subject body) =
      pure (.throw (.ofNat 0)) := by
  have hkeys : lift ((keyless helper).keys (.ofNat 0)) =
      (throw (.ofNat 0) : Action (State Unit Decimal) Decimal Decimal) := lift_throw _
  rw [exec_forInStmt, h, pure_bind, hkeys, evaluating_throw]

/-- A lowered `for-in` loop that has captured the helper does not ask for keys. -/
theorem exec_lowerForIn_keyless {cx : Context} (hconfig : cx.config.keyHelper = helper)
    (hhelper : helper ∈ temps) (hiter : cx.names.pick "keys" ∈ temps)
    (hstep : (cx.withFresh "keys").names.pick "step" ∈ temps) {span : Span} {head : Node .forHead}
    {subject : Expr} {body : Stmt} (s : State Unit Decimal) :
    let r := (lowerForIn span head subject body).run cx
    r.2.count .unsupported ≤ cx.count .unsupported →
      ∃ s', ((keyless helper).exec temps [] r.1).run s = .some (.normal, s') := by
  intro r hquiet
  rcases run_lowerForIn span head subject body cx with
    ⟨message, hrun : r = _⟩ | ⟨b, -, -, hrun : r = _⟩
  · exact absurd (hrun ▸ hquiet) (not_quiet (.refl cx) message)
  · rw [hrun, run_iterate, hconfig]
    exact exec_iterated_keyless hiter hstep (value_keyless_call hhelper subject) _ _ _ s

end Loops

open Loops in
/-- A helper with the name of a hint is captured, and then the loop does something else:
`let keys = keys(o);` -/
theorem lowerLoops_changes_keyRounds :
    let cx := Context.start { Config.default with keyHelper := "keys" } keyRounds
    let r := (lowerLoops keyRounds).run cx
    r.2.count .unsupported = cx.count .unsupported ∧
      ¬SameRuns (.keyless "keys") (cx.newNames r.2) keyRounds r.1 := by
  intro cx r
  have hquiet : r.2.count .unsupported = cx.count .unsupported := by decide +kernel
  refine ⟨hquiet, fun hsame => ?_⟩
  let head : Node .forHead := .headDecl (.varDecl ⟨6, 13⟩ 0 .const false (.ofList [
    .declarator ⟨12, 13⟩ false (.binder (.ofName "k")) .none]))
  let body : Stmt := Node.Build.exprStmt (Node.Build.call (Node.Build.name "f") [Node.Build.name "k"])
  have hnone : ∀ k ∈ (Node.forInStmt ⟨1, 25⟩ head (Node.Build.name "o") body).children,
      k.2.all (fun m => !m.isLoop) = true := by decide +kernel
  have hrun : r = (.scriptProgram ⟨1, 25⟩ none (.ofList [((lowerForIn ⟨1, 25⟩ head
      (Node.Build.name "o") body).run cx).1]), _) :=
    Lower.run_bottomUp_script (fun m hm => Lower.bottomUp_eq_pure
      (fun k hk => (rewrites []).other k (by simpa using hk)) (hnone _ hm)) ⟨1, 25⟩ none cx
  have hprogram : keyRounds = .scriptProgram ⟨1, 25⟩ none (.ofList [
    .forInStmt ⟨1, 25⟩ head (Node.Build.name "o") body]) := rfl
  have hkeys : "keys" ∈ cx.newNames r.2 := by decide +kernel
  have hiter : cx.names.pick "keys" ∈ cx.newNames r.2 := by decide +kernel
  have hstep : (cx.withFresh "keys").names.pick "step" ∈ cx.newNames r.2 := by decide +kernel
  have ho : "o" ∉ cx.newNames r.2 := by decide +kernel
  have hconfig : cx.config.keyHelper = "keys" := rfl
  clear_value r cx
  subst hrun
  let s : State Unit Decimal := ⟨(), fun _ => .ofNat 0⟩
  obtain ⟨s', hs'⟩ := exec_lowerForIn_keyless hconfig hkeys hiter hstep s hquiet.le
  have hold {temps : List String} (ho : "o" ∉ temps) :
      (keyless "keys").exec temps [] keyRounds = pure (.throw (.ofNat 0)) := by
    rw [hprogram, exec_scriptProgram, Node.ofList, Node.ofList, exec_cons, exec_nil, seq_done,
      exec_forIn_keyless (value_keyless_name ho)]
  obtain ⟨e, he, hend, -⟩ := (hsame.1 s s rfl).1 (.throw (.ofNat 0), s)
    (by rw [hold ho]; exact Part.mem_some _)
  rw [exec_scriptProgram, Node.ofList, Node.ofList, exec_cons, exec_nil, seq_done, hs'] at he
  cases Part.mem_some_iff.mp he
  cases hend

end PlainJs

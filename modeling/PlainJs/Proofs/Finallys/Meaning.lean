import PlainJs.Proofs.Finallys.Exits
import PlainJs.Proofs.Lowered

namespace PlainJs

open Effect Run Interp Comparison

namespace Run

variable {S V : Type}

theorem tryFinally_done (x : Effect S (Completion V)) : tryFinally x done = x := by
  simp [tryFinally, done, Completion.isNormal]

end Run

namespace Finallys

variable {U V : Type} {I : Interp U V} {M N : List String} {given : String → V}
  {threw err caught : Ident} {v : V} {x x' f f' : Effect (State U V) (Completion V)}

/-- Records that something was thrown. -/
def recording (I : Interp U V) (threw err caught : Ident) (v : V) :
    Effect (State U V) (Completion V) :=
  setting caught.name v (setting threw.name (I.bool true)
    (reading caught.name fun w => setting err.name w done))

/-- The temporaries once something was thrown. -/
def thrown (I : Interp U V) (threw err caught : Ident) (given : String → V) (v : V) : String → V :=
  Function.update (Function.update (Function.update given caught.name v) threw.name (I.bool true))
    err.name v

/-- How a `try` that records what was thrown ends. -/
def Recorded (I : Interp U V) (threw err caught : Ident) (M : List String) (given : String → V)
    (c : Completion V) (s : State U V) (c' : Completion V) (s' : State U V) : Prop :=
  c' = .normal ∧ (c = .normal ∧ Near M given s s' ∨
    ∃ v, c = .throw v ∧ Near M (thrown I threw err caught given v) s s')

/-- The new names are none of the old ones and differ from each other. -/
structure NewNames (M : List String) (threw err caught : Ident) : Prop where
  not_threw : threw.name ∉ M
  not_err : err.name ∉ threw.name :: M
  not_caught : caught.name ∉ err.name :: threw.name :: M

theorem related_recording (h : NewNames M threw err caught) (v : V) :
    Related (Near M given) (Recorded I threw err caught M given)
      (pure (.throw v)) (recording I threw err caught v) := by
  obtain ⟨-, -, hcaught⟩ := h
  simp only [List.mem_cons, not_or] at hcaught
  refine related_setting (related_setting (related_reading hcaught.2.2 (related_setting ?_)))
  refine Related.pure fun s s' hs => ⟨rfl, .inr ⟨v, rfl, ?_⟩⟩
  rwa [Function.update_of_ne hcaught.2.1, Function.update_self] at hs

theorem related_tryCatch_recording (h : NewNames M threw err caught)
    (hx : Related (Near M given) (fun c s c' s' => c = c' ∧ c.Calm ∧ Near M given s s') x x') :
    Related (Near M given) (Recorded I threw err caught M given) x
      (tryCatch x' (some (recording I threw err caught))) := by
  rw [← bind_pure x]
  refine hx.bind fun c c' s s' hc => ?_
  obtain ⟨rfl, rfl | ⟨v, rfl⟩, hs⟩ := hc
  · exact Alike.some ⟨rfl, .inl ⟨rfl, hs⟩⟩
  · exact related_recording h v s s' hs

/-- Throws what was recorded. -/
def rethrowing (I : Interp U V) (threw err : Ident) : Effect (State U V) (Completion V) :=
  reading threw.name fun t =>
    if I.truthy t then reading err.name fun v => pure (.throw v) else done

/-- Equal ends with labels in `N`, after which the temporaries outside `M'` are as given. -/
abbrev Kept (M' N : List String) (given : String → V) (c : Completion V) (s : State U V)
    (c' : Completion V) (s' : State U V) : Prop :=
  (c = c' ∧ c.Within N true) ∧ Near M' given s s'

/-- The finalizer, where what follows it ends with `c`. -/
theorem related_finalizer {M' : List String} {g : String → V} {c : Completion V}
    {y : Effect (State U V) (Completion V)} (hM : M ⊆ M') (hg : ∀ x ∉ M', g x = given x)
    (hf : ∀ given, Sim (Near M given) (fun c c' => c = c' ∧ c.Within N true) f f')
    (hy : Related (Near M g) (Kept M' N given) (pure c) y) :
    Related (Near M g) (Kept M' N given)
      (f >>= fun d => pure (if d.isNormal then c else d)) (seq f' y) := by
  refine Related.bind (hf g) fun d d' s s' hd => ?_
  obtain ⟨⟨rfl, hwithin⟩, hs⟩ := hd
  cases hnormal : d.isNormal with
  | true => exact hy s s' hs
  | false => exact Alike.some ⟨⟨rfl, hwithin⟩, hs.mono hM hg⟩

theorem related_rethrowing_false {M' : List String} {g : String → V} (hM : M ⊆ M')
    (hg : ∀ x ∉ M', g x = given x) (hthrew : threw.name ∉ M)
    (hfalse : g threw.name = I.bool false) :
    Related (Near M g) (Kept M' N given) (pure .normal) (rethrowing I threw err) := by
  refine related_reading hthrew ?_
  rw [hfalse, I.truthy_bool, if_neg Bool.false_ne_true]
  exact Related.pure fun s s' hs => ⟨⟨rfl, trivial⟩, hs.mono hM hg⟩

theorem thrown_of_ne {y : String} (v : V)
    (hy : y ∉ [threw.name, err.name, caught.name]) : thrown I threw err caught given v y = given y := by
  simp only [List.mem_cons, List.not_mem_nil, or_false, not_or] at hy
  rw [thrown, Function.update_of_ne hy.2.1, Function.update_of_ne hy.1,
    Function.update_of_ne hy.2.2]

theorem related_rethrowing_true {M' : List String} {g : String → V} (hM : M ⊆ M')
    (hg : ∀ x ∉ M', thrown I threw err caught g v x = given x)
    (h : NewNames M threw err caught) :
    Related (Near M (thrown I threw err caught g v)) (Kept M' N given) (pure (.throw v))
      (rethrowing I threw err) := by
  have herr := h.not_err
  simp only [List.mem_cons, not_or] at herr
  have htrue : thrown I threw err caught g v threw.name = I.bool true := by
    rw [thrown, Function.update_of_ne (Ne.symm herr.1), Function.update_self]
  have hv : thrown I threw err caught g v err.name = v := by
    rw [thrown, Function.update_self]
  refine related_reading h.not_threw ?_
  rw [htrue, I.truthy_bool, if_pos rfl]
  refine related_reading herr.2 ?_
  rw [hv]
  exact Related.pure fun s s' hs => ⟨⟨rfl, trivial⟩, hs.mono hM hg⟩

/-- A `try` with a finalizer and the code that records what is thrown, runs the finalizer and throws
what was recorded. -/
theorem related_lowered {M' : List String} (hM : M ⊆ M')
    (hmine : ∀ y ∈ [threw.name, err.name, caught.name], y ∈ M')
    (h : NewNames M threw err caught)
    (hx : ∀ given, Related (Near M given) (Recorded I threw err caught M given) x x')
    (hf : ∀ given, Sim (Near M given) (fun c c' => c = c' ∧ c.Within N true) f f') :
    Related (Near M given) (Kept M' N given) (tryFinally x f)
      (setting threw.name (I.bool false) (setting err.name I.undefined
        (seq x' (seq f' (rethrowing I threw err))))) := by
  let g := Function.update (Function.update given threw.name (I.bool false)) err.name I.undefined
  have hne : ∀ x ∉ M', x ∉ [threw.name, err.name, caught.name] := fun x hx hmem => hx (hmine x hmem)
  have hg : ∀ x ∉ M', g x = given x := by
    intro x hx
    have hmem := hne x hx
    simp only [List.mem_cons, List.not_mem_nil, or_false, not_or] at hmem
    simp only [g, Function.update_of_ne hmem.1, Function.update_of_ne hmem.2.1]
  have hfalse : g threw.name = I.bool false := by
    have herr := h.not_err
    simp only [List.mem_cons, not_or] at herr
    simp only [g, Function.update_of_ne (Ne.symm herr.1), Function.update_self]
  refine related_setting (related_setting ((hx g).bind fun c c' s s' hrec => ?_))
  obtain ⟨rfl, ⟨rfl, hs⟩ | ⟨v, rfl, hs⟩⟩ := hrec
  · exact related_finalizer hM hg hf (related_rethrowing_false hM hg h.not_threw hfalse) s s' hs
  · have hg' : ∀ x ∉ M', thrown I threw err caught g v x = given x := fun x hx =>
      (thrown_of_ne v (hne x hx)).trans (hg x hx)
    exact related_finalizer hM hg' hf (related_rethrowing_true hM hg' h) s s' hs

variable {temps : List String}

/-- The new names are temporaries. -/
structure AreTemps (temps : List String) (threw err caught : Ident) : Prop where
  threw_mem : threw.name ∈ temps
  err_mem : err.name ∈ temps
  caught_mem : caught.name ∈ temps

theorem catching_recordClause (h : AreTemps temps threw err caught) :
    I.catching temps (recordClause threw err caught) =
      some (recording I threw err caught) := by
  rw [recordClause, catching_handler_some]
  congr 1
  funext v
  have hcode : codeOf I temps (.binder caught) = _ := codeOf_binder caught
  rw [codeOf, Prod.mk.injEq] at hcode
  simp only [hcode.1, bindCaught, if_pos h.caught_mem, evaluating_writeTemp, Node.Build.block,
    Node.ofList, exec_block, exec_cons, exec_nil, seq_done, exec_assignTo h.threw_mem,
    exec_assignTo h.err_mem, value_bool, evaluating_pure, seq_setting, done_seq,
    value_ref h.caught_mem, evaluating_readTemp]
  rfl

theorem exec_guarded_none (h : AreTemps temps threw err caught) (body : Block) :
    I.exec temps [] (guarded body (recordClause threw err caught) .none) =
      Run.tryCatch (I.exec temps [] body) (some (recording I threw err caught)) := by
  rw [guarded, exec_tryStmt, catching_some, catching_recordClause h, exec_none, tryFinally_done]

theorem exec_guarded_some (body : Block) (span : Span) (p : Node (.opt .pat))
    (b : Block) :
    I.exec temps [] (guarded body (recordClause threw err caught) (.some (.handler span p b))) =
      Run.tryCatch (I.exec temps [] body) (I.catching temps (.handler span p
        (Node.Build.block [.tryStmt .none b (.some (recordClause threw err caught)) .none]))) := by
  rw [guarded, exec_tryStmt, catching_some, exec_none, tryFinally_done]

theorem exec_lowered (h : AreTemps temps threw err caught) (span : Span) (x : Stmt)
    (finalizer : Block) (labels : List String) :
    I.exec temps labels (Node.Build.blockStmt span
      [Node.Build.declare .let threw (some (Node.Build.bool false)),
        Node.Build.declare .let err none, x, .blockStmt finalizer,
        Node.Build.ifElse (.ref threw) (Node.Build.throwStmt (.ref err)) none]) =
      setting threw.name (I.bool false) (setting err.name I.undefined
        (seq (I.exec temps [] x) (seq (I.exec temps [] finalizer)
          (rethrowing I threw err)))) := by
  simp only [Node.Build.blockStmt, Node.ofList, exec_blockStmt, exec_block, exec_cons, exec_nil,
    seq_done, exec_declare_some h.threw_mem, exec_declare_none h.err_mem, value_bool,
    evaluating_pure, seq_setting, done_seq, Node.Build.ifElse, Node.ofOption, exec_ifStmt,
    exec_none, value_ref h.threw_mem, evaluating_readTemp, Node.Build.throwStmt, exec_throwStmt,
    value_ref h.err_mem, rethrowing]

/-- Goes on with a changed user part of the state. -/
def updating {A : Type} (g : U → U) (k : Effect (State U V) A) : Effect (State U V) A :=
  fun s => k.run { s with user := g s.user }

theorem related_updating {R : State U V → State U V → Prop} (hR : Neutral R)
    {Post : Completion V → State U V → Completion V → State U V → Prop} (g : U → U)
    (h : Related R Post x x') : Related R Post (updating g x) (updating g x') := by
  intro s s' hs
  change Alike _ (x.run { s with user := g s.user }) (x'.run { s' with user := g s'.user })
  rw [← hR.user_eq hs]
  exact h _ _ (hR.update _ hs)

theorem evaluating_bindCaught {id : Ident} (hid : id.name ∉ temps) (bs : List (Body U V))
    (v : V) (k : Unit → Effect (State U V) (Completion V)) :
    evaluating (I.bindCaught temps bs v (.binder id)) k = updating (I.catchName id v) (k ()) := by
  rw [bindCaught, if_neg hid]
  funext s
  change StateT.run (evaluating _ _) s = _
  rw [evaluating, StateT.run_bind]
  change (Part.map _ (Part.some _)).bind _ = _
  rw [Part.map_some, Part.bind_some]
  rfl

variable {body body' b b' : Block}

theorem related_calm (hb : (keeping M N true).Kin I temps (fun _ => True) body body')
    (hexits : exits .top body' = []) (given : String → V) :
    Related (Near M given) (fun c s c' s' => c = c' ∧ c.Calm ∧ Near M given s s')
      (I.exec temps [] body) (I.exec temps [] body') := by
  have hsim := (hb.exec given [] trivial).restrict_right (calm_of_exits hexits)
  refine Related.mono hsim ?_
  rintro c s _ s' ⟨⟨⟨rfl, -⟩, hcalm⟩, hs⟩
  exact ⟨rfl, hcalm, hs⟩

theorem related_guarded_none (h : NewNames M threw err caught)
    (htemps : AreTemps temps threw err caught)
    (hbody : (keeping M N true).Kin I temps (fun _ => True) body body')
    (hexits : exits .top body' = []) (given : String → V) :
    Related (Near M given) (Recorded I threw err caught M given) (I.exec temps [] body)
      (I.exec temps [] (guarded body' (recordClause threw err caught) .none)) := by
  rw [exec_guarded_none htemps]
  exact related_tryCatch_recording h (related_calm hbody hexits given)

/-- What the handler of a `try` and the handler that records do with what was thrown. -/
theorem related_handler (span : Span) (h : NewNames M threw err caught)
    (htemps : AreTemps temps threw err caught) {param param' : Node (.opt .pat)}
    (hparam : codeOf I temps param = codeOf I temps param')
    (hplain : param.toOption.all Node.isBinder = true) (hclear : param.Clear temps)
    (hb : (keeping M N true).Kin I temps (fun _ => True) b b') (hexits : exits .top b' = []) :
    Option.Rel (fun k k' => ∀ given v, Related (Near M given) (Recorded I threw err caught M given)
        (k v) (k' v))
      (I.catching temps (.handler span param b)) (I.catching temps (.handler span param'
        (Node.Build.block [.tryStmt .none b' (.some (recordClause threw err caught)) .none]))) := by
  have hinner : I.exec temps [] (Node.Build.block
      [.tryStmt .none b' (.some (recordClause threw err caught)) .none]) =
      Run.tryCatch (I.exec temps [] b') (some (recording I threw err caught)) := by
    rw [← exec_guarded_none htemps, guarded, Node.Build.block, exec_block, Node.ofList, exec_cons,
      Node.ofList, exec_nil, seq_done]
  have hrun := fun given => related_tryCatch_recording (I := I) h (related_calm hb hexits given)
  rcases codeOf_opt_cases hparam with ⟨rfl, rfl⟩ | ⟨p, p', rfl, rfl, hp⟩
  · rw [catching_handler_none, catching_handler_none, hinner]
    exact .some fun given _ => hrun given
  · rw [codeOf, codeOf, Prod.mk.injEq] at hp
    rw [catching_handler_some, catching_handler_some, hinner, ← hp.1, ← hp.2]
    cases p with
    | binder id =>
      have hid : id.name ∉ temps := (hclear.part (.head _)).own (.head _)
      have hskeleton : (Node.binder id).skeleton = .binder id := Node.skeleton_eq_mapParts (by simp)
      rw [hskeleton]
      refine .some fun given v => ?_
      rw [evaluating_bindCaught hid, evaluating_bindCaught hid]
      exact related_updating ((keeping M N true).neutral given) _ (hrun given)
    | _ => cases hplain

theorem related_guarded_some (h : NewNames M threw err caught)
    (htemps : AreTemps temps threw err caught)
    (hbody : (keeping M N true).Kin I temps (fun _ => True) body body')
    (hexits : exits .top body' = []) {span : Span} {param param' : Node (.opt .pat)}
    (hparam : codeOf I temps param = codeOf I temps param')
    (hplain : param.toOption.all Node.isBinder = true) (hclear : param.Clear temps)
    (hb : (keeping M N true).Kin I temps (fun _ => True) b b') (hexits' : exits .top b' = [])
    (given : String → V) :
    Related (Near M given) (Recorded I threw err caught M given)
      (Run.tryCatch (I.exec temps [] body) (I.catching temps (.handler span param b)))
      (I.exec temps [] (guarded body' (recordClause threw err caught)
        (.some (.handler span param' b')))) := by
  rw [exec_guarded_some]
  have hhandler := related_handler span h htemps hparam hplain hclear hb hexits'
  have hsome : (I.catching temps (.handler span param b)).isSome = true := by
    cases param <;> simp
  generalize I.catching temps (.handler span param b) = k at hhandler hsome ⊢
  generalize I.catching temps (.handler span param' _) = k' at hhandler ⊢
  cases hhandler with
  | none => cases hsome
  | some hk =>
    refine (related_calm hbody hexits given).bind fun c c' s s' hc => ?_
    obtain ⟨rfl, rfl | ⟨v, rfl⟩, hs⟩ := hc
    · exact Alike.some ⟨rfl, .inl ⟨rfl, hs⟩⟩
    · exact hk given v s s' hs

/-- The `catch` clause of a `try` with a finalizer binds at most a name. -/
def catchesName : {c : Cat} → Node c → Bool
  | _, .tryStmt _ _ (.some (.handler _ param _)) (.some _) => param.toOption.all Node.isBinder
  | _, _ => true

theorem lowerTry_of_isTry_eq_false {s : Stmt} (h : s.isTry = false) : lowerTry s = pure s := by
  cases s <;> first | rfl | cases h

/-- A context in which the jumps that leave a `try` have been reported. -/
def reporting (t : Context) (sites : List (Span × Exit)) : Context :=
  { t with diagnostics := t.diagnostics ++
      sites.map fun x => ⟨.limitation, x.1, exitMessage x.2⟩ }

theorem run_report (sites : List (Span × Exit)) (t : Context) :
    (sites.forM fun (site, e) => Lower.limitation site (exitMessage e)).run t =
      ((), reporting t sites) := by
  induction sites generalizing t with
  | nil =>
    rw [reporting, List.map_nil, List.append_nil]
    rfl
  | cons x sites ih =>
    refine (ih (t.record ⟨.limitation, x.1, exitMessage x.2⟩)).trans ?_
    simp [reporting, Context.record]

theorem grows_reporting (t : Context) (sites : List (Span × Exit)) :
    t.Grows (reporting t sites) :=
  ⟨rfl, List.Subset.refl _, _, rfl⟩

theorem count_reporting (t : Context) (sites : List (Span × Exit)) :
    (reporting t sites).count .limitation = t.count .limitation + sites.length := by
  simp [Context.count, reporting, List.countP_map, Function.comp_def]

/-- The contexts after the three temporaries of a lowered `try` have been made, one by one. -/
def afterThrew (t : Context) : Context := t.withFresh "threw"

def afterErr (t : Context) : Context := (afterThrew t).withFresh "err"

def afterCaught (t : Context) : Context := (afterErr t).withFresh "e"

def threwName (t : Context) : Ident := .ofName (t.names.pick "threw")

def errName (t : Context) : Ident := .ofName ((afterThrew t).names.pick "err")

def caughtName (t : Context) : Ident := .ofName ((afterErr t).names.pick "e")

theorem run_lower (span : Span) (body : Block) (handler : Node (.opt .handler)) (finalizer : Block)
    (t : Context) :
    (lower span body handler finalizer).run t =
      (Node.Build.blockStmt span
        [Node.Build.declare .let (threwName t) (some (Node.Build.bool false)),
          Node.Build.declare .let (errName t) none,
          guarded body (recordClause (threwName t) (errName t) (caughtName t)) handler,
          .blockStmt finalizer,
          Node.Build.ifElse (.ref (threwName t)) (Node.Build.throwStmt (.ref (errName t))) none],
        afterCaught t) := rfl

theorem grows_afterCaught (t : Context) : t.Grows (afterCaught t) :=
  (t.grows_withFresh _).trans (((afterThrew t).grows_withFresh _).trans
    ((afterErr t).grows_withFresh _))

theorem newNames_afterCaught (base t : Context) :
    NewNames (base.newNames t) (threwName t) (errName t) (caughtName t) where
  not_threw := base.pick_notMem_newNames t _
  not_err := by
    intro hmem
    refine (afterThrew t).names.pick_notMem "err" ?_
    change (errName t).name ∈ (threwName t).name :: t.names.reserved
    rcases List.mem_cons.mp hmem with heq | hmem
    · exact heq ▸ .head _
    · exact .tail _ (Context.mem_newNames.mp hmem).1
  not_caught := by
    intro hmem
    refine (afterErr t).names.pick_notMem "e" ?_
    change (caughtName t).name ∈ (errName t).name :: (threwName t).name :: t.names.reserved
    rcases List.mem_cons.mp hmem with heq | hmem
    · exact heq ▸ .head _
    rcases List.mem_cons.mp hmem with heq | hmem
    · exact heq ▸ .tail _ (.head _)
    · exact .tail _ (.tail _ (Context.mem_newNames.mp hmem).1)

theorem mem_newNames_afterCaught {base t : Context} (h : base.Grows t) :
    ∀ y ∈ [(threwName t).name, (errName t).name, (caughtName t).name],
      y ∈ base.newNames (afterCaught t) := by
  have hthrew := Context.pick_mem_newNames h "threw"
  have h₁ := h.trans (t.grows_withFresh "threw")
  have herr := Context.pick_mem_newNames h₁ "err"
  have h₂ := h₁.trans ((afterThrew t).grows_withFresh "err")
  have hcaught := Context.pick_mem_newNames h₂ "e"
  have hgrows := (afterErr t).grows_withFresh "e"
  intro y hy
  simp only [List.mem_cons, List.not_mem_nil, or_false] at hy
  rcases hy with rfl | rfl | rfl
  · exact Context.newNames_subset (((afterThrew t).grows_withFresh "err").trans hgrows) hthrew
  · exact Context.newNames_subset hgrows herr
  · exact hcaught

theorem functionMeanings_lowered (span : Span) (body b : Block)
    (handler : Node (.opt .handler)) :
    I.functionMeanings temps (Node.Build.blockStmt span
        [Node.Build.declare .let threw (some (Node.Build.bool false)),
          Node.Build.declare .let err none,
          guarded body (recordClause threw err caught) handler, .blockStmt b,
          Node.Build.ifElse (.ref threw) (Node.Build.throwStmt (.ref err)) none]) =
      I.functionMeanings temps body ++ (I.functionMeanings temps handler ++
        I.functionMeanings temps b) := by
  have hrecord : I.functionMeanings temps (recordClause threw err caught) = [] := by
    simp [recordClause, Node.Build.block, Node.ofList, Node.Build.assignTo, Node.Build.assign,
      Node.Build.bool]
  cases handler with
  | none =>
    simp [Node.Build.blockStmt, Node.ofList, Node.Build.declare, Node.Build.declarePat,
      Node.Build.bool, Node.ofOption, guarded, hrecord, Node.Build.ifElse, Node.Build.throwStmt]
  | some h =>
    cases h
    simp [Node.Build.blockStmt, Node.ofList, Node.Build.declare, Node.Build.declarePat,
      Node.Build.bool, Node.ofOption, guarded, hrecord, Node.Build.ifElse, Node.Build.throwStmt,
      Node.Build.block]

variable {base t : Context}

/-- What this pass has made of a tree. -/
abbrev Done (I : Interp U V) (temps N : List String) (base t : Context) {c : Cat}
    (n n' : Node c) : Prop :=
  LoweredTo I temps N true base (·.count .limitation ≤ base.count .limitation) catchesName t n n'

/-- A `try` with a finalizer whose parts are lowered, and what becomes of it. -/
theorem done_lower {span : Span} {handler handler' : Node (.opt .handler)} {fin fin' : Block}
    (hbase : base.Grows t) (hbody : Done I temps N base t body body')
    (hhandler : Node.Deep (Done I temps N base t) handler handler')
    (hfin : Done I temps N base t fin fin') (hexits : earlyExits body' handler' = []) :
    Done I temps N base (afterCaught t) (.tryStmt span body handler (.some fin))
      ((lower span body' handler' fin').run t).1 := by
  intro hcount htemps hclear hlabels hfine hcontinue
  have hgrows := grows_afterCaught t
  have hcount' : t.count .limitation ≤ base.count .limitation :=
    (hgrows.count_le _).trans hcount
  have htemps' : base.newNames t ⊆ temps :=
    List.Subset.trans (Context.newNames_subset hgrows) htemps
  have hnew := newNames_afterCaught base t
  have hmine := mem_newNames_afterCaught hbase
  have hare : AreTemps temps (threwName t) (errName t) (caughtName t) :=
    ⟨htemps (hmine _ (.head _)), htemps (hmine _ (.tail _ (.head _))),
      htemps (hmine _ (.tail _ (.tail _ (.head _))))⟩
  -- what the parts need follows from what the whole needs
  have need : ∀ {d : Cat} {k k' : Node d}, Done I temps N base t k k' → k.Clear temps →
      k.labelNames ⊆ N → k.all catchesName = true →
      (keeping (base.newNames t) N true).Kin I temps (fun _ => True) k k' :=
    fun h hc hl hf => h hcount' htemps' hc hl hf (.inl rfl)
  have hbodyKin := need hbody (hclear.part (.head _)) (Node.labelNames_part hlabels (.head _))
    (Node.all_part hfine (.head _))
  have hhandlerKin := need hhandler.rel (hclear.part (.tail _ (.head _)))
    (Node.labelNames_part hlabels (.tail _ (.head _))) (Node.all_part hfine (.tail _ (.head _)))
  have hlast : (⟨_, .some fin⟩ : Sigma Node) ∈
      (Node.tryStmt span body handler (.some fin)).children := .tail _ (.tail _ (.head _))
  have hfinKin := need hfin ((hclear.part hlast).part (.head _))
    (Node.labelNames_part (Node.labelNames_part hlabels hlast) (.head _))
    (Node.all_part (Node.all_part hfine hlast) (.head _))
  obtain ⟨hexits₁, hexits₂⟩ := List.append_eq_nil_iff.mp hexits
  have hguarded : ∀ given, Related (Near (base.newNames t) given)
      (Recorded I (threwName t) (errName t) (caughtName t) (base.newNames t) given)
      (Run.tryCatch (I.exec temps [] body) (I.catching temps handler))
      (I.exec temps [] (guarded body'
        (recordClause (threwName t) (errName t) (caughtName t)) handler')) := by
    intro given
    cases handler with
    | none =>
      obtain rfl : handler' = .none := hhandler.parts nofun
      rw [catching_none]
      exact related_guarded_none hnew hare hbodyKin hexits₁ given
    | some h =>
      obtain ⟨h', hdeep, rfl⟩ : ∃ h', Node.Deep (Done I temps N base t) h h' ∧
        handler' = .some h' := hhandler.parts nofun
      cases h with
      | handler hspan param b =>
        obtain ⟨param', hparam, b', hb, rfl⟩ := hdeep.parts nofun
        have hmem : (⟨_, .some (.handler hspan param b)⟩ : Sigma Node) ∈
          (Node.tryStmt span body (.some (.handler hspan param b)) (.some fin)).children :=
          .tail _ (.head _)
        have hclear' := (hclear.part hmem).part (.head _)
        have hlabels' := Node.labelNames_part (Node.labelNames_part hlabels hmem) (.head _)
        have hfine' := Node.all_part (Node.all_part hfine hmem) (.head _)
        have hparamKin := need hparam.rel (hclear'.part (.head _))
          (Node.labelNames_part hlabels' (.head _)) (Node.all_part hfine' (.head _))
        have hbKin := need hb.rel (hclear'.part (.tail _ (.head _)))
          (Node.labelNames_part hlabels' (.tail _ (.head _)))
          (Node.all_part hfine' (.tail _ (.head _)))
        rw [catching_some]
        exact related_guarded_some hnew hare hbodyKin hexits₁ (hparamKin.code trivial)
          (Node.all_iff.mp hfine).1 (hclear'.part (.head _)) hbKin hexits₂ given
  refine .of_exec (fun given labels _ => ?_) ?_
  · rw [exec_tryStmt, exec_some, run_lower, exec_lowered hare]
    exact sim_of_related (fun given => related_lowered (Context.newNames_subset hgrows) hmine hnew
      hguarded fun given => hfinKin.exec given [] trivial) given
  · rw [run_lower]
    change List.Subperm _ _
    rw [functionMeanings_lowered, functionMeanings_tryStmt, functionMeanings_some]
    exact hbodyKin.nested.append (hhandlerKin.nested.append hfinKin.nested)

theorem done_lowerTry {k k' : Stmt} (hbase : base.Grows t)
    (h : Node.Parts (Node.Deep (Done I temps N base t)) k k') :
    t.Grows ((lowerTry k').run t).2 ∧
      Done I temps N base ((lowerTry k').run t).2 k ((lowerTry k').run t).1 := by
  have hsame : t.Grows t ∧ Done I temps N base t k k' :=
    ⟨.refl t, .of_parts (h.imp fun _ hk => hk.rel)⟩
  by_cases htry : k.isTry = true
  · cases k with
    | tryStmt span body handler fin =>
      obtain ⟨body', hbody, handler', hhandler, fin', hfin, rfl⟩ := h
      cases fin with
      | none =>
        obtain rfl : fin' = .none := hfin.parts nofun
        exact hsame
      | some b =>
        obtain ⟨b', hb, rfl⟩ : ∃ b', Node.Deep (Done I temps N base t) b b' ∧ fin' = .some b' :=
          hfin.parts nofun
        have hrun : (lowerTry (.tryStmt span body' handler' (.some b'))).run t =
            (lower span body' handler' b').run (reporting t (earlyExits body' handler')) := by
          rw [lowerTry, StateT.run_bind, run_report]
          rfl
        rw [hrun]
        have hgrows := grows_reporting t (earlyExits body' handler')
        have hlasting : Context.Lasting (·.count .limitation ≤ base.count .limitation) :=
          Context.lasting_count _ _
        refine ⟨hgrows.trans (grows_afterCaught _), fun hcount => ?_⟩
        have hexits : earlyExits body' handler' = [] := by
          have hle := ((grows_afterCaught _).count_le .limitation).trans hcount
          rw [count_reporting] at hle
          have hge := hbase.count_le .limitation
          exact List.eq_nil_of_length_eq_zero (by omega)
        exact done_lower (hbase.trans hgrows) (hbody.rel.mono hlasting hgrows)
          (hhandler.imp fun hk => hk.mono hlasting hgrows) (hb.rel.mono hlasting hgrows) hexits hcount
    | _ => cases htry
  · have hnot : k'.isTry = false := by
      have hform := h.form_eq Node.isTry fun m => by cases m <;> rfl
      rw [← hform]
      simpa using htry
    rw [lowerTry_of_isTry_eq_false hnot]
    exact hsame

end Finallys

open Finallys in
/-- Where no jump that leaves a `try` is reported, removing every `finally` of a program keeps what
the program and its functions do. The supply of names has to know the names of the program. -/
theorem lowerFinallys_preserves (p : Program) (cx : Context)
    (hknown : p.names ⊆ cx.names.reserved) (hcatch : p.all catchesName = true)
    (hquiet : ((lowerFinallys p).run cx).2.count .limitation = cx.count .limitation)
    {U V : Type} (I : Interp U V) :
    let r := (lowerFinallys p).run cx
    SameRuns I (cx.newNames r.2) p r.1 := by
  obtain ⟨-, hlow : Done I (cx.newNames ((lowerFinallys p).run cx).2) p.labelNames cx _ p _⟩ :=
    loweredTo_bottomUp (Context.lasting_count _ _) done_lowerTry p
  exact (hlow hquiet.le (List.Subset.refl _) (clear_newNames hknown _) (List.Subset.refl _) hcatch
    (.inl rfl)).sameRuns

/-- `try { f(); } catch (e) { g(e); } finally { h(); }` -/
def guardedCall : Program :=
  let call (f : String) (args : List String) : Stmt :=
    Node.Build.exprStmt (Node.Build.call (Node.Build.name f) (args.map Node.Build.name))
  .scriptProgram .none none (.ofList [
    .tryStmt .none (Node.Build.block [call "f" []])
      (.some (.handler .none (.some (.binder (.ofName "e"))) (Node.Build.block [call "g" ["e"]])))
      (.some (Node.Build.block [call "h" []]))])

theorem lowerFinallys_preserves_guardedCall :
    let cx := Context.start .default guardedCall
    let r := (lowerFinallys guardedCall).run cx
    guardedCall.names ⊆ cx.names.reserved ∧ guardedCall.all Finallys.catchesName = true ∧
      r.2.count .limitation = cx.count .limitation ∧
        ∀ {U V : Type} (I : Interp U V), SameRuns I (cx.newNames r.2) guardedCall r.1 := by
  have hknown : guardedCall.names ⊆ (Context.start .default guardedCall).names.reserved := by
    decide +kernel
  have hcatch : guardedCall.all Finallys.catchesName = true := by decide +kernel
  have hquiet : ((lowerFinallys guardedCall).run (.start .default guardedCall)).2.count .limitation =
      (Context.start .default guardedCall).count .limitation := by decide +kernel
  exact ⟨hknown, hcatch, hquiet, fun I => lowerFinallys_preserves _ _ hknown hcatch hquiet I⟩

end PlainJs

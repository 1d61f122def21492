import PlainJs.Proofs.Declarations.Runs
import PlainJs.Proofs.Destructuring.Evaluation

namespace PlainJs

open Node Interp Declarations

namespace Host

variable {W P K : Type} [DecidableEq K] {H : Host W P K} {temps names names' : List String}
  {given given' : String → Value P} {kind : VarKind} {A : Type}

/-- Equal memories, and a second state whose temporaries in `names` are as given. -/
def Known (names : List String) (given : String → Value P)
    (s s' : State (Memory W P K) (Value P)) : Prop :=
  s.user = s'.user ∧ ∀ x ∈ names, s'.temps x = given x

omit [DecidableEq K] in
theorem neutral_known : Neutral (Known names given : State (Memory W P K) (Value P) → _ → Prop) :=
  ⟨fun h => h.1, fun _ h => ⟨rfl, h.2⟩⟩

omit [DecidableEq K] in
theorem run_bind {x : Act W P K A} {B : Type} {f : A → Act W P K B} {r : A}
    {s t : State (Memory W P K) (Value P)} (h : x.run.run s = .some (.ok r, t)) :
    (x >>= f).run.run s = (f r).run.run t := by
  rw [ExceptT.run_bind, StateT.run_bind, h]
  exact Part.bind_some _ _

section

variable {a b : Act W P K A} {x : String} {v : Value P}

omit [DecidableEq K] in
/-- A write to a temporary that was not known. -/
theorem keep_write (hx : x ∉ names)
    (h : a.Keep (Known (x :: names) (Function.update given x v)) b) :
    a.Keep (Known names given) (writeTemp x v >>= fun _ => b) := by
  intro s s' hs
  have hne : ∀ y ∈ names, y ≠ x := fun y hy hyx => hx (hyx ▸ hy)
  let t : State (Memory W P K) (Value P) := { s' with temps := Function.update s'.temps x v }
  rw [run_bind (t := t) rfl]
  refine (h s t ⟨hs.1, ?_⟩).mono ?_
  · intro y hy
    rcases List.mem_cons.mp hy with rfl | hy
    · simp [t]
    · simp [t, hne y hy, hs.2 y hy]
  · rintro r r' ⟨hr, huser, htemps⟩
    refine ⟨hr, huser, fun y hy => ?_⟩
    rw [htemps y (List.mem_cons_of_mem _ hy), Function.update_of_ne (hne y hy)]

omit [DecidableEq K] in
/-- What holds for any values of further temporaries holds for those that are there. -/
theorem keep_resume (hsub : names ⊆ names')
    (h : ∀ given', (∀ y ∈ names, given' y = given y) → a.Keep (Known names' given') b) :
    a.Keep (Known names given) b := by
  intro s s' hs
  refine (h s'.temps hs.2 s s' ⟨hs.1, fun _ _ => rfl⟩).mono ?_
  rintro r r' ⟨hr, huser, htemps⟩
  exact ⟨hr, huser, fun y hy => (htemps y (hsub hy)).trans (hs.2 y hy)⟩

/-- A temporary that is known to hold a value. -/
structure Held (temps names : List String) (given : String → Value P) (id : Ident)
    (v : Value P) : Prop where
  temp : id.name ∈ temps
  known : id.name ∈ names
  value : given id.name = v

theorem Held.mono {id : Ident} (h : Held temps names given id v) (hsub : names ⊆ names')
    (hgiven : ∀ y ∈ names, given' y = given y) : Held temps names' given' id v :=
  ⟨h.temp, hsub h.known, (hgiven _ h.known).trans h.value⟩

theorem run_ref {id : Ident} (hid : id.name ∈ temps) (s : State (Memory W P K) (Value P)) :
    (H.eval temps (.ref id)).run.run s = .some (.ok (s.temps id.name), s) := by
  change (H.read temps id).run.run s = _
  rw [read, if_pos hid]
  rfl

/-- A read of a known temporary. -/
theorem keep_ref {id : Ident} {f : Value P → Act W P K A} (hid : Held temps names given id v)
    (h : a.Keep (Known names given) (f v)) :
    a.Keep (Known names given) (H.eval temps (.ref id) >>= f) := by
  intro s s' hs
  have hvalue : s'.temps id.name = v := (hs.2 _ hid.known).trans hid.value
  have hrun : (H.eval temps (.ref id)).run.run s' = .some (.ok v, s') := by
    rw [run_ref hid.temp, hvalue]
  rw [run_bind hrun]
  exact h s s' hs

end

theorem exec_cons (stmt : Stmt) (l : List Stmt) :
    H.exec temps (stmt :: l) = H.execStmt temps stmt >>= fun _ => H.exec temps l := rfl

theorem exec_singleton (stmt : Stmt) : H.exec temps [stmt] = H.execStmt temps stmt :=
  bind_pure_unit

theorem exec_append (l l' : List Stmt) :
    H.exec temps (l ++ l') = H.exec temps l >>= fun _ => H.exec temps l' := by
  simp [exec]

theorem execStmt_declarePat (span : Span) (p : Pat) (e : Expr) :
    H.execStmt temps (Build.declarePat span kind p (some e)) =
      H.eval temps e >>= H.bindPattern temps kind p := by
  change (H.eval temps e >>= H.bindPattern temps kind p) >>= (fun _ => pure ()) = _
  exact bind_pure_unit

theorem bindPattern_temp {id : Ident} (hid : id.name ∈ temps) (v : Value P) :
    H.bindPattern temps kind (.binder id) v = writeTemp id.name v := by
  rw [bindPattern, bindName, if_pos hid]
  rfl

theorem bindPattern_name {id : Ident} (hid : id.name ∉ temps) (v : Value P) :
    H.bindPattern temps kind (.binder id) v =
      onMemory fun m => ((), m.declare kind id.name (some v)) := by
  rw [bindPattern, bindName, if_neg hid]

/-- The first part of some statements, and then the second one with what is known by then. -/
theorem keep_append {a b : Act W P K Unit} {l l' : List Stmt}
    (hsub : names ⊆ names') (h : a.Keep (Known names given) (H.exec temps l))
    (h' : ∀ given', (∀ y ∈ names, given' y = given y) →
      b.Keep (Known names' given') (H.exec temps l')) :
    (a >>= fun _ => b).Keep (Known names given) (H.exec temps (l ++ l')) := by
  rw [exec_append]
  exact h.bind fun _ => keep_resume hsub h'

/-- A value that is kept in a new temporary. -/
theorem keep_fresh {cx : Context} {hint : String} {value : Expr} {x : Act W P K (Value P)}
    {f : Value P → Act W P K Unit} {l : List Stmt} (hpick : cx.names.pick hint ∈ temps)
    (hvalue : x.Keep (Known cx.names.reserved given) (H.eval temps value))
    (h : ∀ (v : Value P) (given' : String → Value P),
      Held temps (cx.withFresh hint).names.reserved given' (.ofName (cx.names.pick hint)) v →
      (∀ y ∈ cx.names.reserved, given' y = given y) →
        (f v).Keep (Known (cx.withFresh hint).names.reserved given') (H.exec temps l)) :
    (x >>= f).Keep (Known cx.names.reserved given)
      (H.exec temps (Build.declare kind (.ofName (cx.names.pick hint)) (some value) :: l)) := by
  have hnew := cx.names.pick_notMem hint
  rw [exec_cons, Build.declare, execStmt_declarePat, bind_assoc]
  refine hvalue.bind fun v => ?_
  rw [bindPattern_temp hpick]
  refine keep_write hnew (h v _ ⟨hpick, .head _, Function.update_self ..⟩ fun y hy => ?_)
  have hne : y ≠ cx.names.pick hint := fun hyx => hnew (hyx ▸ hy)
  exact Function.update_of_ne hne ..

section

variable {src : Ident} {v : Value P}

theorem eval_atLeast (least : Nat) (e : Expr) :
    H.eval temps (atLeast least e) = H.eval temps e := by
  unfold atLeast
  split <;> rfl

theorem eval_access (id : Ident) (k : Key) :
    H.eval temps (Build.access (.ref id) k) =
      H.eval temps (.ref id) >>= fun v => H.eval temps k >>= fun w => lift (H.get v w) := rfl

theorem eval_computed (id : Ident) (i : Nat) :
    H.eval temps (Build.computed (.ref id) (Build.num i)) =
      H.eval temps (.ref id) >>= fun v => H.element v i false := by
  rw [Build.computed, eval_access]
  exact congrArg _ (funext fun v => pure_bind _ _)

theorem eval_elemsFrom (id : Ident) (i : Nat) :
    H.eval temps (elemsFrom id i) = H.eval temps (.ref id) >>= fun v => H.element v i true := by
  change (H.read temps id >>= fun v => pure _ >>= fun a => lift (H.invoke v _ a)) = _
  exact congrArg _ (funext fun v => pure_bind _ _)

theorem keep_elemValue (hsrc : Held temps names given src v) (i : Nat) (p : Pat) :
    (H.element v i p.isRest).Keep (Known names given) (H.eval temps (elemValue src i p)) := by
  cases hrest : p.isRest with
  | false =>
    rw [elemValue, hrest, if_neg Bool.noConfusion, eval_computed]
    exact keep_ref hsrc (keep_lift neutral_known _)
  | true =>
    rw [elemValue, hrest, if_pos rfl, eval_elemsFrom]
    exact keep_ref hsrc (keep_lift neutral_known _)

omit [DecidableEq K] in
theorem strictEq_undefined (v : Value P) : H.strictEq v .undefined = v.isUndefined := by
  cases v <;> rfl

theorem eval_orDefault (t : Ident) (e : Expr) :
    H.eval temps (orDefault t e) = H.eval temps (.ref t) >>= fun v =>
      if v.isUndefined then H.eval temps e else H.eval temps (.ref t) := by
  have hundefined : H.eval temps Build.undefined = pure .undefined := by
    rw [Build.undefined, Build.unary, eval_void, eval_atLeast, eval_num, pure_bind]
  rw [orDefault, Build.cond, eval_cond, Build.binary, eval_atLeast, eval_eqEqEq, eval_atLeast,
    eval_atLeast, eval_atLeast, eval_atLeast, hundefined, bind_assoc]
  refine congrArg _ (funext fun v => ?_)
  rw [pure_bind, pure_bind, strictEq_undefined]
  rfl

theorem keep_orDefault {t : Ident} {e : Expr} (ht : Held temps names given t v)
    (he : e.Clear temps) :
    (H.orElse [] v (.some e)).Keep (Known names given) (H.eval temps (orDefault t e)) := by
  rw [eval_orDefault, orElse]
  refine keep_ref ht ?_
  split
  · exact keep_eval neutral_known e he
  · rw [← bind_pure (H.eval temps (.ref t))]
    exact keep_ref ht (.pure v)

theorem eval_ownCopy (id : Ident) :
    H.eval temps (ownCopy id) = H.eval temps (.ref id) >>= fun v => H.copyWithout v [] := rfl

end

/-- A key whose evaluation gives a known value and does nothing else. -/
def KeyHeld (H : Host W P K) (temps names : List String) (given : String → Value P) (k : Key)
    (w : Value P) : Prop :=
  ∀ s : State (Memory W P K) (Value P), (∀ y ∈ names, s.temps y = given y) →
    (H.eval temps k).run.run s = .some (.ok w, s)

theorem keyHeld_of_pure {k : Key} {w : Value P} (h : H.eval temps k = pure w) :
    H.KeyHeld temps names given k w := fun _ _ => h ▸ rfl

theorem keyHeld_ref {id : Ident} {w : Value P} (h : Held temps names given id w) :
    H.KeyHeld temps names given (.computedKey .none (.ref id)) w := by
  intro s hs
  change (H.eval temps (.ref id)).run.run s = _
  rw [run_ref h.temp, hs _ h.known, h.value]

theorem keep_key {k : Key} {w : Value P} {a : Act W P K A} {f : Value P → Act W P K A}
    (hk : H.KeyHeld temps names given k w) (h : a.Keep (Known names given) (f w)) :
    a.Keep (Known names given) (H.eval temps k >>= f) := by
  intro s s' hs
  rw [run_bind (hk s' hs.2)]
  exact h s s' hs

theorem KeyHeld.mono {k : Key} {w : Value P} (h : H.KeyHeld temps names given k w)
    (hsub : names ⊆ names') (hgiven : ∀ y ∈ names, given' y = given y) :
    H.KeyHeld temps names' given' k w :=
  fun s hs => h s fun y hy => (hs y (hsub hy)).trans (hgiven y hy)

/-- A key as it stands in a member access has the value of the key, or that of a new variable. -/
theorem eval_memberKey (H : Host W P K) (temps : List String) (k : Key) (cx : Context) :
    (∃ k' w, (memberKey kind k).run cx = ((k', []), cx) ∧ H.eval temps k' = pure w ∧
        H.eval [] k = pure w) ∨
      ∃ span e, k = .computedKey span e ∧ (memberKey kind k).run cx =
        ((.computedKey .none (.ref (keyName cx)), [Build.declare kind (keyName cx) (some e)]),
          cx.withFresh "key") := by
  unfold memberKey
  split
  case h_7 span e _ _ => exact .inr ⟨span, e, rfl, rfl⟩
  all_goals exact .inl ⟨_, _, rfl, rfl, rfl⟩

/-- The key of a member access, and then what needs its value. -/
theorem keep_memberKey {k : Key} {f : Value P → Act W P K Unit} {l : List Stmt} {cx : Context}
    (hclear : k.Clear temps) (hmade : ((memberKey kind k).run cx).2.names.made ⊆ temps)
    (h : ∀ (w : Value P) (given' : String → Value P), (∀ y ∈ cx.names.reserved, given' y = given y) →
      H.KeyHeld temps ((memberKey kind k).run cx).2.names.reserved given'
        ((memberKey kind k).run cx).1.1 w →
      (f w).Keep (Known ((memberKey kind k).run cx).2.names.reserved given') (H.exec temps l)) :
    (H.eval [] k >>= f).Keep (Known cx.names.reserved given)
      (H.exec temps (((memberKey kind k).run cx).1.2 ++ l)) := by
  rcases eval_memberKey H temps k cx with ⟨k', w, hrun, hk', hk⟩ | ⟨span, e, rfl, hrun⟩
  · rw [hrun] at h ⊢
    rw [hk, pure_bind]
    exact h w given (fun _ _ => rfl) (keyHeld_of_pure hk')
  · rw [hrun] at hmade h ⊢
    have he : (H.eval [] e).Keep (Known cx.names.reserved given) (H.eval temps e) :=
      keep_eval neutral_known e (hclear.part (.head _))
    exact keep_fresh (hmade (.head _)) he fun w given' hkey hgiven => h w given' hgiven (keyHeld_ref hkey)

theorem keep_access {src : Ident} {k : Key} {v w : Value P} (hsrc : Held temps names given src v)
    (hk : H.KeyHeld temps names given k w) :
    (lift (H.get v w) : Act W P K (Value P)).Keep (Known names given)
      (H.eval temps (Build.access (.ref src) k)) := by
  rw [eval_access]
  exact keep_ref hsrc (keep_key hk (keep_lift neutral_known _))

/-- The keys that are known later, with one more. -/
theorem keysHeld_concat {seen : List Key} {ws : List (Value P)} {k : Key} {w : Value P}
    (hseen : List.Forall₂ (H.KeyHeld temps names given) seen ws)
    (hk : H.KeyHeld temps names given k w) (hsub : names ⊆ names')
    (hgiven : ∀ y ∈ names, given' y = given y) :
    List.Forall₂ (H.KeyHeld temps names' given') (seen ++ [k]) (ws ++ [w]) :=
  List.rel_append (hseen.imp fun _ _ h => h.mono hsub hgiven) (.cons (hk.mono hsub hgiven) .nil)

theorem run_var {id : Ident} (hid : id.name ∉ temps) {s : State (Memory W P K) (Value P)}
    {v : Value P} (hv : s.user.vars id.name = some (kind, v)) :
    (H.eval temps (.ref id)).run.run s = .some (.ok v, s) := by
  change (H.read temps id).run.run s = _
  rw [read, if_neg hid]
  change Part.map _ ((s.user.vars id.name).elim _ _) = _
  rw [hv]
  exact Part.map_some _ _

omit [DecidableEq K] in
theorem run_onMemory {f : Memory W P K → A × Memory W P K}
    (s : State (Memory W P K) (Value P)) :
    (onMemory f).run.run s = .some (.ok (f s.user).1, { s with user := (f s.user).2 }) :=
  Part.map_some _ _

theorem exec_removal {target : Ident} {k : Key} {l : List Key} :
    H.exec temps (removals target (k :: l)) = H.eval temps (.ref target) >>= fun v =>
      H.eval temps k >>= fun w => onMemory (fun m => ((), m.remove v [H.key w])) >>= fun _ =>
        H.exec temps (removals target l) := by
  change (H.eval temps (.ref target) >>= fun v => H.eval temps k >>= fun w =>
    onMemory (fun m => ((), m.remove v [H.key w]))) >>= _ = _
  simp only [bind_assoc]
  rfl

/-- The removals take the seen keys from the object that a variable holds. -/
theorem run_removals {target : Ident} (hid : target.name ∉ temps) {v : Value P} {seen : List Key}
    {ws : List (Value P)} (hseen : List.Forall₂ (H.KeyHeld temps names given) seen ws)
    {s : State (Memory W P K) (Value P)} (hs : ∀ y ∈ names, s.temps y = given y)
    (hvar : s.user.vars target.name = some (kind, v)) :
    (H.exec temps (removals target seen)).run.run s =
      .some (.ok (), { s with user := s.user.remove v (ws.map H.key) }) := by
  induction hseen generalizing s with
  | nil =>
    rw [List.map_nil, Memory.remove_nil]
    rfl
  | @cons k w seen ws hk hseen ih =>
    let t : State (Memory W P K) (Value P) := { s with user := s.user.remove v [H.key w] }
    have hvar' : t.user.vars target.name = some (kind, v) := by simpa [t] using hvar
    rw [exec_removal, run_bind (run_var hid hvar), run_bind (hk s hs), run_bind (run_onMemory s)]
    refine (ih (s := t) hs hvar').trans ?_
    rw [Memory.remove_remove]
    rfl

/-- A copy without the seen keys, and a copy from which they are removed. -/
theorem keep_ownCopy {target src : Ident} {v : Value P} {seen : List Key} {ws : List (Value P)}
    (hid : target.name ∉ temps) (hsrc : Held temps names given src v)
    (hseen : List.Forall₂ (H.KeyHeld temps names given) seen ws) :
    (H.copyWithout v ws >>= H.bindPattern [] kind (.binder target)).Keep (Known names given)
      (H.exec temps (Build.declarePat .none kind (.binder target) (some (ownCopy src)) ::
        removals target seen)) := by
  rw [exec_cons, execStmt_declarePat, eval_ownCopy, bind_assoc, bind_assoc]
  refine keep_ref hsrc ?_
  intro s s' hs
  let copy := s'.user.allocate ((s'.user.own v).filter (·.1 ∉ ([] : List (Value P)).map H.key))
  let t : State (Memory W P K) (Value P) :=
    { s' with user := copy.2.declare kind target.name (some copy.1) }
  have hcopy : copy = s'.user.allocate (s'.user.own v) := by simp [copy]
  have hvar : t.user.vars target.name = some (kind, copy.1) := by simp [t, Memory.declare]
  rw [copyWithout, copyWithout, run_bind (run_onMemory s), bindPattern_name List.not_mem_nil,
    run_onMemory,
    run_bind (run_onMemory s'), bindPattern_name hid, run_bind (t := t) (run_onMemory _),
    run_removals hid hseen (s := t) hs.2 hvar]
  refine .some ⟨rfl, ?_, hs.2⟩
  simp only [t, hcopy, Memory.remove_allocate, hs.1]

theorem keep_bindPattern_name {id : Ident} (hid : id.name ∉ temps) (v : Value P) :
    (H.bindPattern [] kind (.binder id) v).Keep (Known names given)
      (H.bindPattern temps kind (.binder id) v) := by
  rw [bindPattern_name hid, bindPattern_name List.not_mem_nil]
  exact keep_lift neutral_known _

theorem keep_bindName {id : Ident} {default : Node (.opt .expr)} {value : Expr}
    {x : Act W P K (Value P)} {cx : Context} (hid : id.name ∉ temps)
    (hclear : default.Clear temps)
    (hmade : ((Declarations.bindName kind id default.toOption value).run cx).2.names.made ⊆ temps)
    (hvalue : x.Keep (Known cx.names.reserved given) (H.eval temps value)) :
    (x >>= fun w => H.orElse [] w default >>= fun w => bindName [] kind id (some w)).Keep
      (Known cx.names.reserved given)
      (H.exec temps ((Declarations.bindName kind id default.toOption value).run cx).1) := by
  have hname : (fun w => bindName [] kind id (some w)) = H.bindPattern [] kind (.binder id) := by
    funext w
    rw [bindPattern]
  rw [hname]
  cases default with
  | none =>
    rw [toOption, run_bindName_none, exec_singleton, execStmt_declarePat]
    refine hvalue.bind fun w => ?_
    rw [orElse, pure_bind]
    exact keep_bindPattern_name hid w
  | some e =>
    rw [toOption, run_bindName_some] at hmade ⊢
    refine keep_fresh (hmade (.head _)) hvalue fun w given' htmp _ => ?_
    rw [exec_singleton, execStmt_declarePat]
    exact (keep_orDefault htmp (hclear.part (.head _))).bind fun w' => keep_bindPattern_name hid w'

theorem elemValue_ne_ref (src id : Ident) (i : Nat) (p : Pat) : elemValue src i p ≠ .ref id := by
  unfold elemValue
  split <;> exact fun h => by cases h

theorem access_ne_ref (e : Expr) (k : Key) (id : Ident) : Build.access e k ≠ .ref id :=
  fun h => by cases h

/-- The value of a pattern with parts is kept in a temporary, no variable being one already. -/
theorem run_source_of_user {value : Expr} {cx : Context}
    (huser : ∀ id, value = .ref id → id.name ∉ cx.names.made) : (source kind value).run cx =
      ((tempName cx, [Build.declare kind (tempName cx) (some value)]), cx.withFresh "tmp") := by
  rcases run_source kind value cx with hrun | ⟨id, hid, hold, -⟩
  · exact hrun
  · exact absurd hold (huser id hid)

theorem keep_pattern :
    (∀ (p : Pat) {value : Expr} {x : Act W P K (Value P)} {cx : Context}
      {given : String → Value P}, p.patternFault = .none → p.Clear temps →
      ((Declarations.bind kind p value).run cx).2.names.made ⊆ temps →
      (∀ id, value = .ref id → id.name ∉ cx.names.made) →
      x.Keep (Known cx.names.reserved given) (H.eval temps value) →
      (x >>= H.bindPattern [] kind p).Keep (Known cx.names.reserved given)
        (H.exec temps ((Declarations.bind kind p value).run cx).1)) ∧
    (∀ (elems : Node (.list (.opt .pat))) {src : Ident} {v : Value P} {i : Nat} {cx : Context}
      {given : String → Value P}, elems.patternFault = .none → elems.Clear temps →
      ((bindElems kind src i elems).run cx).2.names.made ⊆ temps →
      Held temps cx.names.reserved given src v →
      (H.bindElements [] kind v i elems).Keep (Known cx.names.reserved given)
        (H.exec temps ((bindElems kind src i elems).run cx).1)) ∧
    ∀ (props : Node (.list .patProp)) {src : Ident} {v : Value P} {seen : List Key}
      {ws : List (Value P)} {cx : Context} {given : String → Value P},
      props.patternFault = .none → props.Clear temps →
      ((bindProps kind src seen props).run cx).2.names.made ⊆ temps →
      Held temps cx.names.reserved given src v →
      List.Forall₂ (H.KeyHeld temps cx.names.reserved given) seen ws →
      (H.bindProperties [] kind v ws props).Keep (Known cx.names.reserved given)
        (H.exec temps ((bindProps kind src seen props).run cx).1) := by
  apply patternInduction
  case binder =>
    intro id value x cx given _ hclear _ _ hvalue
    rw [run_bind_binder, exec_singleton, execStmt_declarePat]
    exact hvalue.bind fun v => keep_bindPattern_name (hclear.own (.head _)) v
  case defaultPat =>
    intro span p e ih value x cx given hp hclear hmade _ hvalue
    rw [run_bind_defaultPat] at hmade ⊢
    refine keep_fresh (hmade ((draws_bind kind p _ _).made (.head _))) hvalue
      fun v given' htmp _ => ?_
    rw [bindPattern]
    exact ih hp (hclear.part (.head _)) hmade (fun _ h => by cases h)
      (keep_orDefault htmp (hclear.part (.tail _ (.head _))))
  case arrayPat =>
    intro span optional elems ih value x cx given hp hclear hmade huser hvalue
    rw [run_bind_arrayPat, run_source_of_user huser] at hmade ⊢
    refine keep_fresh (hmade ((draws_bindElems kind _ 0 elems _).made (.head _))) hvalue
      fun v given' htmp _ => ?_
    rw [bindPattern]
    exact ih hp (hclear.part (.head _)) hmade htmp
  case objectPat =>
    intro span optional props ih value x cx given hp hclear hmade huser hvalue
    rw [run_bind_objectPat, run_source_of_user huser] at hmade ⊢
    refine keep_fresh (hmade ((draws_bindProps kind _ [] props _).made (.head _))) hvalue
      fun v given' htmp _ => ?_
    rw [bindPattern]
    exact ih hp (hclear.part (.head _)) hmade htmp .nil
  case restPat =>
    intro span dots p ih value x cx given hp hclear hmade huser hvalue
    rw [run_bind_restPat] at hmade ⊢
    have hinner : H.bindPattern [] kind (.restPat span dots p) = H.bindPattern [] kind p := by
      funext v
      rw [bindPattern]
    rw [hinner]
    exact ih hp (hclear.part (.head _)) hmade huser hvalue
  case exprPat | invalidPat =>
    intro _ value x cx given hp
    cases hp
  case noElems =>
    intro src v i cx given _ _ _ _
    rw [run_bindElems_nil, bindElements]
    exact .pure ()
  case hole =>
    intro rest ih src v i cx given hp hclear hmade hsrc
    rw [run_bindElems_none] at hmade ⊢
    rw [bindElements]
    exact ih (Measure.patternFault_cons hp).2 (hclear.part (.tail _ (.head _))) hmade hsrc
  case elem =>
    intro p rest hpat ih src v i cx given hp hclear hmade hsrc
    obtain ⟨ha, hrest⟩ := Measure.patternFault_cons hp
    rw [run_bindElems_some] at hmade ⊢
    rw [bindElements, ← bind_assoc]
    have hdraws := draws_bind kind p (elemValue src i p) cx
    have hmade' := List.Subset.trans (draws_bindElems kind src (i + 1) rest _).made hmade
    refine keep_append hdraws.reserved ?_ fun given' hgiven => ?_
    · exact hpat ha ((hclear.part (.head _)).part (.head _)) hmade'
        (fun id h => absurd h (elemValue_ne_ref src id i p)) (keep_elemValue hsrc i p)
    · exact ih hrest (hclear.part (.tail _ (.head _))) hmade (hsrc.mono hdraws.reserved hgiven)
  case noProps =>
    intro src v seen ws cx given _ _ _ _ _
    rw [run_bindProps_nil, bindProperties]
    exact .pure ()
  case keyedPat =>
    intro k p rest hpat ih src v seen ws cx given hp hclear hmade hsrc hseen
    obtain ⟨ha, hrest⟩ := Measure.patternFault_cons hp
    have hprop := hclear.part (.head _)
    rw [run_bindProps_keyed] at hmade ⊢
    dsimp only at hmade ⊢
    rw [bindProperties, List.append_assoc]
    have hdraws := draws_bind kind p (Build.access (.ref src) ((memberKey kind k).run cx).1.1)
      ((memberKey kind k).run cx).2
    have hmade' := List.Subset.trans (draws_bindProps kind src _ rest _).made hmade
    have hkeys := draws_memberKey kind k cx
    refine keep_memberKey (hprop.part (.head _)) (List.Subset.trans hdraws.made hmade')
      fun w given' hgiven hk => ?_
    have hsrc' := hsrc.mono hkeys.reserved hgiven
    rw [← bind_assoc]
    refine keep_append hdraws.reserved ?_ fun given'' hgiven' => ?_
    · exact hpat ha (hprop.part (.tail _ (.head _))) hmade'
        (fun id h => absurd h (access_ne_ref _ _ id)) (keep_access hsrc' hk)
    · refine ih hrest (hclear.part (.tail _ (.head _))) hmade
        (hsrc'.mono hdraws.reserved hgiven') ?_
      exact keysHeld_concat (hseen.imp fun _ _ h => h.mono hkeys.reserved hgiven) hk
        hdraws.reserved hgiven'
  case shortPat =>
    intro span id default rest ih src v seen ws cx given hp hclear hmade hsrc hseen
    rw [run_bindProps_short] at hmade ⊢
    have hdraws := draws_bindName kind id default.toOption (Build.access (.ref src) (shortKey id)) cx
    have hmade' := List.Subset.trans (draws_bindProps kind src _ rest _).made hmade
    have hname : H.KeyHeld temps cx.names.reserved given (shortKey id) (.prim (H.str id.name)) :=
      keyHeld_of_pure rfl
    have hprop := hclear.part (.head _)
    have hsteps : H.bindProperties [] kind v ws (.cons (.shortPat span id default) rest) =
        (lift (H.get v (.prim (H.str id.name))) >>= fun w => H.orElse [] w default >>= fun w =>
          bindName [] kind id (some w)) >>= fun _ =>
            H.bindProperties [] kind v (ws ++ [.prim (H.str id.name)]) rest := by
      rw [bindProperties]
      simp only [bind_assoc]
    rw [hsteps]
    refine keep_append hdraws.reserved ?_ fun given' hgiven => ?_
    · exact keep_bindName (hprop.own (.head _)) (hprop.part (.head _)) hmade' (keep_access hsrc hname)
    · exact ih (Measure.patternFault_cons hp).2 (hclear.part (.tail _ (.head _))) hmade
        (hsrc.mono hdraws.reserved hgiven) (keysHeld_concat hseen hname hdraws.reserved hgiven)
  case restProp =>
    intro span dots p rest _ ih src v seen ws cx given hp hclear hmade hsrc hseen
    obtain ⟨ha, hrest⟩ := Measure.patternFault_cons hp
    cases p with
    | binder target =>
      rw [run_bindProps_rest, run_bind_binder] at hmade ⊢
      rw [bindProperties, ← bind_assoc]
      have htarget : target.name ∉ temps := ((hclear.part (.head _)).part (.head _)).own (.head _)
      refine keep_append (List.Subset.refl _) ?_ fun given' hgiven => ?_
      · exact keep_ownCopy htarget hsrc hseen
      · exact ih hrest (hclear.part (.tail _ (.head _))) hmade
          (hsrc.mono (List.Subset.refl _) hgiven)
          (hseen.imp fun _ _ hk => hk.mono (List.Subset.refl _) hgiven)
    | _ => cases ha

/-- The statements that bind a pattern to the value of an expression. -/
theorem keep_bind (p : Pat) {value : Expr} {x : Act W P K (Value P)} {cx : Context}
    {given : String → Value P} (hp : p.patternFault = .none) (hclear : p.Clear temps)
    (hmade : ((Declarations.bind kind p value).run cx).2.names.made ⊆ temps)
    (huser : ∀ id, value = .ref id → id.name ∉ cx.names.made)
    (hvalue : x.Keep (Known cx.names.reserved given) (H.eval temps value)) :
    (x >>= H.bindPattern [] kind p).Keep (Known cx.names.reserved given)
      (H.exec temps ((Declarations.bind kind p value).run cx).1) :=
  keep_pattern.1 p hp hclear hmade huser hvalue

theorem clear_of_mem_toList {c : Cat} {l : Node (.list c)} (h : l.Clear temps) :
    ∀ a ∈ l.toList, a.Clear temps := by
  rw [← ofList_toList l] at h
  generalize l.toList = xs at h ⊢
  induction xs with
  | nil => exact fun _ ha => absurd ha List.not_mem_nil
  | cons a xs ih =>
    intro b hb
    rcases List.mem_cons.mp hb with rfl | hb
    · exact h.part (.head _)
    · exact ih (h.part (.tail _ (.head _))) b hb

/-- Whether a declarator binds a name, or binds a pattern and can be split. -/
def isSplittable (scopes : ScopeTable) : Declarator → Bool
  | .declarator span _ p init => p.isBinder || init.toOption.isSome && p.patternFault.isNone &&
    !(p.hasObjectRest && scopes.isBoundAt "Object" span)

theorem run_declaratorFault_of_isSplittable {cx : Context} {span : Span} {definite : Bool} {p : Pat}
    {init : Node (.opt .expr)} (h : isSplittable cx.scopes (.declarator span definite p init) = true) :
    (declaratorFault span p init.toOption).run cx = (.none, cx) := by
  by_cases hbinder : p.isBinder = true
  · simp [declaratorFault, hbinder]
    rfl
  · simp only [isSplittable, hbinder, Bool.false_or, Bool.and_eq_true, Option.isNone_iff_eq_none,
      Bool.not_eq_true', Bool.and_eq_false_iff] at h
    obtain ⟨⟨hinit, hpat⟩, hrest⟩ := h
    have hnone : init.toOption.isNone = false := by simpa using hinit
    cases hobject : p.hasObjectRest with
    | false =>
      simp [declaratorFault, hbinder, hnone, hpat, hobject]
      rfl
    | true =>
      have hbound : (Lower.isBoundAt "Object" span).run cx = (false, cx) :=
        congrArg (·, cx) (hrest.resolve_left (by simp [hobject]))
      simp [declaratorFault, hbinder, hnone, hpat, hobject, hbound]
      rfl

theorem keep_execDeclarator {d : Declarator} (hclear : d.Clear temps)
    (hbinder : d.declTarget.isBinder = true) :
    (H.execDeclarator [] kind d).Keep (Known names given) (H.execDeclarator temps kind d) := by
  cases d with
  | declarator span definite p init =>
    cases p with
    | binder id =>
      have hid : id.name ∉ temps := (hclear.part (.head _)).own (.head _)
      cases init with
      | none =>
        change (bindName [] kind id .none).Keep _ (bindName temps kind id .none)
        rw [bindName, bindName, if_neg List.not_mem_nil, if_neg hid]
        exact keep_lift neutral_known _
      | some e =>
        have he := (hclear.part (.tail _ (.head _))).part (.head _)
        exact (keep_eval neutral_known e he).bind fun v => keep_bindPattern_name hid v
    | _ => cases hbinder

/-- A declarator that can be split stays if it binds a name, and its pattern is bound otherwise. -/
theorem run_splitDeclarator_of_isSplittable {span : Span} {ctxt : Nat} {declare : Bool}
    {dspan : Span} {definite : Bool} {p : Pat} {init : Node (.opt .expr)} {cx : Context}
    (h : isSplittable cx.scopes (.declarator dspan definite p init) = true) :
    let d : Declarator := .declarator dspan definite p init
    let r := (splitDeclarator span ctxt kind declare d).run cx
    p.isBinder = true ∧ r = ([single span ctxt kind declare d], cx) ∨
      p.patternFault = .none ∧ ∃ e, init = .some e ∧ r = (Declarations.bind kind p e).run cx := by
  rcases run_splitDeclarator span ctxt kind declare dspan definite p init cx with
    ⟨fault, hfault, -⟩ | hrun
  · rw [run_declaratorFault_of_isSplittable h] at hfault
    cases hfault
  · exact hrun

theorem draws_splitDeclarator {span : Span} {ctxt : Nat} {declare : Bool} {d : Declarator}
    {cx : Context} (h : isSplittable cx.scopes d = true) :
    Draws cx ((splitDeclarator span ctxt kind declare d).run cx).2 := by
  cases d with
  | declarator dspan definite p init =>
    rcases run_splitDeclarator_of_isSplittable h with ⟨-, hrun⟩ | ⟨-, e, -, hrun⟩
    · rw [hrun]
      exact .refl cx
    · rw [hrun]
      exact draws_bind kind p e cx

theorem keep_splitDeclarator {span : Span} {ctxt : Nat} {declare : Bool} {d : Declarator}
    {cx : Context} (h : isSplittable cx.scopes d = true) (hclear : d.Clear temps)
    (hmade : ((splitDeclarator span ctxt kind declare d).run cx).2.names.made ⊆ temps) :
    (H.execDeclarator [] kind d).Keep (Known cx.names.reserved given)
      (H.exec temps ((splitDeclarator span ctxt kind declare d).run cx).1) := by
  cases d with
  | declarator dspan definite p init =>
    rcases run_splitDeclarator_of_isSplittable h with ⟨hbinder, hrun⟩ | ⟨hpat, e, rfl, hrun⟩
    · have hsingle (d : Declarator) : H.execStmt temps (single span ctxt kind declare d) =
          H.execDeclarator temps kind d := bind_pure_unit
      rw [hrun, exec_singleton, hsingle]
      exact keep_execDeclarator hclear hbinder
    · have he := (hclear.part (.tail _ (.head _))).part (.head _)
      rw [hrun] at hmade ⊢
      refine keep_bind p hpat (hclear.part (.head _)) hmade ?_ (keep_eval neutral_known e he)
      rintro id rfl hid
      exact he.own (.head _) (hmade ((draws_bind kind p _ cx).made hid))

theorem draws_splitDeclarators {span : Span} {ctxt : Nat} {declare : Bool} (l : List Declarator)
    {cx : Context} (h : ∀ d ∈ l, isSplittable cx.scopes d = true) :
    Draws cx ((l.mapM (splitDeclarator span ctxt kind declare)).run cx).2 := by
  induction l generalizing cx with
  | nil => exact .refl cx
  | cons d l ih =>
    obtain ⟨hd, hl⟩ := List.forall_mem_cons.mp h
    have hdraws : Draws cx ((splitDeclarator span ctxt kind declare d).run cx).2 :=
      draws_splitDeclarator hd
    rw [← hdraws.steps.scopes] at hl
    rw [List.mapM_cons]
    exact hdraws.trans (ih hl)

theorem keep_splitDeclarators {span : Span} {ctxt : Nat} {declare : Bool} (l : List Declarator)
    {cx : Context} {given : String → Value P} (h : ∀ d ∈ l, isSplittable cx.scopes d = true)
    (hclear : ∀ d ∈ l, d.Clear temps)
    (hmade : ((l.mapM (splitDeclarator span ctxt kind declare)).run cx).2.names.made ⊆ temps) :
    (l.forM (H.execDeclarator [] kind)).Keep (Known cx.names.reserved given)
      (H.exec temps ((l.mapM (splitDeclarator span ctxt kind declare)).run cx).1.flatten) := by
  induction l generalizing cx given with
  | nil => exact .pure ()
  | cons d l ih =>
    obtain ⟨hd, hl⟩ := List.forall_mem_cons.mp h
    have hdraws : Draws cx ((splitDeclarator span ctxt kind declare d).run cx).2 :=
      draws_splitDeclarator hd
    rw [← hdraws.steps.scopes] at hl
    rw [List.mapM_cons] at hmade ⊢
    have hmade' := List.Subset.trans (draws_splitDeclarators l hl).made hmade
    exact keep_append hdraws.reserved (keep_splitDeclarator hd (hclear d (.head _)) hmade')
      fun given' _ => ih hl (fun e he => hclear e (.tail _ he)) hmade

end Host

open Host in
/-- Splitting a declaration reports nothing where every declarator can be split, and the statements
do what the declaration does: they evaluate the same in the same order, throw the same, and leave
every name with the same value. The supply has to know the names of the declaration. -/
theorem split_destructures {config : Config} {p : Program} {cx : Context} {v : VarDecl}
    (hcx : (Context.start config p).Steps cx)
    (hknown : v.names ⊆ (Context.start config p).names.reserved)
    (hsplit : ∀ d ∈ v.declarators, isSplittable cx.scopes d = true)
    {W P K : Type} [DecidableEq K] (H : Host W P K) :
    let r := (split v).run cx
    r.2.diagnostics = cx.diagnostics ∧
      Action.Keep (fun s s' => s.user = s'.user) (H.execDecl [] v) (H.exec r.2.names.made r.1) := by
  intro r
  have htidy : r.2.names.Tidy (Context.start config p).names.reserved :=
    (hcx.trans (steps_split v cx)).tidy (NameSupply.tidy_avoiding _)
  have hclear : v.Clear r.2.names.made := fun x hx hmade => htidy.apart x hmade (hknown hx)
  cases v with
  | varDecl span ctxt kind declare decls =>
    have hclear' : ∀ d ∈ decls.toList, d.Clear r.2.names.made :=
      clear_of_mem_toList (hclear.part (.head _))
    refine ⟨(draws_splitDeclarators decls.toList hsplit).diagnostics, ?_⟩
    intro s s' hs
    have hkeep := keep_splitDeclarators (H := H) decls.toList hsplit hclear' (List.Subset.refl _)
      s s' ⟨hs, fun _ _ => rfl⟩
    exact hkeep.mono fun _ _ h => ⟨h.1, h.2.1⟩

/-- `const {a: [b, , ...c] = d, [k()]: {e}, ...f} = g(), h = b;` -/
def nestedPattern : VarDecl :=
  let binder (x : String) : Pat := .binder (.ofName x)
  let elems : Pat := .arrayPat .none false (.ofList [.some (binder "b"), .none,
    .some (.restPat .none .none (binder "c"))])
  let inner : Pat := .objectPat .none false (.ofList [.shortPat .none (.ofName "e") .none])
  let pattern : Pat := .objectPat .none false (.ofList [
    .keyedPat (.fixedKey .none (.name "a")) (.defaultPat .none elems (Build.name "d")),
    .keyedPat (.computedKey .none (Build.call (Build.name "k") [])) inner,
    .restProp .none .none (binder "f")])
  .varDecl .none 0 .const false (.ofList [
    .declarator .none false pattern (.some (Build.call (Build.name "g") [])),
    .declarator .none false (binder "h") (.some (Build.name "b"))])

/-- A script that holds the declaration. -/
def nestedScript : Program :=
  .scriptProgram .none none (.ofList [.declStmt (.declVar nestedPattern)])

theorem split_destructures_nestedPattern :
    let cx := Context.start .default nestedScript
    let r := (split nestedPattern).run cx
    nestedPattern.names ⊆ cx.names.reserved ∧
      (∀ d ∈ nestedPattern.declarators, Host.isSplittable cx.scopes d = true) ∧ r.1.length = 12 ∧
        ∀ {W P K : Type} [DecidableEq K] (H : Host W P K),
          Action.Keep (fun s s' => s.user = s'.user) (H.execDecl [] nestedPattern)
            (H.exec r.2.names.made r.1) := by
  have hknown : nestedPattern.names ⊆ (Context.start .default nestedScript).names.reserved := by
    decide +kernel
  have hsplit : ∀ d ∈ nestedPattern.declarators,
      Host.isSplittable (Context.start .default nestedScript).scopes d = true := by
    decide +kernel
  exact ⟨hknown, hsplit, by decide +kernel, fun H => (split_destructures .refl hknown hsplit H).2⟩

/-- `var [a = tmp] = [];` -/
def selfNamedPattern : VarDecl :=
  let elem : Pat := .defaultPat .none (.binder (.ofName "a")) (Build.name "tmp")
  .varDecl .none 0 .var false (.ofList [.declarator .none false
    (.arrayPat .none false (.ofList [.some elem])) (.some (.array .none .nil))])

/-- `class A { @(function () { var tmp = 1; var [a = tmp] = []; }) m() {} }` -/
def decoratedPattern : Program :=
  let mark : Expr := .function none (.func .none 0 false false .nil .nil (.some (Build.block [
    Build.declare .var (.ofName "tmp") (some (Build.num 1)),
    .declStmt (.declVar selfNamedPattern)])))
  let method : Node .func :=
    .func .none 0 false false .nil (.ofList [.decorator .none mark]) (.some (Build.block []))
  .scriptProgram .none none (.ofList [.declStmt (.declClass false (.ofName "A")
    (.cls .none 0 .nil
      (.ofList [.methodMember .none .method false (.fixedKey .none (.name "m")) method])
      .none))])

namespace Host

/-- A host where an expression that the language does not fix makes a new object, and no object has
elements. -/
def barren : Host Unit Decimal Unit where
  num d := d
  str _ := .ofNat 0
  bigInt _ := .ofNat 0
  privateName _ := .ofNat 0
  truthy _ := true
  same a b := a == b
  key _ := ()
  expr _ := ExceptT.mk fun m => .some (.ok (m.allocate []).1, (m.allocate []).2)
  get _ _ := pure .undefined
  invoke _ _ _ := pure .undefined

/-- The variable `tmp` holds `1`, and nothing else is there. -/
def beforeDefault : State (Memory Unit Decimal Unit) (Value Decimal) where
  user := ⟨(), Function.update (fun _ => none) "tmp" (some (.var, .prim (.ofNat 1))), []⟩
  temps _ := .undefined

variable {temps : List String} (s : State (Memory Unit Decimal Unit) (Value Decimal))

theorem run_array_barren :
    (barren.eval temps (.array .none .nil)).run.run s =
      .some (.ok (s.user.allocate []).1, { s with user := (s.user.allocate []).2 }) :=
  Part.map_some _ _

theorem run_get_barren (v w : Value Decimal) :
    (lift (barren.get v w) : Act Unit Decimal Unit (Value Decimal)).run.run s =
      .some (.ok .undefined, s) :=
  Part.map_some _ _

theorem run_name_barren {id : Ident} (hid : id.name ∉ temps) (v : Value Decimal) :
    (barren.bindPattern temps .var (.binder id) v).run.run s =
      .some (.ok (), { s with user := s.user.declare .var id.name (some v) }) := by
  rw [bindPattern_name hid]
  exact run_onMemory s

theorem run_element_barren {p : Pat} {v : Value Decimal} (hrest : p.isRest = false)
    {t : State (Memory Unit Decimal Unit) (Value Decimal)}
    (h : (barren.bindPattern temps .var p .undefined).run.run s = .some (.ok (), t)) :
    (barren.bindElements temps .var v 0 (.ofList [.some p])).run.run s = .some (.ok (), t) := by
  change (barren.bindElements temps .var v 0 (.cons (.some p) .nil)).run.run s = _
  rw [bindElements, hrest, element, if_neg Bool.false_ne_true, run_bind (run_get_barren s _ _),
    run_bind h, bindElements]
  rfl

/-- The declaration binds `a` to the default. -/
theorem run_execDecl_selfNamedPattern : ∃ s,
    (barren.execDecl [] selfNamedPattern).run.run beforeDefault = .some (.ok (), s) ∧
      s.user.vars "a" = some (.var, .prim (.ofNat 1)) := by
  let s : State (Memory Unit Decimal Unit) (Value Decimal) :=
    { beforeDefault with user := (beforeDefault.user.allocate []).2 }
  let t := { s with user := s.user.declare .var "a" (some (.prim (.ofNat 1))) }
  have hvar : s.user.vars "tmp" = some (.var, .prim (.ofNat 1)) := rfl
  have hdefault : (barren.bindPattern [] .var (.defaultPat .none (.binder (.ofName "a"))
      (Build.name "tmp")) .undefined).run.run s = .some (.ok (), t) := by
    rw [bindPattern]
    exact (run_bind (run_var List.not_mem_nil hvar)).trans
      (run_name_barren s List.not_mem_nil _)
  refine ⟨t, ?_, rfl⟩
  change (barren.execDeclarator [] .var _ >>= fun _ => pure ()).run.run beforeDefault = _
  rw [bind_pure_unit]
  refine (run_bind (run_array_barren beforeDefault)).trans ?_
  rw [bindPattern]
  exact run_element_barren s rfl hdefault

/-- What the declaration is split into, with the names that come next. -/
theorem run_split_selfNamedPattern (cx : Context) :
    let t := tempName cx
    let t' := tempName (cx.withFresh "tmp")
    (split selfNamedPattern).run cx = ([Build.declare .var t (some (.array .none .nil)),
      Build.declare .var t' (some (Build.computed (.ref t) (Build.num 0))),
      Build.declare .var (.ofName "a") (some (orDefault t' (Build.name "tmp")))],
      (cx.withFresh "tmp").withFresh "tmp") := by
  let pattern : Pat := .arrayPat .none false (.ofList
    [.some (.defaultPat .none (.binder (.ofName "a")) (Build.name "tmp"))])
  let d : Declarator := .declarator .none false pattern (.some (.array .none .nil))
  have hrun : (splitDeclarator .none 0 .var false d).run cx =
      (Declarations.bind .var pattern (.array .none .nil)).run cx := by
    have hsplit : isSplittable cx.scopes d = true := rfl
    rcases run_splitDeclarator_of_isSplittable hsplit with ⟨hbinder, -⟩ | ⟨-, e, he, hrun⟩
    · cases hbinder
    · cases he
      exact hrun
  have hsource : (source .var (.array .none .nil)).run cx = ((tempName cx,
      [Build.declare .var (tempName cx) (some (.array .none .nil))]), cx.withFresh "tmp") := rfl
  have helems (u : Context) : (bindElems .var (tempName cx) 0 (.ofList
      [.some (.defaultPat .none (.binder (.ofName "a")) (Build.name "tmp"))])).run u =
      ([Build.declare .var (tempName u) (some (Build.computed (.ref (tempName cx)) (Build.num 0))),
        Build.declare .var (.ofName "a") (some (orDefault (tempName u) (Build.name "tmp")))],
        u.withFresh "tmp") := by
    rw [ofList, run_bindElems_some, run_bind_defaultPat, run_bind_binder]
    simp only [ofList, run_bindElems_nil]
    rfl
  change (((splitDeclarator .none 0 .var false d).run cx).1 ++ [],
    ((splitDeclarator .none 0 .var false d).run cx).2) = _
  rw [hrun, run_bind_arrayPat, hsource]
  simp only [helems]
  rfl

/-- With the name `tmp` for the array, the default is the array. -/
theorem run_exec_selfNamedPattern (temps : List String) {x : String} (htmp : "tmp" ∈ temps)
    (hx : x ∈ temps) (hne : x ≠ "tmp") (ha : "a" ∉ temps) : ∃ s,
    (barren.exec temps [Build.declare .var (.ofName "tmp") (some (.array .none .nil)),
      Build.declare .var (.ofName x) (some (Build.computed (.ref (.ofName "tmp")) (Build.num 0))),
      Build.declare .var (.ofName "a") (some (orDefault (.ofName x) (Build.name "tmp")))]).run.run
        beforeDefault = .some (.ok (), s) ∧ s.user.vars "a" = some (.var, .object 0) := by
  let s : State (Memory Unit Decimal Unit) (Value Decimal) :=
    ⟨(beforeDefault.user.allocate []).2, Function.update beforeDefault.temps "tmp" (.object 0)⟩
  let t : State (Memory Unit Decimal Unit) (Value Decimal) :=
    { s with temps := Function.update s.temps x .undefined }
  refine ⟨{ t with user := t.user.declare .var "a" (some (.object 0)) }, ?_, rfl⟩
  have harray : (barren.execStmt temps
      (Build.declare .var (.ofName "tmp") (some (.array .none .nil)))).run.run beforeDefault =
        .some (.ok (), s) := by
    rw [Build.declare, execStmt_declarePat]
    refine (run_bind (run_array_barren beforeDefault)).trans ?_
    rw [bindPattern_temp htmp]
    rfl
  have helem : (barren.execStmt temps (Build.declare .var (.ofName x)
      (some (Build.computed (.ref (.ofName "tmp")) (Build.num 0))))).run.run s =
        .some (.ok (), t) := by
    rw [Build.declare, execStmt_declarePat, eval_computed, bind_assoc, run_bind (run_ref htmp s)]
    refine (run_bind (run_get_barren s _ _)).trans ?_
    rw [bindPattern_temp hx]
    rfl
  have htemp : t.temps "tmp" = .object 0 := by simp [t, s, hne.symm]
  have hdefault : (barren.eval temps (orDefault (.ofName x) (Build.name "tmp"))).run.run t =
      .some (.ok (.object 0), t) := by
    rw [eval_orDefault]
    refine (run_bind (run_ref hx t)).trans ?_
    have hundefined : (t.temps x).isUndefined = true := by simp [t, Value.isUndefined]
    change StateT.run (ExceptT.run (if (t.temps x).isUndefined = true then _ else _)) t = _
    rw [if_pos hundefined, ← htemp]
    exact run_ref htmp t
  rw [exec_cons, run_bind harray, exec_cons, run_bind helem, exec_singleton, Build.declare,
    execStmt_declarePat, run_bind hdefault]
  exact run_name_barren t ha _

end Host

/-- The supply has to know the names: those in the decorators of functions are not noted, and a
temporary takes the name of the variable that the default reads. The declaration binds `a` to the
value of that variable, and the statements bind it to the array. -/
theorem split_captures_default_decoratedPattern :
    let cx := Context.start .default decoratedPattern
    let r := (split selfNamedPattern).run cx
    (∀ d ∈ selfNamedPattern.declarators, Host.isSplittable cx.scopes d = true) ∧
      "tmp" ∈ selfNamedPattern.names ∧ "tmp" ∈ r.2.names.made ∧
      ∃ s s', (Host.barren.execDecl [] selfNamedPattern).run.run Host.beforeDefault =
          .some (.ok (), s) ∧ s.user.vars "a" = some (.var, .prim (.ofNat 1)) ∧
        (Host.barren.exec r.2.names.made r.1).run.run Host.beforeDefault = .some (.ok (), s') ∧
          s'.user.vars "a" = some (.var, .object 0) := by
  intro cx r
  have ht : tempName cx = .ofName "tmp" := congrArg Ident.ofName (by decide +kernel)
  have ht' : tempName (cx.withFresh "tmp") = .ofName "tmp1" :=
    congrArg Ident.ofName (by decide +kernel)
  have hmade : r.2.names.made = ["tmp1", "tmp"] := by decide +kernel
  have hrun := Host.run_split_selfNamedPattern cx
  simp only [ht, ht'] at hrun
  obtain ⟨s, hs, ha⟩ := Host.run_execDecl_selfNamedPattern
  obtain ⟨s', hs', ha'⟩ := Host.run_exec_selfNamedPattern ["tmp1", "tmp"] (x := "tmp1") (by decide)
    (by decide) (by decide) (by decide)
  refine ⟨by decide +kernel, by decide +kernel, by decide +kernel, s, s', hs, ha, ?_, ha'⟩
  rw [hmade, show r.1 = _ from congrArg Prod.fst hrun]
  exact hs'

end PlainJs

import PlainJs.Proofs.Loops.Closures
import PlainJs.Proofs.Loops.Meaning

namespace PlainJs

open Effect Run Interp Comparison

namespace Effect

variable {S A B : Type}

theorem mem_run_bind {y : Effect S A} {f : A → Effect S B} {s : S} {r : B × S} :
    r ∈ (y >>= f).run s ↔ ∃ q ∈ y.run s, r ∈ (f q.1).run q.2 := by
  rw [StateT.run_bind]
  exact Part.mem_bind_iff

variable {x : Effect S (Option A)} {s : S} {r : A × S}

theorem mem_repeatUntil : r ∈ (repeatUntil x).run s ↔
    (some r.1, r.2) ∈ x.run s ∨ ∃ t, (none, t) ∈ x.run s ∧ r ∈ (repeatUntil x).run t := by
  have hturn {y : (A × S) ⊕ S} : y ∈ (x.run s).map repeatUntil.turn ↔
      ∃ a ∈ x.run s, repeatUntil.turn a = y := Part.mem_map_iff _
  refine PFun.mem_fix_iff.trans (or_congr (hturn.trans ⟨?_, fun h => ⟨_, h, rfl⟩⟩)
    (exists_congr fun t => and_congr_left' (hturn.trans ⟨?_, fun h => ⟨_, h, rfl⟩⟩)))
  · rintro ⟨⟨_ | a, t⟩, ha, hr⟩ <;> cases hr
    exact ha
  · rintro ⟨⟨_ | a, u⟩, ha, hr⟩ <;> cases hr
    exact ha

/-- What holds where a loop ends in this round, and wherever the next round starts in a state in
which it holds, holds of every state from which the loop ends. -/
theorem repeatUntil_induction {C : S → Prop} (h : r ∈ (repeatUntil x).run s)
    (last : ∀ s, (some r.1, r.2) ∈ x.run s → C s)
    (next : ∀ s t, (none, t) ∈ x.run s → C t → C s) : C s := by
  refine PFun.fixInduction' h (fun s hs => last s ?_) fun s t _ hs ht => next s t ?_ ht
  · obtain ⟨⟨_ | a, u⟩, ha, hr⟩ := (Part.mem_map_iff _).mp hs <;> cases hr
    exact ha
  · obtain ⟨⟨_ | a, u⟩, ha, hr⟩ := (Part.mem_map_iff _).mp hs <;> cases hr
    exact ha

/-- Goes on with the result of a round that ends a loop. -/
def concluding (g : A → Effect S B) : Option A → Effect S (Option B)
  | none => pure none
  | some a => g a >>= fun b => pure (some b)

theorem mem_concluding_none {g : A → Effect S B} {o : Option A} {s t : S}
    (h : (none, t) ∈ (concluding g o).run s) : o = none ∧ t = s := by
  cases o with
  | none =>
    cases Part.mem_some_iff.mp h
    exact ⟨rfl, rfl⟩
  | some a =>
    obtain ⟨b, -, hb⟩ := mem_run_bind.mp h
    cases Part.mem_some_iff.mp hb

theorem mem_concluding_some {g : A → Effect S B} {o : Option A} {s : S} {r : B × S}
    (h : (some r.1, r.2) ∈ (concluding g o).run s) : ∃ a, o = some a ∧ r ∈ (g a).run s := by
  cases o with
  | none => cases Part.mem_some_iff.mp h
  | some a =>
    obtain ⟨⟨b, t⟩, hb, h⟩ := mem_run_bind.mp h
    have heq : (some r.1, r.2) = (some b, t) := Part.mem_some_iff.mp h
    obtain ⟨hb', ht⟩ := Prod.mk.inj heq
    obtain rfl : r = (b, t) := Prod.ext (Option.some.inj hb') ht
    exact ⟨a, rfl, hb⟩

/-- What follows a loop may as well be part of its last round. -/
theorem repeatUntil_bind (x : Effect S (Option A)) (g : A → Effect S B) :
    repeatUntil x >>= g = repeatUntil (x >>= concluding g) := by
  funext s
  refine Part.ext fun r => ⟨fun hr => ?_, fun hr => ?_⟩
  · obtain ⟨⟨a, t⟩, ha, hr⟩ := mem_run_bind.mp hr
    refine repeatUntil_induction (C := fun s => r ∈ (repeatUntil (x >>= concluding g)).run s) ha
      (fun s hs => ?_) fun s u hs hu => ?_
    · refine mem_repeatUntil.mpr (.inl (mem_run_bind.mpr ⟨_, hs, mem_run_bind.mpr ⟨r, hr, ?_⟩⟩))
      exact Part.mem_some _
    · exact mem_repeatUntil.mpr (.inr ⟨u, mem_run_bind.mpr ⟨_, hs, Part.mem_some _⟩, hu⟩)
  · refine repeatUntil_induction (C := fun s => r ∈ (repeatUntil x >>= g).run s) hr
      (fun s hs => ?_) fun s u hs hu => ?_
    · obtain ⟨⟨o, t⟩, ho, hs⟩ := mem_run_bind.mp hs
      obtain ⟨a, rfl, hr⟩ := mem_concluding_some hs
      exact mem_run_bind.mpr ⟨(a, t), mem_repeatUntil.mpr (.inl ho), hr⟩
    · obtain ⟨⟨o, t⟩, ho, hs⟩ := mem_run_bind.mp hs
      obtain ⟨rfl, rfl⟩ := mem_concluding_none hs
      obtain ⟨q, hq, hr⟩ := mem_run_bind.mp hu
      exact mem_run_bind.mpr ⟨q, mem_repeatUntil.mpr (.inr ⟨_, ho, hq⟩), hr⟩

end Effect

/-- How a loop over an iterator ends. -/
inductive Parting (V : Type)
  /-- The iterator has no more to give, or has thrown. -/
  | spent (c : Completion V)
  /-- The loop is left while the iterator may have more to give. -/
  | left (it : V) (c : Completion V)

namespace Parting

variable {V : Type}

/-- The end of a loop that does nothing more. -/
def completion : Parting V → Completion V
  | .spent c => c
  | .left _ c => c.leave

def EndsAs (e : Parting V) (c : Completion V) : Prop := c = e.completion

/-- Another run ends as a loop does that does nothing more, and in the same user state. -/
def Meets {U : Type} (e : Parting V) (s : State U V) (c : Completion V) (s' : State U V) : Prop :=
  e.EndsAs c ∧ s.user = s'.user

end Parting

namespace Interp

variable {U V : Type} (I : Interp U V)

/-- A round of a loop over an iterator, up to the point where the loop ends. -/
def stepRound (labels : List String) (it : V) (bind : V → Action (State U V) V Unit)
    (body : Effect (State U V) (Completion V)) : Effect (State U V) (Option (Parting V)) :=
  (lift (I.next false it)).run >>= fun
    | .error v => pure (some (.spent (.throw v)))
    | .ok r =>
      if I.truthy (I.field r "done") then pure (some (.spent .normal))
      else
        seq (evaluating (bind (I.field r "value")) fun _ => done) body >>= fun c =>
          pure (if c.goesOn labels then none else some (.left it c))

/-- The run of a `for-of` loop up to the point where the loop ends. -/
def partings (temps labels : List String) (head : Node .forHead) (subject : Expr) (body : Stmt) :
    Effect (State U V) (Parting V) :=
  (I.value temps subject >>= fun v => lift (I.iterator false v)).run >>= fun
    | .error v => pure (.spent (.throw v))
    | .ok it => repeatUntil (I.stepRound labels it
      (I.bindStep temps (I.meanings temps head) · head.skeleton) (I.exec temps [] body))

/-- Closes the iterator of a loop that is left. -/
def closing : Parting V → Effect (State U V) (Completion V)
  | .spent c => pure c
  | .left it c => c.closedBy <$> (lift (I.close false it)).run

variable {I} {temps labels : List String}

theorem closedBy_throw (v : V) (r : Except V Unit) : (Completion.throw v).closedBy r = .throw v := by
  cases r <;> rfl

theorem concluding_spent (c : Completion V) :
    concluding I.closing (some (.spent c)) = pure (some c) := pure_bind _ _

theorem round_stepFrame (it : V) (bind : V → Action (State U V) V Unit)
    (body : Effect (State U V) (Completion V)) :
    (I.stepFrame false it bind (lift (I.close false it))).round labels body =
      I.stepRound labels it bind body >>= concluding I.closing := by
  let close : Action (State U V) V Unit := lift (I.close false it)
  let frame := I.stepFrame false it bind close
  have hafter (c : Completion V) : frame.after labels c =
      concluding I.closing (if c.goesOn labels then none else some (.left it c)) := by
    unfold Frame.after
    split
    · change Frame.checking (pure true) (pure none) = _
      rw [checking_eq, orEnd_pure, if_pos rfl]
      rfl
    · exact map_eq_pure_bind _ _
  have hbind (v : V) : orEnd ((bind v).orClose close) (fun _ => body >>= frame.after labels) =
      seq (evaluating (bind v) fun _ => done) body >>= frame.after labels := by
    rw [seq_evaluating, evaluating, bind_assoc, orEnd, Action.orClose, ExceptT.run_mk, bind_assoc]
    congr 1
    funext q
    cases q with
    | ok a => simp only [pure_bind, done_seq]
    | error w =>
      rw [pure_bind, hafter]
      change _ = (Completion.throw w).closedBy <$> close.run >>= fun b => pure (some b)
      simp only [bind_map_left, closedBy_throw, bind_assoc, pure_bind]
  rw [Frame.round_eq, checking_eq]
  unfold stepRound
  change orEnd (lift (I.next false it) >>= fun r => if I.truthy (I.field r "done") then pure false
    else (bind (I.field r "value")).orClose close >>= fun _ => pure true) _ = _
  rw [orEnd_bind, orEnd, bind_assoc]
  congr 1
  funext q
  cases q with
  | error v => rw [pure_bind, concluding_spent]
  | ok r =>
    dsimp only
    split
    · rw [orEnd_pure, if_neg Bool.false_ne_true, pure_bind, concluding_spent]
    · rw [orEnd_bind, bind_assoc]
      simp only [orEnd_pure, if_pos, pure_bind, ← hafter]
      exact hbind _

/-- A `for-of` loop runs up to the point where it ends, and closes its iterator if it is left
there. -/
theorem exec_forOfStmt_eq (span : Span) (head : Node .forHead) (subject : Expr) (body : Stmt) :
    I.exec temps labels (.forOfStmt span false head subject body) =
      I.partings temps labels head subject body >>= I.closing := by
  rw [exec_forOfStmt, evaluating, partings, bind_assoc]
  congr 1
  funext q
  cases q with
  | error v => exact (pure_bind _ _).symm
  | ok it =>
    dsimp only
    rw [repeatUntil_bind, ← round_stepFrame]
    rfl

end Interp

namespace Loops

variable {U V : Type} {I : Interp U V} {temps M labels : List String}

/-- Equal ends of bodies after which a loop goes on or not, whatever its labels are. -/
def SameRound (labels : List String) (c c' : Completion V) : Prop :=
  c = c' ∧ c.goesOn labels = c.goesOn []

theorem transparent_sameRound : Transparent (SameRound labels : Completion V → Completion V → Prop) :=
  ⟨⟨rfl, rfl⟩, fun _ => ⟨rfl, rfl⟩, fun h => .inl h.1⟩

theorem after_whileFrame (test : Action (State U V) V V) (c : Completion V) :
    (I.whileFrame test (pure I.undefined)).after [] c =
      pure (if c.goesOn [] then none else some c.leave) := by
  unfold Frame.after
  split
  · change Frame.checking ((fun _ => true) <$> pure I.undefined) (pure none) = _
    rw [map_pure, checking_eq, orEnd_pure, if_pos rfl]
  · change some <$> (c.closedBy <$> ExceptT.run (pure ())) = _
    simp [Completion.closedBy]

section

variable {given : String → V} {iter step : String} {it : V}
  {bind : V → Action (State U V) V Unit} {bound body body' : Effect (State U V) (Completion V)}
  (hiter : iter ∉ step :: M)
  (hbound : ∀ given, Sim (Near M given) Eq
    (evaluating (bind (I.field (given step) "value")) fun _ => done) bound)
  (hbody : ∀ given, Sim (Near M given) (SameRound labels) body body')
include hiter hbound hbody

/-- A round of a loop over an iterator, and one of the loop that keeps the iterator and its step in
temporaries. -/
theorem related_partingRound (hgiven : given iter = it) :
    Related (Near M given)
      (fun a s b s' => Option.Rel Parting.EndsAs a b ∧ Near (step :: M) given s s')
      (I.stepRound labels it bind body)
      ((I.whileFrame (I.stepTest iter step) (pure I.undefined)).round [] (seq bound body')) := by
  rw [Frame.round_eq]
  change Related _ _ _ (Frame.checking (I.truthy <$> I.stepTest iter step) _)
  rw [checking_stepTest]
  refine related_reading (fun hmem => hiter (.tail _ hmem)) ?_
  rw [hgiven]
  have hnext : Related (Near M given) (fun r s r' s' => r = r' ∧ Near M given s s')
      (lift (I.next false it)).run (lift (I.next false it)).run :=
    keep_lift ((keeping M [] true).neutral given) _
  refine hnext.bind fun r r' s s' hr => ?_
  obtain ⟨rfl, hs⟩ := hr
  have hsub : M ⊆ step :: M := List.subset_cons_self ..
  cases r with
  | error v => exact .some ⟨.some rfl, hs.mono hsub fun _ _ => rfl⟩
  | ok r =>
    have hupdate : ∀ x ∉ step :: M, Function.update given step r x = given x :=
      fun x hx => Function.update_of_ne (List.ne_of_not_mem_cons hx) ..
    refine (related_setting ?_ : Related _ (fun a s b s' => Option.Rel Parting.EndsAs a b ∧
      Near (step :: M) given s s') _ _) s s' hs
    dsimp only
    split
    · exact .pure fun s s' hs => ⟨.some rfl, hs.mono hsub hupdate⟩
    have hbinding := hbound (Function.update given step r)
    rw [Function.update_self] at hbinding
    have hseq : Sim (Near M (Function.update given step r)) (SameRound labels)
        (seq (evaluating (bind (I.field r "value")) fun _ => done) body) (seq bound body') := by
      refine sim_seq transparent_sameRound ((hbinding.restrict (calm_evaluating fun _ => ?_)).mono ?_)
        (hbody _)
      · exact .pure (.inl rfl)
      · rintro c _ ⟨rfl | ⟨v, rfl⟩, rfl⟩ <;> exact ⟨rfl, rfl⟩
    refine Related.bind hseq ?_
    rintro c _ s s' ⟨⟨rfl, hc⟩, hs⟩
    rw [after_whileFrame, hc]
    refine .some ⟨?_, hs.mono hsub hupdate⟩
    split
    · exact .none
    · exact .some rfl

/-- A loop over an iterator, and the loop that keeps the iterator and its step in temporaries. -/
theorem sim_partings (hgiven : given iter = it) :
    Sim (Near (step :: M) given) Parting.EndsAs
      (repeatUntil (I.stepRound labels it bind body))
      ((I.whileFrame (I.stepTest iter step) (pure I.undefined)).loop [] (seq bound body')) := by
  refine .repeatUntil ?_
  rintro s s' ⟨huser, htemps⟩
  -- every round may start with other values of the step and of the temporaries of the body
  refine (related_partingRound hiter hbound hbody ((htemps iter hiter).trans hgiven) s s'
    ⟨huser, fun _ _ => rfl⟩).mono ?_
  rintro ⟨a, t⟩ ⟨b, t'⟩ ⟨hab, ht⟩
  exact ⟨hab, ht.mono (List.Subset.refl _) htemps⟩

end

end Loops

/-- Statements bind the value of a step, which is in a temporary, as the head of a loop does. They
may change all other temporaries but the one of the iterator. -/
def Interp.BindsAs {U V : Type} (I : Interp U V) (temps : List String) (head : Node .forHead)
    (iter step : String) (bound : List Stmt) : Prop :=
  ∀ given : String → V, Sim (Near (temps.filter fun x => x ≠ iter ∧ x ≠ step) given) Eq
    (evaluating (I.bindStep temps (I.meanings temps head) (I.field (given step) "value") head.skeleton)
      fun _ => done) (I.exec temps [] (.ofList bound))

namespace Loops

open Node

variable {U V : Type} {I : Interp U V} {temps M N labels : List String} {t : Context} {c : Cat}

/-- Code without temporaries runs alike whatever the temporaries hold. -/
theorem kin_of_clear {continues : Bool} (n : Node c) (hclear : n.Clear temps)
    (hlabels : n.labelNames ⊆ N) (hcontinue : continues = true ∨ n.hasContinue = false) :
    (keeping M N continues).Kin I temps (fun _ => True) n n := by
  induction n using partsInduction with
  | step n ih =>
    refine .of_lowered_parts hclear (fun x hx => hlabels (mem_labelNames.mpr (.inl hx))) ?_
      (Parts.refl fun hk => ih hk (hclear.part hk) (labelNames_part hlabels hk) ?_)
    · exact hcontinue.symm.imp_left fun hnone => (hasContinue_eq_false.mp hnone).1
    · exact hcontinue.imp_right fun hnone => (hasContinue_eq_false.mp hnone).2 _ hk

theorem goesOn_of_within {continues : Bool} {c : Completion V} (h : c.Within N continues)
    (hcontinue : continues = false ∨ labels = []) : c.goesOn labels = c.goesOn [] := by
  rcases hcontinue with rfl | rfl
  · rw [goesOn_eq h, goesOn_eq h]
  · rfl

/-- A body and what becomes of it, which may have a new label. -/
theorem sim_body {body : Stmt} (hclear : body.Clear temps)
    (hcontinue : labels = [] ∨ body.hasContinue = false)
    (hnew : t.newNames ((labeledBody body).run t).2 ⊆ temps) (given : String → V) :
    Sim (Near M given) (SameRound labels) (I.exec temps [] body)
      (I.exec temps [] ((labeledBody body).run t).1) := by
  let continues : Bool := body.hasContinue
  have hkin : (keeping M body.labelNames continues).Kin I temps (fun _ => True) body body :=
    kin_of_clear body hclear (List.Subset.refl _) (by cases h : body.hasContinue <;> simp [continues, h])
  have hsame : Sim (Near M given) (fun c c' => c = c' ∧ c.Within body.labelNames continues)
      (I.exec temps [] body) (I.exec temps [] body) := hkin.exec given [] trivial
  have hlabeled : Sim (Near M given) (fun c c' => c = c' ∧ c.Within body.labelNames continues)
      (I.exec temps [] body) (I.exec temps [] ((labeledBody body).run t).1) := by
    rcases run_labeledBody body t with hrun | hrun
    · rw [hrun]
      exact hsame
    · rw [hrun] at hnew
      have hpick : t.names.pick "L" ∈ t.newNames (t.withFreshLabel "L") :=
        Context.mem_newNames.mpr ⟨.head _, t.names.pick_notMem "L"⟩
      exact sim_labeledBody_of_notMem (fun hmem => hclear _ (labelNames_subset_names body hmem)
        (hnew hpick)) hsame
  refine hlabeled.mono ?_
  rintro c _ ⟨rfl, hc⟩
  exact ⟨rfl, goesOn_of_within hc hcontinue.symm⟩

/-- The call that asks a value for its iterator. -/
def iteratorOf (subject : Expr) : Expr :=
  Build.call (Build.computed subject (Build.member (Build.name "Symbol") "iterator")) []

variable {iter step : Ident} {head : Node .forHead} {subject : Expr} {body body' : Stmt}
  {bound : List Stmt} {span : Span}

/-- A loop over an iterator ends where the loop that stands for it ends. -/
theorem related_iterated {labels' : List String} (hne : iter.name ≠ step.name)
    (hiter : iter.name ∈ temps) (hstep : step.name ∈ temps) (hsymbol : "Symbol" ∉ temps)
    (hsubject : subject.Clear temps) (hbinds : I.BindsAs temps head iter.name step.name bound)
    (hbody : ∀ {M : List String} (given : String → V), Sim (Near M given) (SameRound labels)
      (I.exec temps [] body) (I.exec temps [] body')) :
    Related (fun s s' => s.user = s'.user) Parting.Meets
      (I.partings temps labels head subject body)
      (I.exec temps labels' (iterated span iter step (iteratorOf subject) bound body')) := by
  let M := temps.filter fun x => x ≠ iter.name ∧ x ≠ step.name
  have hother : iter.name ∉ step.name :: M := by simp [M, hne]
  rw [exec_iterated hiter hstep, iteratorOf, value_iterator hsymbol, partings, evaluating]
  intro s s' hs
  have hvalue : Related (Near M s'.temps) (fun r t r' t' => r = r' ∧ Near M s'.temps t t')
      (I.value temps subject >>= fun v => lift (I.iterator false v)).run
      (I.value temps subject >>= fun v => lift (I.iterator false v)).run :=
    (keep_value (K := keeping M [] true) (.inr hsubject) s'.temps rfl).bind fun v =>
      keep_lift ((keeping M [] true).neutral s'.temps) _
  refine (Related.bind hvalue (fun r r' t t' hr => ?_) : Related _ Parting.Meets _ _) s s'
    ⟨hs, fun _ _ => rfl⟩
  obtain ⟨rfl, ht⟩ := hr
  cases r with
  | error v => exact .some ⟨rfl, ht.1⟩
  | ok it =>
    let given := Function.update (Function.update s'.temps iter.name it) step.name I.undefined
    have hgiven : given iter.name = it := by
      simp only [given, Function.update_of_ne hne, Function.update_self]
    have hloop : Sim (Near (step.name :: M) given) Parting.EndsAs
        (repeatUntil (I.stepRound labels it
          (I.bindStep temps (I.meanings temps head) · head.skeleton) _)) _ :=
      sim_partings hother hbinds hbody hgiven
    refine (related_setting (related_setting (Related.mono (Related.weaken hloop ?_) ?_)) :
      Related _ Parting.Meets _ _) t t' ht
    · exact fun s s' hs => hs.mono (List.subset_cons_self ..) fun _ _ => rfl
    · exact fun e s c s' h => ⟨h.1, h.2.1⟩

/-- Heads that declare names or assign are taken over as they are. -/
theorem bindsAs_of_bindsNames {b : StepBinding} (hb : stepBinding head = .ok b)
    (hnames : head.bindsNames = true) (hclear : head.Clear temps) (hstep : step.name ∈ temps)
    (iter : String) (t : Context) : I.BindsAs temps head iter step.name
      ((bindStep (Build.member (.ref step) "value") b).run t).1 := by
  intro given
  obtain ⟨bound, hrun, hexec, -⟩ := run_bindStep (I := I) hb hnames hclear.skeleton t
  rw [hrun, hexec hstep, bindRun]
  refine related_reading (by simp) ?_
  exact sim_evaluating (keep_bindStep ((keeping _ [] true).neutral given) hclear.skeleton _ _)
    (fun _ => rfl) fun _ => .pure rfl

theorem grows_bindStep (value : Expr) (b : StepBinding) (t : Context) :
    t.Grows ((bindStep value b).run t).2 := by
  cases b with
  | declare v =>
    let w := Weight.functions []
    have hcosts : w.Costs (w.terms []) (w.all .top) _ (Declarations.splitIfNeeded _) :=
      Measure.costs_splitIfNeeded .top (initialiseFirst value v)
    exact (hcosts t False.elim).1.grows
  | assign target => exact .refl t

/-- A `for-of` loop is reported and stays, or it becomes a loop that runs like it up to the point
where it ends. -/
theorem related_lowerForOf (span : Span) (isAwait : Bool) (head : Node .forHead)
    (subject : Expr) (body : Stmt) (t : Context) :
    let r := (lowerForOf span isAwait head subject body).run t
    (∃ message, r = (.forOfStmt span isAwait head subject body,
        t.record ⟨.unsupported, span, message⟩)) ∨
      isAwait = false ∧ ∃ (iter step : Ident) (bound : List Stmt) (body' : Stmt),
        r.1 = iterated span iter step (iteratorOf subject) bound body' ∧
          ∀ {U V : Type} (I : Interp U V) (labels labels' : List String),
            let temps := t.newNames r.2
            head.Clear temps → subject.Clear temps → body.Clear temps →
            (head.bindsNames = true ∨ I.BindsAs temps head iter.name step.name bound) →
            (labels = [] ∨ body.hasContinue = false) →
              Related (fun s s' => s.user = s'.user) Parting.Meets
                (I.partings temps labels head subject body) (I.exec temps labels' r.1) := by
  intro r
  rcases run_lowerForOf span isAwait head subject body t with hkept | ⟨rfl, b, hb, hrun : r = _⟩
  · exact .inl hkept
  rw [run_iterate] at hrun
  let u := (t.withFresh "iter").withFresh "step"
  let iter : Ident := .ofName (t.names.pick "iter")
  let step : Ident := .ofName ((t.withFresh "iter").names.pick "step")
  let bound := (bindStep (Build.member (.ref step) "value") b).run u
  let last := (labeledBody body).run bound.2
  refine .inr ⟨rfl, iter, step, bound.1, last.1, congrArg Prod.fst hrun, ?_⟩
  intro U V I labels labels' temps hhead hsubject hbody hbinds hcontinue
  have hlast : bound.2.Grows r.2 := hrun ▸ grows_labeledBody body bound.2
  have hu : u.Grows r.2 := (grows_bindStep _ b u).trans hlast
  have hiter : iter.name ∈ temps := Context.newNames_subset
    (((t.withFresh "iter").grows_withFresh "step").trans hu) (Context.pick_mem_newNames (.refl t) "iter")
  have hstep : step.name ∈ temps := Context.newNames_subset hu
    (Context.pick_mem_newNames (t.grows_withFresh "iter") "step")
  have hne : iter.name ≠ step.name := fun he =>
    (t.withFresh "iter").names.pick_notMem "step" ((congrArg (· ∈ _) he).mp (.head _))
  have hsymbol : "Symbol" ∉ temps := symbol_notMem_newNames
    ((rewrites []).calm (.forOfStmt span false head subject body) t).steps
  rw [show r.1 = _ from congrArg Prod.fst hrun]
  refine related_iterated hne hiter hstep hsymbol hsubject ?_ (fun given => ?_)
  · exact hbinds.elim (fun hnames => bindsAs_of_bindsNames hb hnames hhead hstep iter.name u) id
  · refine sim_body hbody hcontinue (fun x hx => ?_) given
    have hbound : t.Grows bound.2 := ((t.grows_withFresh "iter").trans
      ((t.withFresh "iter").grows_withFresh "step")).trans (grows_bindStep _ b u)
    rw [Context.mem_newNames] at hx ⊢
    exact ⟨hrun ▸ hx.1, fun hmem => hx.2 (hbound.reserved hmem)⟩

end Loops

open Loops in
/-- What a lowered `for-of` loop leaves out is the closing of its iterator, and nothing else: a loop
is reported and stays as it is, or what becomes of it runs like the loop up to the point where the
loop ends, and there it ends in the same way and in the same state, whereas the loop closes the
iterator if it is left. -/
theorem lowerLoop_omits_closing (span : Span) (isAwait : Bool) (head : Node .forHead)
    (subject : Expr) (body : Stmt) (t : Context) :
    let loop : Stmt := .forOfStmt span isAwait head subject body
    let r := (lowerLoop loop).run t
    (∃ message, r = (loop, t.record ⟨.unsupported, span, message⟩)) ∨
      ∃ (iter step : Ident) (bound : List Stmt) (body' : Stmt),
        r.1 = iterated span iter step (iteratorOf subject) bound body' ∧
          ∀ {U V : Type} (I : Interp U V) (labels labels' : List String),
            let temps := t.newNames r.2
            loop.Clear temps →
            (head.bindsNames = true ∨ I.BindsAs temps head iter.name step.name bound) →
            (labels = [] ∨ body.hasContinue = false) →
              I.exec temps labels loop =
                I.partings temps labels head subject body >>= I.closing ∧
              Related (fun s s' => s.user = s'.user) Parting.Meets
                (I.partings temps labels head subject body) (I.exec temps labels' r.1) := by
  intro loop r
  rcases related_lowerForOf span isAwait head subject body t with
    hkept | ⟨rfl, iter, step, bound, body', hrun, hruns⟩
  · exact .inl hkept
  refine .inr ⟨iter, step, bound, body', hrun, fun I labels labels' hclear hbinds hcontinue => ?_⟩
  exact ⟨exec_forOfStmt_eq span head subject body, hruns I labels labels' (hclear.part (.head _))
    (hclear.part (.tail _ (.head _))) (hclear.part (.tail _ (.tail _ (.head _)))) hbinds hcontinue⟩

/-- An interpretation in which iterators always have more to give, and closing one throws. -/
def Interp.unclosable : Interp Unit Decimal :=
  { Interp.keyless "$forIn" with
    declareName _ _ _ := pure ()
    iterator _ _ := pure (.ofNat 0)
    next _ _ := pure (.ofNat 0)
    close _ _ := throw (.ofNat 1) }

/-- `const x` -/
def eachX : Node .forHead :=
  .headDecl (.varDecl ⟨6, 13⟩ 0 .const false (.ofList [
    .declarator ⟨12, 13⟩ false (.binder (.ofName "x")) .none]))

/-- `for (const x of xs) body` -/
def overXs (body : Stmt) : Stmt :=
  .forOfStmt ⟨1, 27⟩ false eachX (Node.Build.name "xs") body

def overXsProgram (body : Stmt) : Program := .scriptProgram ⟨1, 27⟩ none (.ofList [overXs body])

/-- `if (x) break outer; else throw x;` -/
def jumpOrThrow : Stmt :=
  Node.Build.ifElse (Node.Build.name "x") (Node.Build.breakTo (some (.ofName "outer")))
    (some (Node.Build.throwStmt (Node.Build.name "x")))

open Loops in
theorem lowerLoop_omits_closing_jumpOrThrow :
    let cx := Context.start .default (overXsProgram jumpOrThrow)
    let r := (lowerLoop (overXs jumpOrThrow)).run cx
    let temps := cx.newNames r.2
    r.2.diagnostics = [] ∧ (overXs jumpOrThrow).Clear temps ∧ jumpOrThrow.hasContinue = false ∧
      ∃ run, Interp.unclosable.exec temps ["outer"] (overXs jumpOrThrow) =
          run >>= Interp.unclosable.closing ∧
        Related (fun s s' => s.user = s'.user) Parting.Meets run
          (Interp.unclosable.exec temps ["outer"] r.1) := by
  intro cx r temps
  have hquiet : r.2.diagnostics = [] := by decide +kernel
  have hknown : (overXs jumpOrThrow).names ⊆ cx.names.reserved := by decide +kernel
  have hclear : (overXs jumpOrThrow).Clear temps := clear_newNames hknown r.2
  have hcontinue : jumpOrThrow.hasContinue = false := by decide +kernel
  refine ⟨hquiet, hclear, hcontinue, ?_⟩
  obtain ⟨message, hkept⟩ | ⟨iter, step, bound, body', -, hruns⟩ :=
    lowerLoop_omits_closing ⟨1, 27⟩ false _ (Node.Build.name "xs") jumpOrThrow cx
  · have hkept : r = (_, cx.record _) := hkept
    rw [hkept] at hquiet
    exact absurd hquiet (by simp [Context.record])
  · exact ⟨_, hruns .unclosable ["outer"] ["outer"] hclear (.inl rfl) (.inr hcontinue)⟩

namespace Interp

variable {temps : List String}

theorem value_name {U V : Type} {I : Interp U V} {x : String} (h : x ∉ temps) :
    I.value temps (Node.Build.name x) = lift (I.expr (.ref (.ofName x)) []) := by
  rw [Node.Build.name, value_eq, codeOf_ref]
  conv_lhs => unfold eval
  exact if_neg h

/-- The loop is left in its first round. -/
theorem partings_unclosable (hxs : "xs" ∉ temps) (hx : "x" ∉ temps) (s : State Unit Decimal) :
    (unclosable.partings temps [] eachX (Node.Build.name "xs") (Node.Build.breakTo none)).run s =
      .some (.left (.ofNat 0) (.break none), s) := by
  have hskeleton : eachX.skeleton = eachX := by
    rw [eachX, Node.skeleton_headDecl, Node.skeleton_varDecl, Node.ofList, Node.ofList,
      Node.skeleton_cons, Node.skeleton_declarator, Node.skeleton_binder, Node.skeleton_nil,
      Node.skeleton_eq_mapParts (n := .none) (by simp)]
    rfl
  have hbind (v : Decimal) : unclosable.bindStep temps (unclosable.meanings temps eachX) v
      eachX.skeleton = pure () := by
    rw [hskeleton]
    exact if_neg hx
  have hround : (unclosable.stepRound [] (.ofNat 0)
      (unclosable.bindStep temps (unclosable.meanings temps eachX) · eachX.skeleton)
      (unclosable.exec temps [] (Node.Build.breakTo none))).run s =
      .some (some (.left (.ofNat 0) (.break none)), s) := by
    have hnext : lift (unclosable.next false (.ofNat 0)) =
        (pure (.ofNat 0) : Action (State Unit Decimal) Decimal Decimal) := rfl
    have hmore : unclosable.truthy (unclosable.field (.ofNat 0) "done") = false := by
      change (Decimal.ofNat 0 != Decimal.ofNat 0) = false
      decide
    rw [stepRound, hnext, ExceptT.run_pure, pure_bind]
    dsimp only
    rw [hmore, if_neg Bool.false_ne_true, hbind, evaluating_pure, done_seq, Node.Build.breakTo,
      exec_breakStmt, pure_bind]
    rfl
  have hsubject : (unclosable.value temps (Node.Build.name "xs") >>= fun v =>
      lift (unclosable.iterator false v)) = pure (.ofNat 0) := by
    rw [value_name hxs]
    exact pure_bind _ _
  rw [partings, hsubject, ExceptT.run_pure, pure_bind]
  exact repeatUntil_of_some hround

theorem closing_unclosable (it : Decimal) :
    unclosable.closing (.left it (.break none)) = pure (.throw (.ofNat 1)) := by
  have hclose : lift (unclosable.close false it) =
      (throw (.ofNat 1) : Action (State Unit Decimal) Decimal Unit) := lift_throw _
  rw [closing, hclose, ExceptT.run_throw, map_pure]
  rfl

end Interp

open Loops in
/-- `for (const x of xs) break;` closes its iterator and ends with what that throws. What becomes of
it ends normally, and nothing is reported. -/
theorem lowerLoops_leaves_iterator_open :
    let p := overXsProgram (Node.Build.breakTo none)
    let cx := Context.start .default p
    let r := (lowerLoops p).run cx
    r.2.diagnostics = [] ∧ ∀ s : State Unit Decimal,
      (Interp.unclosable.exec (cx.newNames r.2) [] p).run s = .some (.throw (.ofNat 1), s) ∧
        ∃ s', (Interp.unclosable.exec (cx.newNames r.2) [] r.1).run s = .some (.normal, s') := by
  intro p cx r
  let body : Stmt := Node.Build.breakTo none
  have hquiet : r.2.diagnostics = [] := by decide +kernel
  have hknown : (overXs body).names ⊆ cx.names.reserved := by decide +kernel
  have hnames : "xs" ∈ (overXs body).names ∧ "x" ∈ (overXs body).names := by decide +kernel
  have hnone : ∀ k ∈ (overXs body).children, k.2.all (fun m => !m.isLoop) = true := by
    decide +kernel
  let k := (lowerForOf ⟨1, 27⟩ false eachX (Node.Build.name "xs") body).run cx
  have hrun : r = (.scriptProgram ⟨1, 27⟩ none (.ofList [k.1]), k.2) :=
    Lower.run_bottomUp_script (fun m hm => Lower.bottomUp_eq_pure
      (fun k hk => (rewrites []).other k (by simpa using hk)) (hnone _ hm)) ⟨1, 27⟩ none cx
  refine ⟨hquiet, fun s => ?_⟩
  rw [hrun] at hquiet ⊢
  let temps := cx.newNames k.2
  have hclear : (overXs body).Clear temps := clear_newNames hknown k.2
  have hpartings := Interp.partings_unclosable (hclear _ hnames.1) (hclear _ hnames.2) s
  have hsole (k : Stmt) : Interp.unclosable.exec temps []
      (.scriptProgram ⟨1, 27⟩ none (.ofList [k])) = Interp.unclosable.exec temps [] k := by
    rw [exec_scriptProgram, Node.ofList, Node.ofList, exec_cons, exec_nil, seq_done]
  change StateT.run (Interp.unclosable.exec temps [] (.scriptProgram _ none (.ofList [_]))) s = _ ∧
    ∃ s', StateT.run (Interp.unclosable.exec temps [] (.scriptProgram _ none (.ofList [_]))) s = _
  rw [hsole, hsole]
  constructor
  · rw [overXs, exec_forOfStmt_eq, StateT.run_bind, hpartings]
    exact (Part.bind_some _ _).trans (congrArg (StateT.run · s) (Interp.closing_unclosable _))
  · rcases related_lowerForOf ⟨1, 27⟩ false eachX (Node.Build.name "xs") body cx with
      ⟨message, hkept : k = _⟩ | ⟨-, iter, step, bound, body', -, hruns⟩
    · rw [hkept] at hquiet
      exact absurd hquiet (by simp [Context.record])
    have hsame := hruns Interp.unclosable [] [] (hclear.part (.head _))
      (hclear.part (.tail _ (.head _))) (hclear.part (.tail _ (.tail _ (.head _)))) (.inl rfl)
      (.inl rfl) s s rfl
    obtain ⟨⟨c, s'⟩, hmem, hend, -⟩ := hsame.1 _ (hpartings ▸ Part.mem_some _)
    obtain rfl : c = .normal := hend
    exact ⟨s', Part.eq_some_iff.mpr hmem⟩

end PlainJs

import PlainJs.Proofs.Loops.Iterators
import PlainJs.Proofs.Lowered

namespace PlainJs

open Effect Run Interp Comparison

namespace Run

variable {S V A : Type}

/-- What a loop does after its body. -/
def Frame.after (f : Frame S V) (labels : List String) (c : Completion V) :
    Effect S (Option (Completion V)) :=
  if c.goesOn labels then Frame.checking f.again (pure none) else some <$> f.closed c

theorem Frame.round_eq (f : Frame S V) (labels : List String) (body : Effect S (Completion V)) :
    f.round labels body = Frame.checking f.enter (body >>= f.after labels) := rfl

/-- Goes on with a value, and ends a loop with what is thrown. -/
def orEnd (x : Action S V A) (k : A → Effect S (Option (Completion V))) :
    Effect S (Option (Completion V)) :=
  x.run >>= fun
    | .ok a => k a
    | .error v => pure (some (.throw v))

theorem orEnd_pure (a : A) (k : A → Effect S (Option (Completion V))) :
    orEnd (pure a) k = k a := by
  unfold orEnd
  rw [ExceptT.run_pure, pure_bind]

theorem orEnd_bind {B : Type} (x : Action S V A) (f : A → Action S V B)
    (k : B → Effect S (Option (Completion V))) :
    orEnd (x >>= f) k = orEnd x fun a => orEnd (f a) k := by
  unfold orEnd
  rw [ExceptT.run_bind, bind_assoc]
  congr 1
  funext r
  cases r <;> simp

theorem checking_eq (x : Action S V Bool) (k : Effect S (Option (Completion V))) :
    Frame.checking x k = orEnd x fun b => if b then k else pure (some .normal) := by
  unfold Frame.checking orEnd
  congr 1
  funext r
  match r with
  | .ok true | .ok false | .error v => rfl

theorem evaluating_bind_eq (x : Action S V A) (k : A → Effect S (Completion V))
    (g : Completion V → Effect S (Option (Completion V)))
    (hg : ∀ v, g (.throw v) = pure (some (.throw v))) :
    evaluating x k >>= g = orEnd x fun a => k a >>= g := by
  unfold evaluating orEnd
  rw [bind_assoc]
  congr 1
  funext r
  cases r with
  | ok a => rfl
  | error v =>
    rw [pure_bind]
    exact hg v

theorem seq_bind_eq (x y : Effect S (Completion V))
    (g : Completion V → Effect S (Option (Completion V))) :
    seq x y >>= g = x >>= fun c => if c.isNormal then y >>= g else g c := by
  unfold seq
  rw [bind_assoc]
  congr 1
  funext c
  split
  · rfl
  · exact pure_bind _ _

theorem related_orEnd {R : S → S → Prop} {a a' : Action S V A}
    {k k' : A → Effect S (Option (Completion V))}
    {Post : Option (Completion V) → S → Option (Completion V) → S → Prop} (ha : a.Keep R a')
    (throw : ∀ v s s', R s s' → Post (some (.throw v)) s (some (.throw v)) s')
    (hk : ∀ v, Related R Post (k v) (k' v)) : Related R Post (orEnd a k) (orEnd a' k') := by
  have hrun : Related R (fun r s r' s' => r = r' ∧ R s s') a.run a'.run := ha
  refine hrun.bind fun r r' s s' hr => ?_
  obtain ⟨rfl, hs⟩ := hr
  cases r with
  | ok v => exact hk v s s' hs
  | error v => exact .some (throw v s s' hs)

theorem orClose_pure (x : Action S V A) : x.orClose (pure ()) = x := by
  unfold Action.orClose
  refine (congrArg (x.run >>= ·) (funext fun r => ?_)).trans (bind_pure x.run)
  cases r with
  | ok a => rfl
  | error v => exact pure_bind _ _

end Run

namespace Loops

variable {U V : Type} {I : Interp U V} {N : List String} {labels labels' : List String}

/-- Equal ends with labels in `N`, none of which is a `continue`. -/
abbrev Same (N : List String) (c c' : Completion V) : Prop := c = c' ∧ c.Within N false

theorem goesOn_eq {c : Completion V} (h : c.Within N false) (labels : List String) :
    c.goesOn labels = c.isNormal := by
  match c with
  | .normal | .break _ | .return _ | .throw _ => rfl
  | .continue _ => exact Bool.noConfusion h.1

theorem eq_normal {c : Completion V} (h : c.isNormal = true) : c = .normal := by
  match c with
  | .normal => rfl
  | .break _ | .continue _ | .return _ | .throw _ => cases h

section

variable {f : Frame (State U V) V} (hclose : f.close = pure ())
include hclose

/-- A body that does not end normally ends its loop. -/
theorem after_of_leaves {c : Completion V} (h : c.Within N false) (hc : c.isNormal = false) :
    f.after labels c = pure (some c.leave) := by
  rw [Frame.after, goesOn_eq h, hc, if_neg Bool.false_ne_true, Frame.closed, hclose]
  simp [Completion.closedBy]

theorem after_throw (v : V) : f.after labels (.throw v) = pure (some (.throw v)) :=
  after_of_leaves (N := []) hclose trivial rfl

end

theorem after_while (test : Action (State U V) V V) :
    (I.whileFrame test (pure I.undefined)).after labels .normal = pure none := by
  change Frame.checking ((fun _ => true) <$> pure I.undefined) (pure none) = _
  rw [map_pure, checking_eq, orEnd_pure, if_pos rfl]

variable {R : State U V → State U V → Prop} {test test' update update' : Action (State U V) V V}
  {body body' : Effect (State U V) (Completion V)}

theorem optionRel_some {c : Completion V} (h : c.Within N false) :
    Option.Rel (Same N) (some c) (some c) := .some ⟨rfl, h⟩

/-- A `for` loop, and a `while` loop that runs the update after the body. -/
theorem sim_forLoop (htest : test.Keep R test') (hupdate : update.Keep R update')
    (hbody : Sim R (Same N) body body') :
    Sim R (Same N) ((I.whileFrame test update).loop labels body)
      ((I.whileFrame test' (pure I.undefined)).loop labels'
        (seq body' (evaluating update' fun _ => done))) := by
  have hthrow : ∀ v : V, Same N (.throw v) (.throw v) := fun _ => ⟨rfl, trivial⟩
  refine .repeatUntil (Frame.sim_checking (htest.map _) ⟨rfl, trivial⟩ hthrow ?_)
  change Sim R _ (body >>= (I.whileFrame test update).after labels)
    (_ >>= (I.whileFrame test' (pure I.undefined)).after labels')
  rw [seq_bind_eq]
  refine hbody.bind ?_
  rintro c _ ⟨rfl, hc⟩
  by_cases hnormal : c.isNormal = true
  · obtain rfl := eq_normal hnormal
    rw [if_pos hnormal, evaluating_bind_eq _ _ _ (after_throw rfl)]
    change Sim R _ (Frame.checking ((fun _ => true) <$> update) (pure none)) _
    rw [checking_eq, map_eq_pure_bind, orEnd_bind]
    refine related_orEnd hupdate (fun v s s' hs => ⟨.some (hthrow v), hs⟩) fun v => ?_
    rw [orEnd_pure, if_pos rfl, done, pure_bind, after_while]
    exact Sim.pure .none
  · rw [Bool.not_eq_true] at hnormal
    rw [after_of_leaves rfl hc hnormal, if_neg (by simp [hnormal]), after_of_leaves rfl hc hnormal]
    exact .pure (optionRel_some hc.leave)

/-- A `do` loop, and a `while` loop whose body ends with the test. -/
theorem sim_doWhileLoop (htest : test.Keep R test') (hbody : Sim R (Same N) body body') :
    Sim R (Same N) ((I.doWhileFrame test).loop labels body)
      ((I.whileFrame (pure (I.bool true)) (pure I.undefined)).loop labels'
        (seq body' (evaluating test' fun v => if I.truthy v then done else pure (.break none)))) := by
  have hthrow : ∀ v : V, Same N (.throw v) (.throw v) := fun _ => ⟨rfl, trivial⟩
  have henter : Action.Keep R (pure true)
      (I.truthy <$> (pure (I.bool true) : Action (State U V) V V)) := by
    rw [map_pure, I.truthy_bool]
    exact .pure true
  refine .repeatUntil (Frame.sim_checking henter ⟨rfl, trivial⟩ hthrow ?_)
  change Sim R _ (body >>= (I.doWhileFrame test).after labels)
    (_ >>= (I.whileFrame (pure (I.bool true)) (pure I.undefined)).after labels')
  rw [seq_bind_eq]
  refine hbody.bind ?_
  rintro c _ ⟨rfl, hc⟩
  by_cases hnormal : c.isNormal = true
  · obtain rfl := eq_normal hnormal
    rw [if_pos hnormal, evaluating_bind_eq _ _ _ (after_throw rfl)]
    change Sim R _ (Frame.checking (I.truthy <$> test) (pure none)) _
    rw [checking_eq, map_eq_pure_bind, orEnd_bind]
    refine related_orEnd htest (fun v s s' hs => ⟨.some (hthrow v), hs⟩) fun v => ?_
    rw [orEnd_pure]
    split
    · rw [done, pure_bind, after_while]
      exact Sim.pure .none
    · rw [pure_bind, after_of_leaves (N := N) rfl (by simp [Completion.Within]) rfl]
      exact Sim.pure (.some ⟨rfl, trivial⟩)
  · rw [Bool.not_eq_true] at hnormal
    rw [after_of_leaves rfl hc hnormal, if_neg (by simp [hnormal]), after_of_leaves rfl hc hnormal]
    exact .pure (optionRel_some hc.leave)

section

variable {M : List String} {given : String → V} {iter step : String} {it : V}
  {bind : V → Action (State U V) V Unit}

theorem orEnd_readTemp (x : String) (k : V → Effect (State U V) (Option (Completion V))) :
    orEnd (readTemp x) k = reading x k := by
  funext s
  change StateT.run (orEnd (readTemp x) k) s = _
  rw [orEnd, StateT.run_bind]
  exact Part.bind_some _ _

theorem orEnd_writeTemp (x : String) (v : V)
    (k : Unit → Effect (State U V) (Option (Completion V))) :
    orEnd (writeTemp x v) k = setting x v (k ()) := by
  funext s
  change StateT.run (orEnd (writeTemp x v) k) s = _
  rw [orEnd, StateT.run_bind]
  exact Part.bind_some _ _

/-- A round over an iterator that needs no closing. -/
theorem checking_stepFrame (k : Effect (State U V) (Option (Completion V))) :
    Frame.checking (I.stepFrame false it bind (pure ())).enter k =
      orEnd (lift (I.next false it)) fun r =>
        if I.truthy (I.field r "done") then pure (some .normal)
        else orEnd (bind (I.field r "value")) fun _ => k := by
  rw [checking_eq]
  unfold stepFrame
  rw [orEnd_bind]
  congr 1
  funext r
  split
  · rw [orEnd_pure, if_neg Bool.false_ne_true]
  · rw [orClose_pure, orEnd_bind]
    congr 1
    funext _
    rw [orEnd_pure, if_pos rfl]

/-- The same round where the iterator and its step are in temporaries. -/
theorem checking_stepTest (k : Effect (State U V) (Option (Completion V))) :
    Frame.checking (I.truthy <$> I.stepTest iter step) k =
      reading iter fun v => orEnd (lift (I.next false v)) fun r => setting step r
        (if I.truthy (I.field r "done") then pure (some .normal) else k) := by
  simp only [stepTest, checking_eq, map_eq_pure_bind, orEnd_bind, orEnd_readTemp, orEnd_writeTemp,
    orEnd_pure, I.truthy_bool]
  congr 1
  funext v
  congr 1
  funext r
  congr 1
  cases I.truthy (I.field r "done") <;> rfl

variable (I bind step) in
/-- Binds the value of the step in a temporary. -/
def bindRun : Effect (State U V) (Completion V) :=
  reading step fun r => evaluating (bind (I.field r "value")) fun _ => done

theorem bindRun_bind_eq (y : Effect (State U V) (Completion V))
    (g : Completion V → Effect (State U V) (Option (Completion V)))
    (hg : ∀ v, g (.throw v) = pure (some (.throw v))) :
    seq (bindRun I step bind) y >>= g =
      reading step fun r => orEnd (bind (I.field r "value")) fun _ => y >>= g := by
  rw [bindRun, seq_reading]
  change (reading step fun r => seq (evaluating (bind (I.field r "value")) fun _ => done) y >>= g) = _
  congr 1
  funext r
  rw [seq_evaluating, evaluating_bind_eq _ _ _ hg, done_seq]

section

variable (hstep : step ∉ M) (hbind : ∀ given v, (bind v).Keep (Near M given) (bind v))
  (hbody : ∀ given, Sim (Near M given) (Same N) body body')
include hstep hbind hbody

/-- A round changes the temporary of the step and those that the body changes. -/
theorem related_stepRound (hiter : iter ∉ M) (hgiven : given iter = it) :
    Related (Near M given)
      (fun a s b s' => Option.Rel (Same N) a b ∧ Near (step :: M) given s s')
      ((I.stepFrame false it bind (pure ())).round labels body)
      ((I.whileFrame (I.stepTest iter step) (pure I.undefined)).round labels'
        (seq (bindRun I step bind) body')) := by
  have hsub : M ⊆ step :: M := List.subset_cons_self ..
  have hupdate (r : V) : ∀ x ∉ step :: M, Function.update given step r x = given x :=
    fun x hx => Function.update_of_ne (List.ne_of_not_mem_cons hx) ..
  rw [Frame.round_eq, Frame.round_eq, checking_stepFrame]
  change Related _ _ _ (Frame.checking (I.truthy <$> I.stepTest iter step) _)
  rw [checking_stepTest, bindRun_bind_eq _ _ (after_throw rfl)]
  refine related_reading hiter ?_
  rw [hgiven]
  refine related_orEnd (keep_lift ((keeping M N false).neutral given) _) (fun v s s' hs => ?_)
    fun r => related_setting ?_
  · exact ⟨.some ⟨rfl, trivial⟩, hs.mono hsub fun _ _ => rfl⟩
  have hpost {s s' : State U V} (hs : Near M (Function.update given step r) s s') :
      Near (step :: M) given s s' := hs.mono hsub (hupdate r)
  split
  · exact .pure fun s s' hs => ⟨.some ⟨rfl, trivial⟩, hpost hs⟩
  refine related_reading hstep ?_
  rw [Function.update_self]
  refine related_orEnd (hbind _ _) (fun v s s' hs => ⟨.some ⟨rfl, trivial⟩, hpost hs⟩) fun _ => ?_
  refine Related.bind (hbody (Function.update given step r)) ?_
  intro c c' s s' hc
  obtain ⟨⟨rfl, hc⟩, hs⟩ := hc
  by_cases hnormal : c.isNormal = true
  · obtain rfl := eq_normal hnormal
    rw [after_while]
    have hafter : (I.stepFrame false it bind (pure ())).after labels .normal = pure none := by
      change Frame.checking (pure true) (pure none) = _
      rw [checking_eq, orEnd_pure, if_pos rfl]
    rw [hafter]
    exact .some ⟨.none, hpost hs⟩
  · rw [Bool.not_eq_true] at hnormal
    rw [after_of_leaves rfl hc hnormal, after_of_leaves rfl hc hnormal]
    exact .some ⟨optionRel_some hc.leave, hpost hs⟩

/-- A loop over an iterator, and a `while` loop that keeps the iterator and its step in
temporaries. -/
theorem sim_stepLoop (hiter : iter ∉ step :: M) (hgiven : given iter = it) :
    Sim (Near (step :: M) given) (Same N)
      ((I.stepFrame false it bind (pure ())).loop labels body)
      ((I.whileFrame (I.stepTest iter step) (pure I.undefined)).loop labels'
        (seq (bindRun I step bind) body')) := by
  refine .repeatUntil ?_
  rintro s s' ⟨huser, htemps⟩
  -- every round may start with other values of the step and of the temporaries of the body
  refine (related_stepRound hstep hbind hbody (fun hmem => hiter (.tail _ hmem))
    ((htemps iter hiter).trans hgiven) s s' ⟨huser, fun _ _ => rfl⟩).mono ?_
  rintro ⟨a, t⟩ ⟨b, t'⟩ ⟨hab, ht⟩
  exact ⟨hab, ht.mono (List.Subset.refl _) htemps⟩

end

end

end Loops

end PlainJs

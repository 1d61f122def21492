import Mathlib.Data.List.Forall2
import PlainJs.Proofs.Effect

namespace PlainJs

/-- How a statement ends. -/
inductive Completion (V : Type)
  | normal
  | break (label : Option String)
  | continue (label : Option String)
  | return (value : V)
  | throw (value : V)
deriving DecidableEq, Repr

namespace Completion

variable {V : Type}

def isNormal : Completion V → Bool
  | .normal => true
  | _ => false

def thrown? : Completion V → Option V
  | .throw v => some v
  | _ => none

/-- What a loop or a `switch` makes of its end: a `break` without a label has done its work. -/
def leave : Completion V → Completion V
  | .break none => .normal
  | c => c

/-- What a loop that closes its iterator makes of its end: what closing throws is lost if the body
has thrown. -/
def closedBy (c : Completion V) : Except V Unit → Completion V
  | .ok _ => c.leave
  | .error v => .throw (c.thrown?.getD v)

/-- What a labelled statement makes of its end. A `continue` that has found no loop with this
label has no meaning. -/
def leaveLabel (label : String) : Completion V → Option (Completion V)
  | .break (some l) => some (if l = label then .normal else .break (some l))
  | .continue (some l) => if l = label then none else some (.continue (some l))
  | c => some c

/-- Whether a loop with these labels goes on after its body has ended so. -/
def goesOn (labels : List String) : Completion V → Bool
  | .normal | .continue none => true
  | .continue (some l) => labels.contains l
  | _ => false

/-- Neither a jump nor a result. -/
def Calm (c : Completion V) : Prop := c = .normal ∨ ∃ v, c = .throw v

/-- Whether a completion is a jump that looks for its target. -/
def isJump : Completion V → Bool
  | .break _ | .continue _ => true
  | _ => false

theorem isNormal_of_isJump {c : Completion V} (h : c.isJump = true) : c.isNormal = false := by
  cases c <;> simp_all [isJump, isNormal]

theorem thrown?_of_isJump {c : Completion V} (h : c.isJump = true) : c.thrown? = none := by
  cases c <;> simp_all [isJump, thrown?]

end Completion

/-- A computation that may throw. -/
abbrev Action (S V : Type) := ExceptT V (Effect S)

/-- An action that runs another one, whose own end is lost, before it throws. -/
def Action.orClose {S V A : Type} (x : Action S V A) (close : Action S V Unit) : Action S V A :=
  ExceptT.mk (x.run >>= fun
    | .ok a => pure (.ok a)
    | .error v => close.run >>= fun _ => pure (.error v))

namespace Run

variable {S V A : Type}

def done : Effect S (Completion V) := pure .normal

/-- Goes on with the value of a computation, and ends with what it throws. -/
def evaluating (x : Action S V A) (k : A → Effect S (Completion V)) : Effect S (Completion V) :=
  x.run >>= fun
    | .ok a => k a
    | .error v => pure (.throw v)

def seq (x y : Effect S (Completion V)) : Effect S (Completion V) :=
  x >>= fun c => if c.isNormal then y else pure c

def labeled (label : String) (x : Effect S (Completion V)) : Effect S (Completion V) :=
  x >>= fun c => (c.leaveLabel label).elim Effect.stuck pure

/-- What a loop does around its body: `enter` before it and `again` after it tell whether the loop
goes on, and `close` runs when the body leaves the loop. -/
structure Frame (S V : Type) where
  enter : Action S V Bool
  again : Action S V Bool
  close : Action S V Unit

namespace Frame

/-- Goes on with a round of a loop if a check says so. -/
def checking (x : Action S V Bool) (k : Effect S (Option (Completion V))) :
    Effect S (Option (Completion V)) :=
  x.run >>= fun
    | .ok true => k
    | .ok false => pure (some .normal)
    | .error v => pure (some (.throw v))

/-- The end of a loop that its body leaves. -/
def closed (f : Frame S V) (c : Completion V) : Effect S (Completion V) :=
  (c.closedBy ·) <$> f.close.run

/-- One round of a loop. -/
def round (f : Frame S V) (labels : List String) (body : Effect S (Completion V)) :
    Effect S (Option (Completion V)) :=
  checking f.enter (body >>= fun c =>
    if c.goesOn labels then checking f.again (pure none) else some <$> f.closed c)

def loop (f : Frame S V) (labels : List String) (body : Effect S (Completion V)) :
    Effect S (Completion V) :=
  Effect.repeatUntil (f.round labels body)

end Frame

/-- A clause of a `switch`; the test of `default` is absent. -/
structure Case (S V : Type) where
  test : Option (Action S V V)
  body : Effect S (Completion V)

/-- How many clauses stand before the first one whose test gives an accepted value. -/
def select (accept : V → Bool) : List (Case S V) → Action S V (Option Nat)
  | [] => pure none
  | ⟨none, _⟩ :: rest => Option.map (· + 1) <$> select accept rest
  | ⟨some test, _⟩ :: rest => do
    if accept (← test) then pure (some 0) else Option.map (· + 1) <$> select accept rest

/-- Runs the bodies of clauses one after the other. -/
def fallThrough : List (Case S V) → Effect S (Completion V)
  | [] => done
  | c :: rest => seq c.body (fallThrough rest)

/-- How many clauses stand before `default`; all of them if there is none. -/
def defaultIdx (cases : List (Case S V)) : Nat := cases.findIdx (·.test.isNone)

/-- A `switch` whose subject has been evaluated. -/
def switchOn (accept : V → Bool) (cases : List (Case S V)) : Effect S (Completion V) :=
  evaluating (select accept cases) fun entry =>
    Completion.leave <$> fallThrough (cases.drop (entry.getD (defaultIdx cases)))

def tryCatch (body : Effect S (Completion V)) :
    Option (V → Effect S (Completion V)) → Effect S (Completion V)
  | none => body
  | some handler => body >>= fun c => c.thrown?.elim (pure c) handler

/-- Runs a finalizer after `body`; if it does not end normally, its end replaces that of `body`. -/
def tryFinally (body finalizer : Effect S (Completion V)) : Effect S (Completion V) :=
  body >>= fun c => finalizer >>= fun d => pure (if d.isNormal then c else d)

end Run

namespace Effect

variable {S V A B A' B' : Type}

/-- Two computations that keep the relation `R` between states and give results in `Q`. -/
def Sim (R : S → S → Prop) (Q : A → B → Prop) (x : Effect S A) (y : Effect S B) : Prop :=
  Related R (fun a s b s' => Q a b ∧ R s s') x y

/-- Every result of a computation has a property. -/
def Yields (P : A → Prop) (x : Effect S A) : Prop := ∀ s, ∀ r ∈ x.run s, P r.1

theorem Yields.bind {P : A → Prop} {P' : B → Prop} {x : Effect S A} {f : A → Effect S B}
    (hx : Yields P x) (hf : ∀ a, P a → Yields P' (f a)) : Yields P' (x >>= f) := by
  intro s r hr
  rw [StateT.run_bind] at hr
  obtain ⟨t, ht, hr⟩ := Part.mem_bind_iff.mp hr
  exact hf t.1 (hx s t ht) t.2 r hr

theorem Yields.pure {P : A → Prop} {a : A} (h : P a) : Yields P (Pure.pure a : Effect S A) := by
  intro s r hr
  cases Part.mem_some_iff.mp hr
  exact h

theorem Yields.true (x : Effect S A) : Yields (fun _ => True) x := fun _ _ _ => trivial

variable {R : S → S → Prop} {Q : A → B → Prop} {Q' : A' → B' → Prop}
  {x : Effect S A} {y : Effect S B}

namespace Sim

theorem pure {a : A} {b : B} (h : Q a b) : Sim R Q (Pure.pure a) (Pure.pure b) :=
  Related.pure fun _ _ hs => ⟨h, hs⟩

theorem bind {f : A → Effect S A'} {g : B → Effect S B'} (h : Sim R Q x y)
    (hf : ∀ a b, Q a b → Sim R Q' (f a) (g b)) : Sim R Q' (x >>= f) (y >>= g) :=
  Related.bind h fun a b s s' hab => hf a b hab.1 s s' hab.2

theorem map {f : A → A'} {g : B → B'} (h : Sim R Q x y) (hf : ∀ a b, Q a b → Q' (f a) (g b)) :
    Sim R Q' (f <$> x) (g <$> y) := by
  rw [map_eq_pure_bind, map_eq_pure_bind]
  exact h.bind fun a b hab => .pure (hf a b hab)

theorem mono {Q₁ : A → B → Prop} (h : Sim R Q x y) (hQ : ∀ a b, Q a b → Q₁ a b) : Sim R Q₁ x y :=
  Related.mono h fun a _ b _ hab => ⟨hQ a b hab.1, hab.2⟩

theorem ofOption {o : Option A} {o' : Option B} (h : Option.Rel Q o o') :
    Sim R Q (o.elim stuck Pure.pure) (o'.elim stuck Pure.pure) := by
  cases h with
  | some h => exact pure h
  | none => exact Related.stuck

theorem repeatUntil {x : Effect S (Option A)} {y : Effect S (Option B)}
    (h : Sim R (Option.Rel Q) x y) : Sim R Q (repeatUntil x) (repeatUntil y) := by
  refine Related.repeatUntil (Related.mono h ?_)
  rintro _ s _ s' ⟨hab, hs⟩
  cases hab with
  | some hab => exact ⟨hab, hs⟩
  | none => exact hs

/-- What is known of the results on the left. -/
theorem restrict {P : A → Prop} (h : Sim R Q x y) (hx : Yields P x) :
    Sim R (fun a b => P a ∧ Q a b) x y := by
  intro s s' hs
  obtain ⟨h₁, h₂⟩ := h s s' hs
  constructor
  · intro r hr
    obtain ⟨r', hr', hQ, hR⟩ := h₁ r hr
    exact ⟨r', hr', ⟨hx s r hr, hQ⟩, hR⟩
  · intro r' hr'
    obtain ⟨r, hr, hQ, hR⟩ := h₂ r' hr'
    exact ⟨r, hr, ⟨hx s r hr, hQ⟩, hR⟩

/-- What is known of the results on the right. -/
theorem restrict_right {P : B → Prop} (h : Sim R Q x y) (hy : Yields P y) :
    Sim R (fun a b => Q a b ∧ P b) x y := by
  intro s s' hs
  obtain ⟨h₁, h₂⟩ := h s s' hs
  constructor
  · intro r hr
    obtain ⟨r', hr', hQ, hR⟩ := h₁ r hr
    exact ⟨r', hr', ⟨hQ, hy s' r' hr'⟩, hR⟩
  · intro r' hr'
    obtain ⟨r, hr, hQ, hR⟩ := h₂ r' hr'
    exact ⟨r, hr, ⟨hQ, hy s' r' hr'⟩, hR⟩

/-- A computation keeps equality of states. -/
theorem refl (x : Effect S A) : Sim Eq Eq x x := by
  rintro s _ rfl
  exact Alike.refl_of fun _ _ => ⟨rfl, rfl⟩

/-- A comparison, and then one of runs from equal states. -/
theorem trans_exact {C : Type} {z : Effect S C} {Q₁ : B → C → Prop} (h : Sim R Q x y)
    (h' : Sim Eq Q₁ y z) : Sim R (fun a c => ∃ b, Q a b ∧ Q₁ b c) x z := by
  intro s s' hs
  obtain ⟨h₁, h₂⟩ := h s s' hs
  obtain ⟨h₁', h₂'⟩ := h' s' s' rfl
  constructor
  · intro r hr
    obtain ⟨r', hr', hQ, hR⟩ := h₁ r hr
    obtain ⟨r'', hr'', hQ', heq⟩ := h₁' r' hr'
    exact ⟨r'', hr'', ⟨r'.1, hQ, hQ'⟩, heq ▸ hR⟩
  · intro r'' hr''
    obtain ⟨r', hr', hQ', heq⟩ := h₂' r'' hr''
    obtain ⟨r, hr, hQ, hR⟩ := h₂ r' hr'
    exact ⟨r, hr, ⟨r'.1, hQ, hQ'⟩, heq ▸ hR⟩

theorem yields {P : A → Prop} (h : Sim Eq (fun a b => a = b ∧ P a) x x) : Yields P x := by
  intro s r hr
  obtain ⟨_, _, hP, _⟩ := (h s s rfl).1 r hr
  exact hP.2

theorem eq {y : Effect S A} (h : Sim Eq Eq x y) : x = y := by
  funext s
  refine Alike.eq ((h s s rfl).mono ?_)
  rintro ⟨a, t⟩ ⟨b, t'⟩ ⟨rfl, rfl⟩
  rfl

end Sim

end Effect

open Effect

/-- Two actions that keep the relation `R` between states and give or throw the same. -/
def Action.Keep {S V A : Type} (R : S → S → Prop) (a a' : Action S V A) : Prop :=
  Sim R Eq a.run a'.run

namespace Action.Keep

variable {S V A B : Type} {R : S → S → Prop} {a a' : Action S V A} {f f' : A → Action S V B}

theorem pure (v : A) : Keep R (Pure.pure v : Action S V A) (Pure.pure v) := Sim.pure rfl

theorem bind (ha : Keep R a a') (hf : ∀ v, Keep R (f v) (f' v)) : Keep R (a >>= f) (a' >>= f') := by
  refine Sim.bind ha ?_
  rintro r _ rfl
  cases r with
  | ok v => exact hf v
  | error v => exact Sim.pure rfl

theorem map (ha : Keep R a a') (g : A → B) : Keep R (g <$> a) (g <$> a') := by
  rw [map_eq_pure_bind, map_eq_pure_bind]
  exact ha.bind fun v => .pure (g v)

theorem orClose {close close' : Action S V Unit} (ha : Keep R a a') (hclose : Keep R close close') :
    Keep R (a.orClose close) (a'.orClose close') := by
  refine Sim.bind ha ?_
  rintro r _ rfl
  cases r with
  | ok v => exact Sim.pure rfl
  | error v => exact Sim.bind hclose fun _ _ _ => Sim.pure rfl

end Action.Keep

/-- A relation between completions under which statements other than jumps cannot tell them
apart. -/
structure Transparent {V : Type} (Q : Completion V → Completion V → Prop) : Prop where
  normal : Q .normal .normal
  throw : ∀ v, Q (.throw v) (.throw v)
  same : ∀ {c c'}, Q c c' → c = c' ∨ c.isJump = true ∧ c'.isJump = true

namespace Transparent

variable {V : Type} {Q : Completion V → Completion V → Prop} {c c' : Completion V}

theorem isNormal_eq (hQ : Transparent Q) (h : Q c c') : c.isNormal = c'.isNormal := by
  rcases hQ.same h with rfl | ⟨hj, hj'⟩
  · rfl
  · rw [Completion.isNormal_of_isJump hj, Completion.isNormal_of_isJump hj']

theorem thrown?_eq (hQ : Transparent Q) (h : Q c c') : c.thrown? = c'.thrown? := by
  rcases hQ.same h with rfl | ⟨hj, hj'⟩
  · rfl
  · rw [Completion.thrown?_of_isJump hj, Completion.thrown?_of_isJump hj']

theorem of_calm {Q₁ : Completion V → Completion V → Prop} (hQ : Transparent Q)
    (hQ₁ : Transparent Q₁) (hc : c.Calm) (h : Q₁ c c') : Q c c' := by
  rcases hc with rfl | ⟨v, rfl⟩
  · rcases hQ₁.same h with rfl | ⟨hj, _⟩
    · exact hQ.normal
    · cases hj
  · rcases hQ₁.same h with rfl | ⟨hj, _⟩
    · exact hQ.throw v
    · cases hj

end Transparent

namespace Run

variable {S V A : Type} {R : S → S → Prop} {Q Q₁ : Completion V → Completion V → Prop}
  {x x' y y' : Effect S (Completion V)}

theorem related_evaluating {a a' : Action S V A} {k k' : A → Effect S (Completion V)}
    {Post : Completion V → S → Completion V → S → Prop} (ha : a.Keep R a')
    (throw : ∀ v s s', R s s' → Post (.throw v) s (.throw v) s')
    (hk : ∀ v, Related R Post (k v) (k' v)) :
    Related R Post (evaluating a k) (evaluating a' k') := by
  have hrun : Related R (fun r s r' s' => r = r' ∧ R s s') a.run a'.run := ha
  refine hrun.bind fun r r' s s' hr => ?_
  obtain ⟨rfl, hs⟩ := hr
  cases r with
  | ok v => exact hk v s s' hs
  | error v => exact .some (throw v s s' hs)

theorem sim_evaluating {a a' : Action S V A} {k k' : A → Effect S (Completion V)}
    (ha : a.Keep R a') (throw : ∀ v, Q (.throw v) (.throw v))
    (hk : ∀ v, Sim R Q (k v) (k' v)) : Sim R Q (evaluating a k) (evaluating a' k') :=
  related_evaluating ha (fun v _ _ hs => ⟨throw v, hs⟩) hk

theorem calm_evaluating {a : Action S V A} {k : A → Effect S (Completion V)}
    (hk : ∀ v, Yields Completion.Calm (k v)) : Yields Completion.Calm (evaluating a k) := by
  refine (Yields.true a.run).bind fun r _ => ?_
  cases r with
  | ok v => exact hk v
  | error v => exact .pure (.inr ⟨v, rfl⟩)

theorem calm_seq (hx : Yields Completion.Calm x) (hy : Yields Completion.Calm y) :
    Yields Completion.Calm (seq x y) := by
  refine hx.bind fun c hc => ?_
  split
  · exact hy
  · exact .pure hc

theorem sim_seq (hQ : Transparent Q) (hx : Sim R Q x x') (hy : Sim R Q y y') :
    Sim R Q (seq x y) (seq x' y') := by
  refine hx.bind fun c c' hc => ?_
  rw [hQ.isNormal_eq hc]
  split
  · exact hy
  · exact .pure hc

theorem sim_labeled {label : String} (hx : Sim R Q₁ x x')
    (hl : ∀ c c', Q₁ c c' → Option.Rel Q (c.leaveLabel label) (c'.leaveLabel label)) :
    Sim R Q (labeled label x) (labeled label x') :=
  hx.bind fun c c' hc => .ofOption (hl c c' hc)

variable {f f' : Frame S V} {labels labels' : List String}

/-- A relation `Q₁` between the ends of two bodies under which their loops end in `Q`. -/
structure LoopRel (labels labels' : List String) (Q₁ Q : Completion V → Completion V → Prop) :
    Prop where
  thrown? : ∀ {c c'}, Q₁ c c' → c.thrown? = c'.thrown?
  normal : Q .normal .normal
  throw : ∀ v, Q (.throw v) (.throw v)
  goesOn : ∀ {c c'}, Q₁ c c' → c.goesOn labels = c'.goesOn labels'
  leave : ∀ {c c'}, Q₁ c c' → c.goesOn labels = false → Q c.leave c'.leave

theorem Frame.sim_checking {a a' : Action S V Bool} {k k' : Effect S (Option (Completion V))}
    (ha : a.Keep R a') (normal : Q .normal .normal) (throw : ∀ v, Q (.throw v) (.throw v))
    (hk : Sim R (Option.Rel Q) k k') :
    Sim R (Option.Rel Q) (checking a k) (checking a' k') := by
  refine Sim.bind ha ?_
  rintro r _ rfl
  match r with
  | .ok true => exact hk
  | .ok false => exact .pure (.some normal)
  | .error v => exact .pure (.some (throw v))

theorem Frame.sim_loop (henter : f.enter.Keep R f'.enter) (hagain : f.again.Keep R f'.again)
    (hclose : f.close.Keep R f'.close) (hQ : LoopRel labels labels' Q₁ Q)
    (hx : Sim R Q₁ x x') : Sim R Q (f.loop labels x) (f'.loop labels' x') := by
  refine .repeatUntil (sim_checking henter hQ.normal hQ.throw (hx.bind fun c c' hc => ?_))
  rw [← hQ.goesOn hc]
  split
  · exact sim_checking hagain hQ.normal hQ.throw (.pure .none)
  · rename_i hgo
    have hclosed : Sim R Q (f.closed c) (f'.closed c') := by
      refine Sim.map hclose ?_
      rintro r _ rfl
      cases r with
      | ok _ => exact hQ.leave hc (by simpa using hgo)
      | error v =>
        simp only [Completion.closedBy, hQ.thrown? hc]
        exact hQ.throw _
    exact hclosed.map fun _ _ => .some

/-- Clauses whose tests and bodies are related. -/
def CaseAlike (R : S → S → Prop) (Q : Completion V → Completion V → Prop) (c c' : Case S V) :
    Prop :=
  Option.Rel (Action.Keep R) c.test c'.test ∧ Sim R Q c.body c'.body

variable {cs cs' : List (Case S V)}

theorem CaseAlike.isNone_test {c c' : Case S V} (h : CaseAlike R Q c c') :
    c.test.isNone = c'.test.isNone := by
  obtain ⟨test, _⟩ := c
  obtain ⟨test', _⟩ := c'
  obtain ⟨_ | _, _⟩ := h <;> rfl

theorem keep_select (accept : V → Bool) (h : List.Forall₂ (CaseAlike R Q) cs cs') :
    (select accept cs).Keep R (select accept cs') := by
  induction h with
  | nil => exact .pure none
  | @cons c c' rest rest' hc _ ih =>
    obtain ⟨test, body⟩ := c
    obtain ⟨test', body'⟩ := c'
    obtain ⟨htest | _, _⟩ := hc
    · refine htest.bind fun v => ?_
      split
      · exact .pure _
      · exact ih.map _
    · exact ih.map _

theorem defaultIdx_congr (h : List.Forall₂ (CaseAlike R Q) cs cs') :
    defaultIdx cs = defaultIdx cs' := by
  induction h with
  | nil => rfl
  | cons hc _ ih => simp only [defaultIdx, List.findIdx_cons, hc.isNone_test] at ih ⊢; rw [ih]

theorem sim_fallThrough (hQ : Transparent Q) (h : List.Forall₂ (CaseAlike R Q) cs cs') :
    Sim R Q (fallThrough cs) (fallThrough cs') := by
  induction h with
  | nil => exact .pure hQ.normal
  | cons hc _ ih => exact sim_seq hQ hc.2 ih

theorem sim_switchOn (accept : V → Bool) (hQ₁ : Transparent Q₁)
    (throw : ∀ v, Q (.throw v) (.throw v)) (hleave : ∀ c c', Q₁ c c' → Q c.leave c'.leave)
    (h : List.Forall₂ (CaseAlike R Q₁) cs cs') :
    Sim R Q (switchOn accept cs) (switchOn accept cs') := by
  refine sim_evaluating (keep_select accept h) throw fun entry => ?_
  rw [← defaultIdx_congr h]
  exact (sim_fallThrough hQ₁ (List.forall₂_drop _ h)).map hleave

theorem sim_tryCatch (hQ : Transparent Q) (hx : Sim R Q x x')
    {h h' : Option (V → Effect S (Completion V))}
    (hh : Option.Rel (fun k k' => ∀ v, Sim R Q (k v) (k' v)) h h') :
    Sim R Q (tryCatch x h) (tryCatch x' h') := by
  cases hh with
  | none => exact hx
  | some hk =>
    refine hx.bind fun c c' hc => ?_
    rw [hQ.thrown?_eq hc]
    cases c'.thrown? with
    | none => exact .pure hc
    | some v => exact hk v

theorem sim_tryFinally (hQ : Transparent Q) (hx : Sim R Q x x') (hy : Sim R Q y y') :
    Sim R Q (tryFinally x y) (tryFinally x' y') := by
  refine hx.bind fun c c' hc => hy.bind fun d d' hd => .pure ?_
  rw [hQ.isNormal_eq hd]
  split
  · exact hc
  · exact hd

end Run

end PlainJs

import Mathlib.Data.PFun

namespace PlainJs

/-- Two partial values that are given together and are then related. -/
def Alike {α β : Type} (Q : α → β → Prop) (p : Part α) (q : Part β) : Prop :=
  (∀ a ∈ p, ∃ b ∈ q, Q a b) ∧ ∀ b ∈ q, ∃ a ∈ p, Q a b

namespace Alike

variable {α β α' β' : Type} {Q : α → β → Prop} {Q' : α' → β' → Prop} {p : Part α} {q : Part β}

theorem some {a : α} {b : β} (h : Q a b) : Alike Q (.some a) (.some b) := by
  constructor
  · intro a' ha
    exact ⟨b, Part.mem_some b, Part.mem_some_iff.mp ha ▸ h⟩
  · intro b' hb
    exact ⟨a, Part.mem_some a, Part.mem_some_iff.mp hb ▸ h⟩

theorem none : Alike Q .none .none :=
  ⟨fun _ h => absurd h (Part.notMem_none _), fun _ h => absurd h (Part.notMem_none _)⟩

theorem bind {f : α → Part α'} {g : β → Part β'} (h : Alike Q p q)
    (hf : ∀ a b, Q a b → Alike Q' (f a) (g b)) : Alike Q' (p.bind f) (q.bind g) := by
  constructor
  · intro x hx
    obtain ⟨a, ha, hxa⟩ := Part.mem_bind_iff.mp hx
    obtain ⟨b, hb, hab⟩ := h.1 a ha
    obtain ⟨y, hy, hxy⟩ := (hf a b hab).1 x hxa
    exact ⟨y, Part.mem_bind hb hy, hxy⟩
  · intro y hy
    obtain ⟨b, hb, hyb⟩ := Part.mem_bind_iff.mp hy
    obtain ⟨a, ha, hab⟩ := h.2 b hb
    obtain ⟨x, hx, hxy⟩ := (hf a b hab).2 y hyb
    exact ⟨x, Part.mem_bind ha hx, hxy⟩

theorem mono {Q₁ : α → β → Prop} (h : Alike Q p q) (hQ : ∀ a b, Q a b → Q₁ a b) :
    Alike Q₁ p q := by
  constructor
  · intro a ha
    obtain ⟨b, hb, hab⟩ := h.1 a ha
    exact ⟨b, hb, hQ a b hab⟩
  · intro b hb
    obtain ⟨a, ha, hab⟩ := h.2 b hb
    exact ⟨a, ha, hQ a b hab⟩

theorem map {f : α → α'} {g : β → β'} (h : Alike Q p q) (hf : ∀ a b, Q a b → Q' (f a) (g b)) :
    Alike Q' (p.map f) (q.map g) := by
  rw [← Part.bind_some_eq_map, ← Part.bind_some_eq_map]
  exact h.bind fun a b hab => .some (hf a b hab)

theorem refl_of {Q : α → α → Prop} {p : Part α} (h : ∀ a ∈ p, Q a a) : Alike Q p p :=
  ⟨fun a ha => ⟨a, ha, h a ha⟩, fun a ha => ⟨a, ha, h a ha⟩⟩

theorem eq {p q : Part α} (h : Alike Eq p q) : p = q := by
  apply Part.ext
  intro a
  constructor
  · intro ha
    obtain ⟨b, hb, rfl⟩ := h.1 a ha
    exact hb
  · intro hb
    obtain ⟨a, ha, rfl⟩ := h.2 a hb
    exact ha

/-- Two loops whose rounds end alike end alike. -/
theorem fix {f : α →. α' ⊕ α} {g : β →. β' ⊕ β} {R : α → β → Prop}
    (h : ∀ a b, R a b → Alike (Sum.LiftRel Q' R) (f a) (g b)) {a : α} {b : β} (hab : R a b) :
    Alike Q' (f.fix a) (g.fix b) := by
  constructor
  · intro x hx
    refine PFun.fixInduction' (C := fun a => ∀ b, R a b → ∃ y ∈ g.fix b, Q' x y) hx ?_ ?_ b hab
    · intro a hx b hab
      obtain ⟨y, hy, hxy⟩ := (h a b hab).1 _ hx
      cases hxy with
      | inl hxy => exact ⟨_, PFun.fix_stop hy, hxy⟩
    · intro a a₁ _ ha ih b hab
      obtain ⟨y, hy, hxy⟩ := (h a b hab).1 _ ha
      cases hxy with
      | inr hab₁ =>
        rw [PFun.fix_fwd_eq hy]
        exact ih _ hab₁
  · intro y hy
    refine PFun.fixInduction' (C := fun b => ∀ a, R a b → ∃ x ∈ f.fix a, Q' x y) hy ?_ ?_ a hab
    · intro b hy a hab
      obtain ⟨x, hx, hxy⟩ := (h a b hab).2 _ hy
      cases hxy with
      | inl hxy => exact ⟨_, PFun.fix_stop hx, hxy⟩
    · intro b b₁ _ hb ih a hab
      obtain ⟨x, hx, hxy⟩ := (h a b hab).2 _ hb
      cases hxy with
      | inr hab₁ =>
        rw [PFun.fix_fwd_eq hx]
        exact ih _ hab₁

end Alike

/-- A computation on a state that may run forever. -/
abbrev Effect (S : Type) := StateT S Part

namespace Effect

variable {S S' A B A' B' : Type}

/-- From states in `R` both computations end with results and states in `Q`, or neither ends. -/
def Related (R : S → S' → Prop) (Q : A → S → B → S' → Prop) (x : Effect S A) (y : Effect S' B) :
    Prop :=
  ∀ s s', R s s' → Alike (fun a b => Q a.1 a.2 b.1 b.2) (x.run s) (y.run s')

variable {R : S → S' → Prop} {Q : A → S → B → S' → Prop} {Q' : A' → S → B' → S' → Prop}
  {x : Effect S A} {y : Effect S' B}

theorem Related.pure {a : A} {b : B} (h : ∀ s s', R s s' → Q a s b s') :
    Related R Q (Pure.pure a) (Pure.pure b) :=
  fun s s' hs => .some (h s s' hs)

theorem Related.bind {f : A → Effect S A'} {g : B → Effect S' B'} (h : Related R Q x y)
    (hf : ∀ a b, Related (Q a · b ·) Q' (f a) (g b)) : Related R Q' (x >>= f) (y >>= g) :=
  fun s s' hs => (h s s' hs).bind fun a b hab => hf a.1 b.1 a.2 b.2 hab

theorem Related.mono {Q₁ : A → S → B → S' → Prop} (h : Related R Q x y)
    (hQ : ∀ a s b s', Q a s b s' → Q₁ a s b s') : Related R Q₁ x y :=
  fun s s' hs => (h s s' hs).mono fun a b hab => hQ a.1 a.2 b.1 b.2 hab

theorem Related.weaken {R₁ : S → S' → Prop} (h : Related R Q x y)
    (hR : ∀ s s', R₁ s s' → R s s') : Related R₁ Q x y :=
  fun s s' hs => h s s' (hR s s' hs)

/-- A computation without an outcome. -/
def stuck : Effect S A := fun _ => .none

theorem Related.stuck : Related R Q (stuck : Effect S A) (stuck : Effect S' B) :=
  fun _ _ _ => .none

/-- Repeats a computation until it gives a result. -/
def repeatUntil (step : Effect S (Option A)) : Effect S A := fun s =>
  PFun.fix (fun s => (step.run s).map turn) s
where
  turn : Option A × S → (A × S) ⊕ S
    | (some a, s) => .inl (a, s)
    | (none, s) => .inr s

/-- How the ends of two rounds of loops are related. -/
def RoundRel (R : S → S' → Prop) (Q : A → S → B → S' → Prop) :
    Option A → S → Option B → S' → Prop
  | none, s, none, s' => R s s'
  | some a, s, some b, s' => Q a s b s'
  | _, _, _, _ => False

theorem Related.repeatUntil {x : Effect S (Option A)} {y : Effect S' (Option B)}
    (h : Related R (RoundRel R Q) x y) : Related R Q (repeatUntil x) (repeatUntil y) := by
  intro s s' hs
  refine Alike.fix (R := R) (fun s s' hs => (h s s' hs).map ?_) hs
  rintro ⟨_ | a, t⟩ ⟨_ | b, t'⟩ hab
  · exact .inr hab
  · exact hab.elim
  · exact hab.elim
  · exact .inl hab

/-- A loop whose first round ends it. -/
theorem repeatUntil_of_some {step : Effect S (Option A)} {a : A} {s t : S}
    (h : step.run s = .some (Option.some a, t)) : (repeatUntil step).run s = .some (a, t) := by
  refine Part.eq_some_iff.mpr (PFun.fix_stop ?_)
  rw [h]
  exact Part.mem_map _ (Part.mem_some _)

end Effect

end PlainJs

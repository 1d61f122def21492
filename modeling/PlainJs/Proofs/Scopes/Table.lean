import PlainJs.Scope.Basic

namespace PlainJs

/-- The same scope with more bindings. -/
structure Scope.Extends (s s' : Scope) : Prop where
  kind : s'.kind = s.kind
  span : s'.span = s.span
  parent : s'.parent = s.parent
  bindings : s.bindings ⊆ s'.bindings

theorem Scope.Extends.refl (s : Scope) : s.Extends s := ⟨rfl, rfl, rfl, List.Subset.refl _⟩

namespace ScopeTable

variable {t t' T : ScopeTable} {i j h p : Nat} {x : String} {r : Span}

/-- The scopes of a table stay where they are; they may get more bindings, and there may be more
scopes. -/
def Grows (t t' : ScopeTable) : Prop :=
  ∀ (i : Nat) (s : Scope), t.scopes[i]? = some s → ∃ s', t'.scopes[i]? = some s' ∧ s.Extends s'

namespace Grows

theorem of_scopes (h : t'.scopes = t.scopes) : Grows t t' :=
  fun _ s hs => ⟨s, h ▸ hs, .refl s⟩

theorem refl (t : ScopeTable) : Grows t t := of_scopes rfl

theorem trans {t'' : ScopeTable} (h : Grows t t') (h' : Grows t' t'') : Grows t t'' := by
  intro i s hs
  obtain ⟨s₁, hs₁, hext⟩ := h i s hs
  obtain ⟨s₂, hs₂, hext'⟩ := h' i s₁ hs₁
  exact ⟨s₂, hs₂, hext'.kind.trans hext.kind, hext'.span.trans hext.span,
    hext'.parent.trans hext.parent, List.Subset.trans hext.bindings hext'.bindings⟩

theorem length_le (h : Grows t t') : t.scopes.length ≤ t'.scopes.length := by
  refine Nat.le_of_not_lt fun hlast => ?_
  obtain ⟨s', hs', -⟩ := h _ _ (List.getElem?_eq_getElem hlast)
  simp at hs'

theorem push (t : ScopeTable) (s : Scope) : Grows t (t.push s) := by
  intro i s' hs'
  have hi := (List.getElem?_eq_some_iff.mp hs').1
  exact ⟨s', (List.getElem?_append_left hi).trans hs', .refl s'⟩

theorem declare (t : ScopeTable) (id : Nat) (b : Binding) : Grows t (t.declare id b) := by
  intro i s hs
  rw [ScopeTable.declare, List.getElem?_modify, hs]
  by_cases hid : id = i
  · exact ⟨{ s with bindings := s.bindings ++ [b] }, by simp [hid], rfl, rfl, rfl,
      List.subset_append_left _ _⟩
  · exact ⟨s, by simp [hid], .refl s⟩

/-- A scope of the grown table that has been there before. -/
theorem before {s' : Scope} (h : Grows t t') (hi : i < t.scopes.length)
    (hs' : t'.scopes[i]? = some s') : ∃ s, t.scopes[i]? = some s ∧ s.Extends s' := by
  obtain ⟨s₁, hs₁, hext⟩ := h i _ (List.getElem?_eq_getElem hi)
  obtain rfl := Option.some.inj (hs₁.symm.trans hs')
  exact ⟨_, List.getElem?_eq_getElem hi, hext⟩

end Grows

/-- The name is bound in the scope. -/
def Binds (t : ScopeTable) (i : Nat) (x : String) : Prop :=
  ∃ s, t.scopes[i]? = some s ∧ ∃ b ∈ s.bindings, b.name = x

theorem Binds.mono (h : Binds t i x) (hg : Grows t t') : Binds t' i x := by
  obtain ⟨s, hs, b, hb, hx⟩ := h
  obtain ⟨s', hs', hext⟩ := hg i s hs
  exact ⟨s', hs', b, hext.bindings hb, hx⟩

theorem binds_declare {b : Binding} (hi : i < t.scopes.length) :
    Binds (t.declare i b) i b.name := by
  let s := t.scopes[i]
  refine ⟨{ s with bindings := s.bindings ++ [b] }, ?_, b, by simp, rfl⟩
  rw [declare, List.getElem?_modify, List.getElem?_eq_getElem hi]
  simp [s]

/-- The second scope is the one right around the first. -/
def HasParent (t : ScopeTable) (i p : Nat) : Prop :=
  ∃ s, t.scopes[i]? = some s ∧ s.parent = some p

theorem HasParent.mono (h : HasParent t i p) (hg : Grows t t') : HasParent t' i p := by
  obtain ⟨s, hs, hp⟩ := h
  obtain ⟨s', hs', hext⟩ := hg i s hs
  exact ⟨s', hs', hext.parent.trans hp⟩

theorem HasParent.unique {q : Nat} (hp : HasParent t i p) (hq : HasParent t i q) : p = q := by
  obtain ⟨s, hs, hp⟩ := hp
  obtain ⟨s', hs', hq⟩ := hq
  obtain rfl := Option.some.inj (hs.symm.trans hs')
  exact Option.some.inj (hp.symm.trans hq)

/-- The scope `i` is `h` or lies in it. -/
inductive Within (t : ScopeTable) (h : Nat) : Nat → Prop
  | refl : Within t h h
  | up {i p : Nat} : HasParent t i p → Within t h p → Within t h i

theorem Within.mono (hi : Within t h i) (hg : Grows t t') : Within t' h i := by
  induction hi with
  | refl => exact .refl
  | up hp _ ih => exact .up (hp.mono hg) ih

/-- Scopes each of which lies directly in `h` or in one before it among them. -/
theorem within_of_parents {m m' : Nat} (hparent : ∀ i, m ≤ i → i < m' →
    ∃ p, HasParent t i p ∧ p < i ∧ (p = h ∨ m ≤ p)) (hi : m ≤ i) (hi' : i < m') : Within t h i := by
  induction i using Nat.strongRecOn with
  | ind i ih =>
    obtain ⟨p, hp, hlt, rfl | hle⟩ := hparent i hi hi'
    · exact .up hp .refl
    · exact .up hp (ih p hlt hle (by omega))

/-- The name is bound in the scope or in one around it. -/
inductive Sees (t : ScopeTable) : Nat → String → Prop
  | here {i : Nat} {x : String} : Binds t i x → Sees t i x
  | up {i p : Nat} {x : String} : HasParent t i p → Sees t p x → Sees t i x

theorem Within.sees (hi : Within t h i) (hx : Sees t h x) : Sees t i x := by
  induction hi with
  | refl => exact hx
  | up hp _ ih => exact .up hp ih

/-- Every scope stands behind the scope around it. -/
def IsOrdered (t : ScopeTable) : Prop := ∀ i p, HasParent t i p → p < i

theorem Sees.mem_visibleBindings (ht : IsOrdered t) (hx : Sees t i x) :
    ∃ b ∈ t.visibleBindings i, b.name = x := by
  have key (fuel : Nat) (hfuel : i < fuel) :
      ∃ b ∈ (t.outward fuel i).flatMap (·.bindings), b.name = x := by
    induction hx generalizing fuel with
    | here hbinds =>
      obtain ⟨s, hs, b, hb, hx⟩ := hbinds
      obtain ⟨fuel, rfl⟩ := Nat.exists_eq_add_one_of_ne_zero (Nat.ne_zero_of_lt hfuel)
      refine ⟨b, ?_, hx⟩
      simp [outward, hs, hb]
    | @up i p x hparent _ ih =>
      have hlt := ht i p hparent
      obtain ⟨s, hs, hp⟩ := hparent
      obtain ⟨fuel, rfl⟩ := Nat.exists_eq_add_one_of_ne_zero (Nat.ne_zero_of_lt hfuel)
      obtain ⟨b, hb, hx⟩ := ih fuel (by omega)
      refine ⟨b, ?_, hx⟩
      simp only [outward, hs, hp, List.flatMap_cons]
      exact List.mem_append_right _ hb
  exact key (i + 1) (Nat.lt_succ_self i)

/-- The scope is one of source text around the range. -/
def Encloses (t : ScopeTable) (i : Nat) (r : Span) : Prop :=
  i ≠ 0 ∧ ∃ s, t.scopes[i]? = some s ∧ s.span.isDummy = false ∧ s.span.contains r = true

/-- The scope that is looked up is the last one that encloses the range. -/
theorem scopeAt_spec (hr : r.isDummy = false) :
    (t.scopeAt r = 0 ∧ ∀ i, ¬Encloses t i r) ∨
      (Encloses t (t.scopeAt r) r ∧ ∀ i, Encloses t i r → i ≤ t.scopeAt r) := by
  let encloses (p : Scope × Nat) : Bool :=
    p.2 != 0 && !p.1.span.isDummy && p.1.span.contains r
  have hmem {i : Nat} (h : Encloses t i r) :
      ∃ s, (s, i) ∈ t.scopes.zipIdx.reverse ∧ encloses (s, i) = true := by
    obtain ⟨hne, s, hs, hdummy, hcontains⟩ := h
    refine ⟨s, List.mem_reverse.mpr (List.mem_zipIdx_iff_getElem?.mpr hs), ?_⟩
    simp [encloses, hne, hdummy, hcontains]
  rw [scopeAt, if_neg (by simp [hr])]
  dsimp only
  split
  next s j hfind =>
    right
    change t.scopes.zipIdx.reverse.find? encloses = some (s, j) at hfind
    obtain ⟨hj, before, behind, hsplit, hbefore⟩ := List.find?_eq_some_iff_append.mp hfind
    have hs : t.scopes[j]? = some s := by
      have hmem : (s, j) ∈ t.scopes.zipIdx.reverse := by
        rw [hsplit]
        exact List.mem_append_right _ (List.mem_cons_self ..)
      exact List.mem_zipIdx_iff_getElem?.mp (List.mem_reverse.mp hmem)
    refine ⟨?_, fun i hi => ?_⟩
    · simp only [encloses, Bool.and_eq_true, bne_iff_ne, ne_eq, Bool.not_eq_true'] at hj
      exact ⟨hj.1.1, s, hs, hj.1.2, hj.2⟩
    · obtain ⟨s', hs', henc⟩ := hmem hi
      -- behind the first hit the indices only get smaller
      have hsorted : t.scopes.zipIdx.reverse.Pairwise fun a b => b.2 < a.2 := by
        rw [List.pairwise_reverse, ← List.pairwise_map (f := Prod.snd) (R := (· < ·)),
          List.zipIdx_map_snd]
        exact List.pairwise_lt_range'
      rw [hsplit] at hsorted hs'
      rcases List.mem_append.mp hs' with hs' | hs'
      · have := hbefore _ hs'
        simp [henc] at this
      · rcases List.mem_cons.mp hs' with heq | hs'
        · exact Nat.le_of_eq (congrArg Prod.snd heq)
        · exact Nat.le_of_lt ((List.pairwise_cons.mp (List.pairwise_append.mp hsorted).2.1).1 _ hs')
  next hfind =>
    left
    refine ⟨rfl, fun i hi => ?_⟩
    obtain ⟨s, hs, henc⟩ := hmem hi
    exact List.find?_eq_none.mp hfind _ hs henc

/-- A range is looked up in a scope around it, or inside that, if no other scope encloses it. -/
theorem within_scopeAt (hr : r.isDummy = false) (hh : h = 0 ∨ Encloses t h r)
    (hother : ∀ i, h < i → Encloses t i r → Within t h i) : Within t h (t.scopeAt r) := by
  rcases scopeAt_spec (t := t) hr with ⟨hzero, hnone⟩ | ⟨hfound, hlast⟩
  · rcases hh with rfl | hh
    · rw [hzero]
      exact .refl
    · exact absurd hh (hnone h)
  · have hle : h ≤ t.scopeAt r := hh.elim (fun hh => hh ▸ Nat.zero_le _) (hlast h)
    rcases Nat.eq_or_lt_of_le hle with heq | hlt
    · rw [← heq]
      exact .refl
    · exact hother _ hlt hfound

end ScopeTable

end PlainJs

import PlainJs.Proofs.Scopes.Analysis

namespace PlainJs

namespace ScopeTable

variable {t t' : ScopeTable} {i j q : Nat} {x : String} {r r' : Span}

/-- The source range of a scope. -/
def HasSpan (t : ScopeTable) (i : Nat) (r : Span) : Prop :=
  ∃ s, t.scopes[i]? = some s ∧ s.span = r

theorem HasSpan.mono (hr : HasSpan t i r) (hg : Grows t t') : HasSpan t' i r := by
  obtain ⟨s, hs, hr⟩ := hr
  obtain ⟨s', hs', hext⟩ := hg i s hs
  exact ⟨s', hs', hext.span.trans hr⟩

theorem HasSpan.before (hr : HasSpan t' i r) (hg : Grows t t') (hi : i < t.scopes.length) :
    HasSpan t i r := by
  obtain ⟨s', hs', hr⟩ := hr
  obtain ⟨s, hs, hext⟩ := hg.before hi hs'
  exact ⟨s, hs, hext.span.symm.trans hr⟩

theorem HasSpan.unique (hr : HasSpan t i r) (hr' : HasSpan t i r') : r = r' := by
  obtain ⟨s, hs, rfl⟩ := hr
  obtain ⟨s', hs', rfl⟩ := hr'
  exact congrArg Scope.span (Option.some.inj (hs.symm.trans hs'))

theorem HasSpan.lt (hr : HasSpan t i r) : i < t.scopes.length := by
  obtain ⟨s, hs, -⟩ := hr
  exact (List.getElem?_eq_some_iff.mp hs).1

theorem exists_hasSpan (hi : i < t.scopes.length) : ∃ r, HasSpan t i r :=
  ⟨_, _, List.getElem?_eq_getElem hi, rfl⟩

theorem HasParent.before (hq : HasParent t' i q) (hg : Grows t t') (hi : i < t.scopes.length) :
    HasParent t i q := by
  obtain ⟨s', hs', hq⟩ := hq
  obtain ⟨s, hs, hext⟩ := hg.before hi hs'
  exact ⟨s, hs, hext.parent.symm.trans hq⟩

/-- The scopes but the outermost one lie in earlier scopes, their ranges hold those of the scopes in them,
and are apart from all others. -/
structure IsNested (t : ScopeTable) : Prop where
  outermost : ∀ q, ¬HasParent t 0 q
  parent : ∀ i, 0 < i → i < t.scopes.length → ∃ q < i, HasParent t i q
  source : ∀ i r, 0 < i → HasSpan t i r → r.isDummy = false
  contains : ∀ i q r r', 0 < q → HasParent t i q → HasSpan t i r → HasSpan t q r' →
    r'.contains r = true
  apart : ∀ i j r r', 0 < i → i < j → HasSpan t i r → HasSpan t j r' →
    Within t i j ∨ r.apart r' = true

namespace IsNested

theorem isOrdered (ht : IsNested t) : IsOrdered t := by
  intro i q hq
  rcases Nat.eq_zero_or_pos i with rfl | hi
  · exact absurd hq (ht.outermost q)
  · have ⟨s, hs, _⟩ := hq
    obtain ⟨q', hlt, hq'⟩ := ht.parent i hi (List.getElem?_eq_some_iff.mp hs).1
    rwa [← hq'.unique hq]

theorem encloses_iff (ht : IsNested t) : Encloses t i r ↔ i ≠ 0 ∧ ∃ r', HasSpan t i r' ∧ r'.contains r = true := by
  constructor
  · rintro ⟨hi, s, hs, -, hcontains⟩
    exact ⟨hi, _, ⟨s, hs, rfl⟩, hcontains⟩
  · rintro ⟨hi, _, ⟨s, hs, rfl⟩, hcontains⟩
    exact ⟨hi, s, hs, ht.source i _ (Nat.pos_of_ne_zero hi) ⟨s, hs, rfl⟩, hcontains⟩

theorem eq_zero_of_within (ht : IsNested t) (hi : Within t i 0) : i = 0 := by
  cases hi with
  | refl => rfl
  | up hq _ => exact absurd hq (ht.outermost _)

/-- A range in a scope is in all scopes around it. -/
theorem encloses_of_within (ht : IsNested t) (hi : i ≠ 0) (hw : Within t i j) (hj : Encloses t j r) :
    Encloses t i r := by
  induction hw with
  | refl => exact hj
  | @up j q hq hw ih =>
    have hne : q ≠ 0 := fun h => hi (ht.eq_zero_of_within (h ▸ hw))
    obtain ⟨-, rj, hrj, hcontains⟩ := ht.encloses_iff.mp hj
    obtain ⟨rq, hrq⟩ := exists_hasSpan (Nat.lt_trans (ht.isOrdered j q hq) hrj.lt)
    refine ih (ht.encloses_iff.mpr ⟨hne, rq, hrq, ?_⟩)
    exact Span.contains_trans (ht.contains j q rj rq (Nat.pos_of_ne_zero hne) hq hrj hrq) hcontains

/-- The scopes that enclose a range are the one that is looked up and those around it. -/
theorem encloses_iff_within (ht : IsNested t) (hr : r.isDummy = false) (hlo : r.lo < r.hi)
    (hi : i ≠ 0) : Encloses t i r ↔ Within t i (t.scopeAt r) := by
  rcases scopeAt_spec (t := t) hr with ⟨hzero, hnone⟩ | ⟨hfound, hlast⟩
  · rw [hzero]
    exact ⟨fun henc => absurd henc (hnone i), fun hw => absurd (ht.eq_zero_of_within hw) hi⟩
  refine ⟨fun henc => ?_, fun hw => ht.encloses_of_within hi hw hfound⟩
  rcases Nat.eq_or_lt_of_le (hlast i henc) with heq | hlt
  · rw [← heq]
    exact .refl
  obtain ⟨-, ri, hri, hcontains⟩ := ht.encloses_iff.mp henc
  obtain ⟨-, rj, hrj, hcontains'⟩ := ht.encloses_iff.mp hfound
  -- two ranges that hold the same range are not apart
  refine (ht.apart i _ ri rj (Nat.pos_of_ne_zero hi) hlt hri hrj).resolve_right fun hapart => ?_
  simp only [Span.apart, Span.contains, Bool.or_eq_true, Bool.and_eq_true, decide_eq_true_eq] at *
  omega

theorem within_zero (ht : IsNested t) (hr : r.isDummy = false) : Within t 0 (t.scopeAt r) := by
  rcases scopeAt_spec (t := t) hr with ⟨hzero, -⟩ | ⟨hfound, -⟩
  · rw [hzero]
    exact .refl
  obtain ⟨hne, r', hr', -⟩ := ht.encloses_iff.mp hfound
  refine within_of_parents (m := 1) (fun i hi hi' => ?_) (Nat.pos_of_ne_zero hne) hr'.lt
  obtain ⟨q, hlt, hq⟩ := ht.parent i hi hi'
  exact ⟨q, hq, hlt, by omega⟩

end IsNested

theorem sees_iff : Sees t j x ↔ ∃ i, Within t i j ∧ Binds t i x := by
  constructor
  · intro hx
    induction hx with
    | here hb => exact ⟨_, .refl, hb⟩
    | up hp _ ih =>
      obtain ⟨i, hw, hb⟩ := ih
      exact ⟨i, .up hp hw, hb⟩
  · rintro ⟨i, hw, hb⟩
    exact hw.sees (.here hb)

theorem sees_of_mem_outward {fuel : Nat} {s : Scope} {b : Binding} (hs : s ∈ t.outward fuel i)
    (hb : b ∈ s.bindings) : Sees t i b.name := by
  induction fuel generalizing i with
  | zero => cases hs
  | succ fuel ih =>
    rw [outward] at hs
    split at hs
    next => cases hs
    next s₀ hs₀ =>
      rcases List.mem_cons.mp hs with rfl | hs
      · exact .here ⟨s, hs₀, b, hb, rfl⟩
      · split at hs
        next => cases hs
        next q hq => exact .up ⟨s₀, hs₀, hq⟩ (ih hs)

theorem isBoundAt_iff (ht : IsOrdered t) : t.isBoundAt x r = true ↔ Sees t (t.scopeAt r) x := by
  rw [isBoundAt, List.any_eq_true]
  constructor
  · rintro ⟨b, hb, hx⟩
    obtain ⟨s, hs, hb⟩ := List.mem_flatMap.mp hb
    exact beq_iff_eq.mp hx ▸ sees_of_mem_outward hs hb
  · intro hx
    obtain ⟨b, hb, hx⟩ := hx.mem_visibleBindings ht
    exact ⟨b, hb, beq_iff_eq.mpr hx⟩

end ScopeTable

namespace Node

variable {c d : Cat} {n : Node c} {k : Node d}

/-- The source ranges of the scopes in a tree, where the analysis looks. -/
def extents {c : Cat} (n : Node c) : List Span :=
  n.opening.toList.map (·.span) ++ n.ahead.attach.flatMap (fun ⟨⟨_, k⟩, _⟩ => k.extents) ++
    n.inside.attach.flatMap fun ⟨⟨_, k⟩, _⟩ => k.extents
termination_by sizeOf n
decreasing_by
  · exact sizeOf_lt_of_mem_children (mem_children_of_mem_outside (n.ahead_sublist.subset ‹_›))
  · exact sizeOf_lt_of_mem_inside ‹_›

def extentsOf (l : List (Sigma Node)) : List Span := l.flatMap fun k => k.2.extents

theorem extents_eq (n : Node c) : n.extents =
    n.opening.toList.map (·.span) ++ extentsOf n.ahead ++ extentsOf n.inside := by
  rw [extents]
  simp [extentsOf, List.flatMap]

/-- Whether the ranges of scopes are apart if they are those of different parts. -/
def areApart (l : List (Sigma Node)) : Bool :=
  decide (l.Pairwise fun a b => ∀ r ∈ a.2.extents, ∀ r' ∈ b.2.extents, r.apart r' = true)

/-- Whether every scope in a tree has a range of source text, which holds the ranges of the scopes in it
and is apart from those of the scopes beside it. Nothing is asked of what the analysis passes over. -/
def hasNestedScopes {c : Cat} (n : Node c) : Bool :=
  n.opening.all (fun o => !o.span.isDummy && (extentsOf n.inside).all o.span.contains &&
    (extentsOf n.ahead).all o.span.apart) &&
  areApart n.ahead && areApart n.inside &&
  n.ahead.attach.all (fun ⟨⟨_, k⟩, _⟩ => k.hasNestedScopes) &&
  n.inside.attach.all fun ⟨⟨_, k⟩, _⟩ => k.hasNestedScopes
termination_by sizeOf n
decreasing_by
  · exact sizeOf_lt_of_mem_children (mem_children_of_mem_outside (n.ahead_sublist.subset ‹_›))
  · exact sizeOf_lt_of_mem_inside ‹_›

/-- Parts with scopes that nest, and that are apart from those of the other parts. -/
structure NestedParts (l : List (Sigma Node)) : Prop where
  apart : l.Pairwise fun a b => ∀ r ∈ a.2.extents, ∀ r' ∈ b.2.extents, r.apart r' = true
  parts : ∀ k ∈ l, k.2.hasNestedScopes = true

theorem nestedParts_iff {l : List (Sigma Node)} : NestedParts l ↔
    areApart l = true ∧ (l.attach.all fun ⟨⟨_, k⟩, _⟩ => k.hasNestedScopes) = true := by
  rw [areApart, decide_eq_true_eq, List.all_eq_true]
  constructor
  · rintro ⟨hapart, hparts⟩
    exact ⟨hapart, fun k _ => hparts k.1 k.2⟩
  · rintro ⟨hapart, hparts⟩
    exact ⟨hapart, fun k hk => hparts ⟨k, hk⟩ (List.mem_attach _ _)⟩

theorem hasNestedScopes_iff : n.hasNestedScopes = true ↔
    (∀ o, n.opening = .some o → o.span.isDummy = false ∧
      (∀ r ∈ extentsOf n.inside, o.span.contains r = true) ∧
      ∀ r ∈ extentsOf n.ahead, o.span.apart r = true) ∧
    NestedParts n.ahead ∧ NestedParts n.inside := by
  rw [hasNestedScopes, nestedParts_iff, nestedParts_iff]
  simp only [Bool.and_eq_true, Option.all_eq_true, Bool.not_eq_true', List.all_eq_true, and_assoc]
  tauto

theorem isDummy_of_mem_extents {r : Span} (hn : n.hasNestedScopes = true) (hr : r ∈ n.extents) :
    r.isDummy = false := by
  induction n using scopeInduction with
  | step n ihout ihin =>
    obtain ⟨hown, hahead, hin⟩ := hasNestedScopes_iff.mp hn
    rw [extents_eq, List.mem_append, List.mem_append] at hr
    rcases hr with (hr | hr) | hr
    · obtain ⟨o, ho, rfl⟩ := List.mem_map.mp hr
      exact (hown o (Option.mem_toList.mp ho)).1
    · obtain ⟨k, hk, hr⟩ := List.mem_flatMap.mp hr
      exact ihout (n.ahead_sublist.subset hk) (hahead.parts k hk) hr
    · obtain ⟨k, hk, hr⟩ := List.mem_flatMap.mp hr
      exact ihin hk (hin.parts k hk) hr

/-- The scopes of a tree in the order in which they are opened. -/
def openings {c : Cat} (n : Node c) : List Opening :=
  n.ahead.attach.flatMap (fun ⟨⟨_, k⟩, _⟩ => k.openings) ++ n.opening.toList ++
    n.inside.attach.flatMap fun ⟨⟨_, k⟩, _⟩ => k.openings
termination_by sizeOf n
decreasing_by
  · exact sizeOf_lt_of_mem_children (mem_children_of_mem_outside (n.ahead_sublist.subset ‹_›))
  · exact sizeOf_lt_of_mem_inside ‹_›

theorem openings_eq (n : Node c) : n.openings = n.ahead.flatMap (fun k => k.2.openings) ++
    n.opening.toList ++ n.inside.flatMap fun k => k.2.openings := by
  rw [openings]
  simp [List.flatMap]

end Node

namespace ScopeTable

open Node

variable {t t' t'' : ScopeTable} {stack : List Nat} {c : Cat} {n : Node c} {E E' : List Span}

/-- Scopes have been added inside the innermost open one. Their ranges are among the given ones and nest
as the scopes do. -/
structure Nests (stack : List Nat) (E : List Span) (t t' : ScopeTable) : Prop where
  grows : Grows t t'
  parent : ∀ i, t.scopes.length ≤ i → i < t'.scopes.length →
    ∃ q, HasParent t' i q ∧ q < i ∧ (q = stack.headD 0 ∨ t.scopes.length ≤ q)
  span : ∀ i r, t.scopes.length ≤ i → HasSpan t' i r → r ∈ E
  contains : ∀ i q r r', t.scopes.length ≤ i → t.scopes.length ≤ q → HasParent t' i q →
    HasSpan t' i r → HasSpan t' q r' → r'.contains r = true
  apart : ∀ i j r r', t.scopes.length ≤ i → i < j → HasSpan t' i r → HasSpan t' j r' →
    Within t' i j ∨ r.apart r' = true

namespace Nests

theorem of_length (hg : Grows t t') (hlength : t'.scopes.length = t.scopes.length) :
    Nests stack [] t t' where
  grows := hg
  parent i hi hi' := by omega
  span i r hi hr := by
    have := hr.lt
    omega
  contains i q r r' hi hq hp hr hr' := by
    have := hr.lt
    omega
  apart i j r r' hi hj hr hr' := by
    have := hr.lt
    omega

theorem mono (h : Nests stack E t t') (hE : E ⊆ E') : Nests stack E' t t' :=
  { h with span := fun i r hi hr => hE (h.span i r hi hr) }

theorem append (h : Nests stack E t t') (h' : Nests stack E' t' t'') (hstack : Stacked t stack)
    (hapart : ∀ r ∈ E, ∀ r' ∈ E', r.apart r' = true) : Nests stack (E ++ E') t t'' := by
  have hlen := h.grows.length_le
  have hhead := hstack.head_lt
  refine ⟨h.grows.trans h'.grows, fun i hi hi' => ?_, fun i r hi hr => ?_,
    fun i q r r' hi hq hp hr hr' => ?_, fun i j r r' hi hij hr hr' => ?_⟩
  · rcases Nat.lt_or_ge i t'.scopes.length with hlt | hge
    · obtain ⟨q, hq, hqi⟩ := h.parent i hi hlt
      exact ⟨q, hq.mono h'.grows, hqi⟩
    · obtain ⟨q, hq, hqi, hq'⟩ := h'.parent i hge hi'
      exact ⟨q, hq, hqi, hq'.imp_right fun hq' => Nat.le_trans hlen hq'⟩
  · rcases Nat.lt_or_ge i t'.scopes.length with hlt | hge
    · exact List.mem_append_left _ (h.span i r hi (hr.before h'.grows hlt))
    · exact List.mem_append_right _ (h'.span i r hge hr)
  · rcases Nat.lt_or_ge i t'.scopes.length with hlt | hge
    · obtain ⟨q', hq', hqi, -⟩ := h.parent i hi hlt
      obtain rfl := (hq'.mono h'.grows).unique hp
      exact h.contains i q' r r' hi hq hq' (hr.before h'.grows hlt)
        (hr'.before h'.grows (Nat.lt_trans hqi hlt))
    · obtain ⟨q', hq', hqi, hlater⟩ := h'.parent i hge hr.lt
      obtain rfl := hq'.unique hp
      exact h'.contains i q' r r' hge (by omega) hp hr hr'
  · rcases Nat.lt_or_ge j t'.scopes.length with hlt | hge
    · refine (h.apart i j r r' hi hij (hr.before h'.grows (Nat.lt_trans hij hlt))
        (hr'.before h'.grows hlt)).imp_left fun hw => hw.mono h'.grows
    · rcases Nat.lt_or_ge i t'.scopes.length with hlt' | hge'
      · exact .inr (hapart r (h.span i r hi (hr.before h'.grows hlt')) r' (h'.span j r' hge hr'))
      · exact h'.apart i j r r' hge' hij hr hr'

/-- A scope has been opened and closed. -/
theorem opened {o : Opening} (henter : Entered stack o t t')
    (h : Nests (t.scopes.length :: stack) E t' t'') (hstack : Stacked t stack)
    (hcontains : ∀ r ∈ E, o.span.contains r = true) : Nests stack (o.span :: E) t t'' := by
  have hlength := henter.length
  have hhead := hstack.head_lt
  obtain ⟨s, hs, -, hspan, hparent⟩ := henter.scope
  have hself : HasSpan t'' t.scopes.length o.span := HasSpan.mono ⟨s, hs, hspan⟩ h.grows
  have hup : HasParent t'' t.scopes.length (stack.headD 0) := HasParent.mono ⟨s, hs, hparent⟩ h.grows
  -- a scope that is not the opened one lies in it
  have hinner {i : Nat} (hi : t.scopes.length ≤ i) (hne : i ≠ t.scopes.length) :
      t'.scopes.length ≤ i := by omega
  refine ⟨henter.grows.trans h.grows, fun i hi hi' => ?_, fun i r hi hr => ?_,
    fun i q r r' hi hq hp hr hr' => ?_, fun i j r r' hi hij hr hr' => ?_⟩
  · by_cases hne : i = t.scopes.length
    · subst hne
      exact ⟨_, hup, hhead, .inl rfl⟩
    · obtain ⟨q, hq, hqi, hq'⟩ := h.parent i (hinner hi hne) hi'
      refine ⟨q, hq, hqi, .inr ?_⟩
      change q = t.scopes.length ∨ _ at hq'
      omega
  · by_cases hne : i = t.scopes.length
    · subst hne
      rw [hr.unique hself]
      exact .head _
    · exact .tail _ (h.span i r (hinner hi hne) hr)
  · by_cases hne : i = t.scopes.length
    · subst hne
      have := hp.unique hup
      omega
    · obtain ⟨q', hq', -, hlater⟩ := h.parent i (hinner hi hne) hr.lt
      obtain rfl := hq'.unique hp
      rcases hlater with heq | hlater
      · change q' = t.scopes.length at heq
        subst heq
        rw [hr'.unique hself]
        exact hcontains r (h.span i r (hinner hi hne) hr)
      · exact h.contains i q' r r' (hinner hi hne) hlater hp hr hr'
  · by_cases hne : i = t.scopes.length
    · subst hne
      exact .inl (within_of_parents h.parent (hinner (Nat.le_of_lt hij) (Nat.ne_of_gt hij)) hr'.lt)
    · exact h.apart i j r r' (hinner hi hne) hij hr hr'

end Nests

theorem nests_visit {l : List (Sigma Node)} (hl : NestedParts l)
    (h : ∀ k ∈ l, ∀ {stack : List Nat} {t : ScopeTable}, Stacked t stack →
      Nests stack k.2.extents t ((collect stack k.2).run t).2) (hstack : Stacked t stack) :
    Nests stack (extentsOf l) t ((visit stack l).run t).2 := by
  induction l generalizing t with
  | nil => exact .of_length (.refl t) rfl
  | cons k l ih =>
    have hk := h k (.head _) hstack
    obtain ⟨hhead, htail⟩ := List.pairwise_cons.mp hl.apart
    have hrest := ih ⟨htail, fun k hk => hl.parts k (.tail _ hk)⟩ (fun k hk => h k (.tail _ hk))
      (hstack.mono hk.grows)
    refine hk.append hrest hstack fun r hr r' hr' => ?_
    obtain ⟨b, hb, hr'⟩ := List.mem_flatMap.mp hr'
    exact hhead b hb r hr r' hr'

/-- The scopes that the analysis records for a tree nest. -/
theorem nests_collect (n : Node c) (hn : n.hasNestedScopes = true) (hstack : Stacked t stack) :
    Nests stack n.extents t ((collect stack n).run t).2 := by
  induction n using scopeInduction generalizing stack t with
  | step n ihout ihin =>
    obtain ⟨hown, hparts, hin⟩ := hasNestedScopes_iff.mp hn
    have hahead {stack : List Nat} {t : ScopeTable} (hstack : Stacked t stack) :
        Nests stack (extentsOf n.ahead) t ((visit stack n.ahead).run t).2 :=
      nests_visit hparts (fun k hk {_ _} hstack =>
        ihout (n.ahead_sublist.subset hk) (hparts.parts k hk) hstack) hstack
    rw [extents_eq]
    cases ho : n.opening with
    | none =>
      obtain ⟨hgrows, hlength, -⟩ := bindOwn_spec hstack n
      have hscopes := scopes_noteOwn stack n t
      have hnoted : Nests stack [] t ((noteOwn stack n).run t).2 :=
        .of_length (hgrows.trans (.of_scopes hscopes)) ((congrArg List.length hscopes).trans hlength)
      rw [collect_other stack ho]
      refine (hnoted.append (hahead (hstack.mono hnoted.grows)) hstack (List.forall_mem_nil _)).mono ?_
      exact fun r hr => List.mem_append_left _ hr
    | some o =>
      obtain ⟨hdummy, hcontains, hbeside⟩ := hown o ho
      have houter := hahead hstack
      obtain ⟨hfst, henter⟩ := run_enter stack o ((visit stack n.ahead).run t).2
      have hinner := nests_visit hin (fun k hk {_ _} hstack => ihin hk (hin.parts k hk) hstack)
        (henter.stacked (hstack.mono houter.grows))
      have hscope := Nests.opened henter hinner (hstack.mono houter.grows) hcontains
      have hall := houter.append hscope hstack fun r hr r' hr' => ?_
      · rw [collect_opening ho]
        refine hall.mono ?_
        intro r hr
        simp only [Option.toList_some, List.map_cons, List.map_nil, List.mem_append, List.mem_cons] at hr ⊢
        rcases hr with hr | rfl | hr
        · exact .inl (.inr hr)
        · exact .inl (.inl (.inl rfl))
        · exact .inr hr
      · have hself := hbeside r hr
        rcases List.mem_cons.mp hr' with rfl | hr'
        · rw [Span.apart_comm]
          exact hself
        · have := hcontains r' hr'
          simp only [Span.apart, Span.contains, Bool.or_eq_true, Bool.and_eq_true,
            decide_eq_true_eq] at *
          omega

/-- The kinds and ranges of the scopes of a table. -/
def outline (t : ScopeTable) : List (ScopeKind × Span) := t.scopes.map fun s => (s.kind, s.span)

theorem outline_bindAll (i : Nat) (kind : BindingKind) (ids : List Ident) (t : ScopeTable) :
    outline ((bindAll i kind ids).run t).2 = outline t := by
  induction ids generalizing t with
  | nil => rfl
  | cons id ids ih =>
    refine (ih (t.declare i ⟨id.name, kind, id.span⟩)).trans ?_
    refine List.ext_getElem? fun j => ?_
    rw [outline, outline, List.getElem?_map, List.getElem?_map, declare, List.getElem?_modify]
    cases t.scopes[j]? with
    | none => rfl
    | some s => by_cases hj : i = j <;> simp [hj]

theorem outline_bindOwn (stack : List Nat) (n : Node c) (t : ScopeTable) :
    outline ((bindOwn stack n).run t).2 = outline t := by
  unfold bindOwn
  split
  · exact outline_bindAll _ _ _ t
  · exact outline_bindAll _ _ _ t
  · exact outline_bindAll _ _ _ t
  · exact outline_bindAll _ _ _ t
  · rfl

theorem outline_enter (stack : List Nat) (o : Opening) (t : ScopeTable) :
    outline ((enter stack o.kind o.span o.bindAs o.params).run t).2 =
      outline t ++ [(o.kind, o.span)] :=
  (outline_bindAll _ _ _ _).trans (List.map_append ..)

theorem outline_visit {l : List (Sigma Node)}
    (h : ∀ k ∈ l, ∀ (stack : List Nat) (t : ScopeTable), outline ((collect stack k.2).run t).2 =
      outline t ++ k.2.openings.map fun o => (o.kind, o.span)) (stack : List Nat) (t : ScopeTable) :
    outline ((visit stack l).run t).2 =
      outline t ++ (l.flatMap fun k => k.2.openings).map fun o => (o.kind, o.span) := by
  induction l generalizing t with
  | nil => exact (List.append_nil _).symm
  | cons k l ih =>
    refine (ih (fun k hk => h k (.tail _ hk)) ((collect stack k.2).run t).2).trans ?_
    rw [h k (.head _), List.flatMap_cons, List.map_append, List.append_assoc]

/-- One scope is recorded for each node that opens one where the analysis looks, in visiting order. -/
theorem outline_collect (stack : List Nat) (n : Node c) (t : ScopeTable) :
    outline ((collect stack n).run t).2 = outline t ++ n.openings.map fun o => (o.kind, o.span) := by
  induction n using scopeInduction generalizing stack t with
  | step n ihout ihin =>
    have hahead := outline_visit fun k hk stack t => ihout (n.ahead_sublist.subset hk) stack t
    have hinside := outline_visit fun k hk stack t => ihin hk stack t
    rw [openings_eq]
    cases ho : n.opening with
    | none =>
      rw [collect_other stack ho, inside_eq_nil ho]
      have hown : outline ((noteOwn stack n).run t).2 = outline t := by
        rw [outline, scopes_noteOwn]
        exact outline_bindOwn stack n t
      refine (hahead stack ((noteOwn stack n).run t).2).trans ?_
      simp [hown]
    | some o =>
      rw [collect_opening ho]
      let t₁ := ((visit stack n.ahead).run t).2
      refine (hinside (t₁.scopes.length :: stack)
        ((enter stack o.kind o.span o.bindAs o.params).run t₁).2).trans ?_
      rw [outline_enter, hahead]
      simp

theorem isNested_analyze {p : Program} (hp : p.hasNestedScopes = true) : IsNested (analyze p) := by
  have hstack : Stacked start [0] := ⟨List.cons_ne_nil _ _, List.forall_mem_singleton.mpr Nat.one_pos⟩
  have h : Nests [0] p.extents start (analyze p) := nests_collect p hp hstack
  have houtermost (q : Nat) : ¬HasParent (analyze p) 0 q := by
    intro hq
    obtain ⟨s, hs, hparent⟩ := hq.before h.grows Nat.one_pos
    cases hs
    cases hparent
  refine ⟨houtermost, fun i hi hi' => ?_, fun i r hi hr => ?_, fun i q r r' hq hi hr hr' => ?_,
    fun i j r r' hi hij hr hr' => h.apart i j r r' hi hij hr hr'⟩
  · obtain ⟨q, hq, hlt, -⟩ := h.parent i hi hi'
    exact ⟨q, hlt, hq⟩
  · exact isDummy_of_mem_extents hp (h.span i r hi hr)
  · have hpos : 0 < i := Nat.pos_of_ne_zero fun h => houtermost q (h ▸ hi)
    exact h.contains i q r r' hpos hq hi hr hr'

/-- The scopes that are recorded are those that the nodes of the program open. Each one but the outermost
has an earlier one around it, those around the scope that is looked up for a range are the ones that
enclose the range, and their bindings are the ones that can be seen there. -/
theorem scopeAt_innermost {p : Program} {site : Span} (hp : p.hasNestedScopes = true)
    (hsource : site.isDummy = false) (hlo : site.lo < site.hi) :
    let t := analyze p
    outline t = (.program, .none) :: p.openings.map (fun o => (o.kind, o.span)) ∧
    (∀ i, 0 < i → i < t.scopes.length → ∃ q < i, HasParent t i q) ∧
    (∀ i, i ≠ 0 → ((∃ r, HasSpan t i r ∧ r.contains site = true) ↔ Within t i (t.scopeAt site))) ∧
    ∀ x, t.isBoundAt x site = true ↔
      Binds t 0 x ∨ ∃ i, i ≠ 0 ∧ (∃ r, HasSpan t i r ∧ r.contains site = true) ∧ Binds t i x := by
  intro t
  have ht : IsNested t := isNested_analyze hp
  have haround (i : Nat) (hi : i ≠ 0) :
      (∃ r, HasSpan t i r ∧ r.contains site = true) ↔ Within t i (t.scopeAt site) := by
    rw [← ht.encloses_iff_within hsource hlo hi, ht.encloses_iff, and_iff_right hi]
  refine ⟨outline_collect [0] p start, ht.parent, haround, fun x => ?_⟩
  rw [isBoundAt_iff ht.isOrdered, sees_iff]
  constructor
  · rintro ⟨i, hw, hb⟩
    by_cases hi : i = 0
    · exact .inl (hi ▸ hb)
    · exact .inr ⟨i, hi, (haround i hi).mpr hw, hb⟩
  · rintro (hb | ⟨i, hi, henc, hb⟩)
    · exact ⟨0, ht.within_zero hsource, hb⟩
    · exact ⟨i, (haround i hi).mp henc, hb⟩

/-- `function f(a) { { let b; } for (;;) ; } { }` -/
def nestedScopes : Program :=
  let inner : Stmt := .blockStmt (.block ⟨17, 27⟩ 0 (.ofList [Build.declare .let (.ofName "b") none]))
  let rounds : Stmt := .forStmt ⟨28, 38⟩ .none .none .none (.emptyStmt .none)
  let f : Node .func := .func ⟨1, 40⟩ 0 false false
    (.ofList [.param .none .nil (.binder (.ofName "a"))]) .nil (.some (Build.block [inner, rounds]))
  .scriptProgram .none none (.ofList [.declStmt (.declFunc false (.ofName "f") f),
    .blockStmt (.block ⟨41, 44⟩ 0 .nil)])

theorem scopeAt_innermost_nestedScopes :
    nestedScopes.hasNestedScopes = true ∧ (analyze nestedScopes).scopeAt ⟨19, 24⟩ = 2 ∧
      (∀ i, i ≠ 0 → ((∃ r, HasSpan (analyze nestedScopes) i r ∧ r.contains ⟨19, 24⟩ = true) ↔
        Within (analyze nestedScopes) i ((analyze nestedScopes).scopeAt ⟨19, 24⟩))) := by
  have hcomputed : nestedScopes.hasNestedScopes = true ∧ (analyze nestedScopes).scopeAt ⟨19, 24⟩ = 2 := by
    decide +kernel
  exact ⟨hcomputed.1, hcomputed.2, (scopeAt_innermost hcomputed.1 rfl (by decide)).2.2.1⟩

end ScopeTable

end PlainJs

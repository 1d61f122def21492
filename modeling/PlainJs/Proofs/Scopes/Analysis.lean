import PlainJs.Proofs.Scopes.Environment
import PlainJs.Proofs.Scopes.Table

namespace PlainJs

namespace ScopeTable

open Node

variable {t t' t'' T : ScopeTable} {stack : List Nat} {c : Cat} {n : Node c}

theorem find?_congr {p q : Nat → Bool} (h : ∀ i ∈ stack, p i = q i) :
    stack.find? p = stack.find? q := by
  induction stack with
  | nil => rfl
  | cons a l ih =>
    rw [List.find?_cons, List.find?_cons, h a (.head _), ih fun i hi => h i (.tail _ hi)]

/-- Whether a `var` can land in the scope. -/
def holdsVars (t : ScopeTable) (i : Nat) : Bool :=
  match t.scopes[i]? with
  | .some s => s.kind == .function || s.kind == .program
  | .none => false

theorem hoistTarget_eq (t : ScopeTable) (stack : List Nat) :
    t.hoistTarget stack = (stack.find? t.holdsVars).getD 0 := rfl

theorem Grows.holdsVars_eq {i : Nat} (h : Grows t t') (hi : i < t.scopes.length) :
    t'.holdsVars i = t.holdsVars i := by
  obtain ⟨s', hs', hext⟩ := h i _ (List.getElem?_eq_getElem hi)
  simp only [holdsVars, hs', List.getElem?_eq_getElem hi, hext.kind]

/-- The scopes that are open are there. -/
structure Stacked (t : ScopeTable) (stack : List Nat) : Prop where
  nonempty : stack ≠ []
  lt : ∀ i ∈ stack, i < t.scopes.length

/-- Where a declaration of the given reach binds its names. -/
def target (t : ScopeTable) (stack : List Nat) : Reach → Nat
  | .scope => stack.headD 0
  | .function => t.hoistTarget stack
  | .program => 0

namespace Stacked

theorem mono (h : Stacked t stack) (hg : Grows t t') : Stacked t' stack :=
  ⟨h.nonempty, fun i hi => Nat.lt_of_lt_of_le (h.lt i hi) hg.length_le⟩

theorem head_lt (h : Stacked t stack) : stack.headD 0 < t.scopes.length := by
  cases stack with
  | nil => exact absurd rfl h.nonempty
  | cons i rest => exact h.lt i (.head _)

theorem target_lt (h : Stacked t stack) (reach : Reach) :
    t.target stack reach < t.scopes.length := by
  have hpos : 0 < t.scopes.length := Nat.zero_lt_of_lt h.head_lt
  cases reach with
  | scope => exact h.head_lt
  | program => exact hpos
  | function =>
    rw [target, hoistTarget_eq]
    cases hfind : stack.find? t.holdsVars with
    | none => exact hpos
    | some i => exact h.lt i (List.mem_of_find?_eq_some hfind)

theorem target_eq (h : Stacked t stack) (hg : Grows t t') (reach : Reach) :
    t'.target stack reach = t.target stack reach := by
  cases reach with
  | scope | program => rfl
  | function =>
    rw [target, target, hoistTarget_eq, hoistTarget_eq]
    exact congrArg (·.getD 0) (find?_congr fun i hi => hg.holdsVars_eq (h.lt i hi))

end Stacked

theorem bindAll_spec (i : Nat) (kind : BindingKind) (ids : List Ident) (t : ScopeTable) :
    let t' := ((bindAll i kind ids).run t).2
    Grows t t' ∧ t'.scopes.length = t.scopes.length ∧
      (i < t.scopes.length → ∀ id ∈ ids, Binds t' i id.name) := by
  induction ids generalizing t with
  | nil => exact ⟨.refl t, rfl, fun _ => List.forall_mem_nil _⟩
  | cons id ids ih =>
    let t₁ := t.declare i ⟨id.name, kind, id.span⟩
    have hlength : t₁.scopes.length = t.scopes.length := List.length_modify ..
    obtain ⟨hgrows, hlen, hbinds⟩ := ih t₁
    refine ⟨(Grows.declare t i _).trans hgrows, hlen.trans hlength, fun hi => ?_⟩
    refine List.forall_mem_cons.mpr ⟨(binds_declare hi).mono hgrows, hbinds (hlength ▸ hi)⟩

theorem scopes_noteNames (ids : List Ident) (t : ScopeTable) :
    ((noteNames ids).run t).2.scopes = t.scopes := by
  induction ids generalizing t with
  | nil => rfl
  | cons id ids ih => exact ih (t.addName id.name)

/-- What a node declares itself is bound where it reaches. -/
theorem bindOwn_spec (h : Stacked t stack) (n : Node c) :
    let t' := ((bindOwn stack n).run t).2
    Grows t t' ∧ t'.scopes.length = t.scopes.length ∧
      ∀ reach, ∀ x ∈ n.ownBinds reach, Binds t' (t.target stack reach) x := by
  have key (r : Reach) (ids : List Ident) (kind : BindingKind) (hn : n.ownBindings = (r, ids))
      {x : Collect Unit} (hx : x.run t = (bindAll (t.target stack r) kind ids).run t) :
      let t' := (x.run t).2
      Grows t t' ∧ t'.scopes.length = t.scopes.length ∧
        ∀ reach, ∀ x ∈ n.ownBinds reach, Binds t' (t.target stack reach) x := by
    rw [hx]
    obtain ⟨hgrows, hlen, hbinds⟩ := bindAll_spec (t.target stack r) kind ids t
    refine ⟨hgrows, hlen, fun reach x hx => ?_⟩
    rw [ownBinds, hn] at hx
    split at hx
    next heq =>
      subst heq
      obtain ⟨id, hid, rfl⟩ := List.mem_map.mp hx
      exact hbinds (h.target_lt r) id hid
    next => cases hx
  cases n with
  | varDecl _ _ kind _ decls =>
    refine key _ decls.boundIdents (varBindingKind kind) rfl ?_
    cases kind <;> rfl
  | declFunc => exact key .scope _ .function rfl rfl
  | declClass => exact key .scope _ .cls rfl rfl
  | importItem => exact key .program _ .imported rfl rfl
  | _ => exact key .scope [] .param rfl rfl

theorem scopes_noteOwn (stack : List Nat) (n : Node c) (t : ScopeTable) :
    ((noteOwn stack n).run t).2.scopes = ((bindOwn stack n).run t).2.scopes := by
  have hlabels (labels : List String) (t : ScopeTable) :
      ((labels.forM fun l => modify (·.addLabel l) : Collect Unit).run t).2.scopes = t.scopes := by
    induction labels generalizing t with
    | nil => rfl
    | cons l labels ih => exact ih (t.addLabel l)
  exact (scopes_noteNames _ _).trans (hlabels _ _)

theorem collect_nil (stack : List Nat) : collect stack (nil : Node (.list c)) = pure () := by
  rw [collect_other stack rfl]
  rfl

/-- Nothing that is passed over in a charted node opens a scope. -/
theorem visit_ahead (stack : List Nat) (hn : n.isCharted = true) :
    visit stack n.ahead = visit stack n.outside := by
  cases n with
  | func _ _ _ _ _ decorators _ =>
    cases decorators with
    | nil => exact (collect_nil stack).symm
    | cons a l => cases hn
  | ctorMember _ _ key _ _ =>
    cases key with
    | fixedKey span key =>
      change _ = collect stack (fixedKey span key)
      rw [collect_other stack rfl]
      rfl
    | computedKey => cases hn
  | _ => rfl

/-- The source ranges in parts. -/
def regionsOf (l : List (Sigma Node)) : List Span := l.flatMap fun k => k.2.regions

/-- What parts declare for a place around them. -/
def bindsOf (reach : Reach) (l : List (Sigma Node)) : List String :=
  l.flatMap fun k => k.2.binds reach

theorem regionsOf_singleton (k : Sigma Node) : regionsOf [k] = k.2.regions :=
  List.flatMap_singleton _ _

theorem bindsOf_singleton (reach : Reach) (k : Sigma Node) : bindsOf reach [k] = k.2.binds reach :=
  List.flatMap_singleton _ _

/-- The table `T` that results in the end, seen from parts that have been visited with the given open
scopes: of the scopes that have been there before them or that come behind them, only those around
them can enclose a range in them. -/
structure Framed (stack : List Nat) (l : List (Sigma Node)) (t t' T : ScopeTable) : Prop where
  grows : Grows t' T
  head : stack.headD 0 = 0 ∨ ∀ r ∈ regionsOf l, Encloses T (stack.headD 0) r
  earlier : ∀ i, stack.headD 0 < i → i < t.scopes.length → ∀ r ∈ regionsOf l, ¬Encloses T i r
  later : ∀ i, t'.scopes.length ≤ i → ∀ r ∈ regionsOf l, ¬Encloses T i r

/-- What the visit of parts makes of a table. -/
structure Charts (stack : List Nat) (l : List (Sigma Node)) (t t' : ScopeTable) : Prop where
  grows : Grows t t'
  /-- The new scopes lie in the innermost open scope. -/
  parent : ∀ i, t.scopes.length ≤ i → i < t'.scopes.length →
    ∃ p, HasParent t' i p ∧ p < i ∧ (p = stack.headD 0 ∨ t.scopes.length ≤ p)
  span : ∀ i s, t.scopes.length ≤ i → t'.scopes[i]? = .some s → s.span ∈ regionsOf l
  binds : ∀ reach, ∀ x ∈ bindsOf reach l, Binds t' (t.target stack reach) x
  /-- Names that are in scope are seen from the scope that is looked up. -/
  sees : ∀ {T : ScopeTable}, Framed stack l t t' T → ∀ k ∈ l, ∀ {E E' : List String} {d : Cat}
    {m : Node d}, Inside E k.2 E' m → (∀ x ∈ E, Sees T (stack.headD 0) x) →
      ∀ r ∈ m.region, ∀ x ∈ m.opens ++ E', Sees T (T.scopeAt r) x

namespace Charts

theorem nil (stack : List Nat) (t : ScopeTable) : Charts stack [] t t where
  grows := .refl t
  parent i hi hi' := by omega
  span i s hi hs := by
    have := (List.getElem?_eq_some_iff.mp hs).1
    omega
  binds _ := List.forall_mem_nil _
  sees _ := List.forall_mem_nil _

/-- The new scopes lie in the innermost open scope, each one directly or in another one. -/
theorem within {l : List (Sigma Node)} (h : Charts stack l t t') (hT : Grows t' T) {i : Nat}
    (hi : t.scopes.length ≤ i) (hi' : i < t'.scopes.length) : Within T (stack.headD 0) i :=
  (within_of_parents h.parent hi hi').mono hT

theorem cons {k : Sigma Node} {l : List (Sigma Node)} (hk : Charts stack [k] t t')
    (hl : Charts stack l t' t'') (hstack : Stacked t stack) (hlaid : LaidOut (k :: l)) :
    Charts stack (k :: l) t t'' := by
  have hregions {r : Span} : r ∈ regionsOf (k :: l) ↔ r ∈ regionsOf [k] ∨ r ∈ regionsOf l := by
    rw [regionsOf_singleton, regionsOf, List.flatMap_cons, List.mem_append]
    rfl
  have hlen := hk.grows.length_le
  -- a scope of one part encloses no range of the other
  have hapart {r r' : Span} (hr : r ∈ regionsOf [k]) (hr' : r' ∈ regionsOf l) :
      r.contains r' = false ∧ r'.contains r = false := by
    obtain ⟨b, hb, hr'⟩ := List.mem_flatMap.mp hr'
    rw [regionsOf_singleton] at hr
    have h := (List.pairwise_cons.mp hlaid.apart).1 b hb r hr r' hr'
    have hlo := (isNonempty_of_mem_regions (hlaid.parts _ (.head _)) hr).2
    have hlo' := (isNonempty_of_mem_regions (hlaid.parts b (.tail _ hb)) hr').2
    exact ⟨Span.not_contains_of_apart h hlo', Span.not_contains_of_apart (Span.apart_comm r r' ▸ h) hlo⟩
  refine ⟨hk.grows.trans hl.grows, fun i hi hi' => ?_, fun i s hi hs => ?_, fun reach x hx => ?_,
    fun {T} hT k' hk' E E' d m hm hE => ?_⟩
  · rcases Nat.lt_or_ge i t'.scopes.length with hlt | hge
    · obtain ⟨p, hparent, hp⟩ := hk.parent i hi hlt
      exact ⟨p, hparent.mono hl.grows, hp⟩
    · obtain ⟨p, hparent, hlt, hp⟩ := hl.parent i hge hi'
      exact ⟨p, hparent, hlt, hp.imp_right fun hp => Nat.le_trans hlen hp⟩
  · rcases Nat.lt_or_ge i t'.scopes.length with hlt | hge
    · obtain ⟨s₁, hs₁, hext⟩ := hl.grows.before hlt hs
      exact hregions.mpr (.inl (hext.span ▸ hk.span i s₁ hi hs₁))
    · exact hregions.mpr (.inr (hl.span i s hge hs))
  · rw [bindsOf, List.flatMap_cons] at hx
    rcases List.mem_append.mp hx with hx | hx
    · exact (hk.binds reach x (bindsOf_singleton reach k ▸ hx)).mono hl.grows
    · rw [← hstack.target_eq hk.grows]
      exact hl.binds reach x hx
  · have hafter : Grows t'' T := hT.grows
    rcases List.mem_cons.mp hk' with rfl | hk'
    · refine hk.sees ⟨hl.grows.trans hafter, ?_, ?_, ?_⟩ _ (.head _) hm hE
      · exact hT.head.imp_right fun h r hr => h r (hregions.mpr (.inl hr))
      · exact fun i hi hi' r hr => hT.earlier i hi hi' r (hregions.mpr (.inl hr))
      · intro i hi r hr henc
        rcases Nat.lt_or_ge i t''.scopes.length with hlt | hge
        · obtain ⟨-, s, hs, -, hcontains⟩ := henc
          obtain ⟨s₁, hs₁, hext⟩ := hafter.before hlt hs
          rw [hext.span, (hapart hr (hl.span i s₁ hi hs₁)).2] at hcontains
          cases hcontains
        · exact hT.later i hge r (hregions.mpr (.inl hr)) henc
    · refine hl.sees ⟨hafter, ?_, ?_, ?_⟩ k' hk' hm hE
      · exact hT.head.imp_right fun h r hr => h r (hregions.mpr (.inr hr))
      · intro i hi hi' r hr henc
        rcases Nat.lt_or_ge i t.scopes.length with hlt | hge
        · exact hT.earlier i hi hlt r (hregions.mpr (.inr hr)) henc
        · obtain ⟨-, s, hs, -, hcontains⟩ := henc
          obtain ⟨s₁, hs₁, hext⟩ := (hl.grows.trans hafter).before hi' hs
          rw [hext.span, (hapart (hk.span i s₁ hge hs₁) hr).1] at hcontains
          cases hcontains
      · exact fun i hi r hr => hT.later i hi r (hregions.mpr (.inr hr))

/-- A node without a scope of its own adds what it declares itself. -/
theorem of_other {t₀ : ScopeTable} (ho : n.opening = .none) (hstack : Stacked t stack)
    (hlaid : n.all isLaidOut = true) (hgrows : Grows t t₀)
    (hlength : t₀.scopes.length = t.scopes.length)
    (hown : ∀ reach, ∀ x ∈ n.ownBinds reach, Binds t₀ (t.target stack reach) x)
    (h : Charts stack n.outside t₀ t') : Charts stack [⟨c, n⟩] t t' := by
  have hregions : regionsOf n.outside ⊆ regionsOf [⟨c, n⟩] := by
    intro r hr
    obtain ⟨k, hk, hr⟩ := List.mem_flatMap.mp hr
    rw [regionsOf_singleton]
    exact regions_part (mem_children_of_mem_outside hk) hr
  refine ⟨hgrows.trans h.grows, hlength ▸ h.parent, ?_, fun reach x hx => ?_,
    fun {T} hT k hk E E' d m hm hE => ?_⟩
  · intro i s hi hs
    exact hregions (h.span i s (hlength ▸ hi) hs)
  · rw [bindsOf_singleton, binds_eq, inside_eq_nil ho] at hx
    simp only [List.flatMap_nil, ite_self, List.append_nil] at hx
    rcases List.mem_append.mp hx with hx | hx
    · exact (hown reach x hx).mono h.grows
    · rw [← hstack.target_eq hgrows]
      exact h.binds reach x hx
  · obtain rfl := List.mem_singleton.mp hk
    cases hm with
    | here =>
      intro r hr x hx
      have hmem : r ∈ regionsOf [⟨c, n⟩] := by
        rw [regionsOf_singleton]
        exact mem_regions.mpr (.inl hr)
      have hdummy := ((isLaidOut_iff.mp (all_iff.mp hlaid).1).1 r hr).1
      refine Within.sees (within_scopeAt hdummy (hT.head.imp_right fun h => h r hmem) ?_)
        (hE x (by simpa [opens_eq_nil ho] using hx))
      intro i hi henc
      rcases Nat.lt_or_ge i t.scopes.length with hlt | hge
      · exact absurd henc (hT.earlier i hi hlt r hmem)
      · rcases Nat.lt_or_ge i t'.scopes.length with hlt' | hge'
        · exact h.within hT.grows (hlength ▸ hge) hlt'
        · exact absurd henc (hT.later i hge' r hmem)
    | outside hk hm =>
      refine h.sees ⟨hT.grows, ?_, ?_, ?_⟩ _ hk hm hE
      · exact hT.head.imp_right fun h r hr => h r (hregions hr)
      · exact fun i hi hi' r hr => hT.earlier i hi (hlength ▸ hi') r (hregions hr)
      · exact fun i hi r hr => hT.later i hi r (hregions hr)
    | inside hk hm =>
      rw [inside_eq_nil ho] at hk
      cases hk

end Charts

/-- A scope has been opened. -/
structure Entered (stack : List Nat) (o : Opening) (t t' : ScopeTable) : Prop where
  grows : Grows t t'
  length : t'.scopes.length = t.scopes.length + 1
  scope : ∃ s, t'.scopes[t.scopes.length]? = .some s ∧ s.kind = o.kind ∧ s.span = o.span ∧
    s.parent = .some (stack.headD 0)
  binds : ∀ id ∈ o.params, Binds t' t.scopes.length id.name

theorem run_enter (stack : List Nat) (o : Opening) (t : ScopeTable) :
    let r := (enter stack o.kind o.span o.bindAs o.params).run t
    r.1 = t.scopes.length :: stack ∧ Entered stack o t r.2 := by
  let new : Scope := ⟨o.kind, o.span, .some (stack.headD 0), []⟩
  obtain ⟨hgrows, hlength, hbinds⟩ :=
    bindAll_spec t.scopes.length o.bindAs o.params (t.push new)
  have hpush : (t.push new).scopes.length = t.scopes.length + 1 := List.length_append
  refine ⟨rfl, (Grows.push t new).trans hgrows, hlength.trans hpush, ?_, hbinds (by omega)⟩
  have hnew : (t.push new).scopes[t.scopes.length]? = .some new := List.getElem?_concat_length
  obtain ⟨s, hs, hext⟩ := hgrows _ new hnew
  exact ⟨s, hs, hext.kind, hext.span, hext.parent⟩

namespace Entered

variable {o : Opening}

theorem stacked (h : Entered stack o t t') (hstack : Stacked t stack) :
    Stacked t' (t.scopes.length :: stack) where
  nonempty := List.cons_ne_nil _ _
  lt := by
    have hlength := h.length
    refine List.forall_mem_cons.mpr ⟨by omega, fun i hi => ?_⟩
    have := hstack.lt i hi
    omega

theorem holdsVars_eq (h : Entered stack o t t') :
    t'.holdsVars t.scopes.length = (o.kind == .function || o.kind == .program) := by
  obtain ⟨s, hs, hkind, -⟩ := h.scope
  simp only [holdsVars, hs, hkind]

/-- A `var` lands in the new scope if that is the scope of a function. -/
theorem target_eq (h : Entered stack o t t') (hstack : Stacked t stack) :
    t'.target (t.scopes.length :: stack) .function =
      if o.kind == .function || o.kind == .program then t.scopes.length
      else t.target stack .function := by
  rw [target, hoistTarget_eq, List.find?_cons, h.holdsVars_eq]
  split
  next heq => rw [heq]; rfl
  next heq =>
    rw [heq]
    exact hstack.target_eq h.grows .function

end Entered

/-- A node with a scope of its own adds this scope, with what lies in it. -/
theorem Charts.of_opening {o : Opening} {t₁ t₂ : ScopeTable} (ho : n.opening = .some o)
    (hstack : Stacked t stack) (hlaid : n.all isLaidOut = true) (hn : n.isCharted = true)
    (hout : Charts stack n.outside t t₁) (henter : Entered stack o t₁ t₂)
    (hin : Charts (t₁.scopes.length :: stack) n.inside t₂ t') : Charts stack [⟨c, n⟩] t t' := by
  have hnone : regionsOf n.outside = [] :=
    List.flatMap_eq_nil_iff.mpr (regions_outside_eq_nil ho hn)
  -- no scope has been opened for what lies outside
  have hlength : t₁.scopes.length = t.scopes.length := by
    refine Nat.le_antisymm (Nat.le_of_not_lt fun hlt => ?_) hout.grows.length_le
    have hspan := hout.span _ _ (Nat.le_refl _) (List.getElem?_eq_getElem hlt)
    rw [hnone] at hspan
    cases hspan
  have hlength₂ := henter.length
  have hgrows₂ : Grows t₂ t' := hin.grows
  have hhead := hstack.head_lt
  obtain ⟨s, hs, hkind, hspan, hparent⟩ := henter.scope
  have hown := (isLaidOut_iff.mp (all_iff.mp hlaid).1).1 o.span (by simp [region_eq ho])
  have hregions : regionsOf n.inside ⊆ regionsOf [⟨c, n⟩] := by
    intro r hr
    obtain ⟨k, hk, hr⟩ := List.mem_flatMap.mp hr
    obtain ⟨k', hk', hsub⟩ := regions_inside hk
    rw [regionsOf_singleton]
    exact regions_part hk' (hsub hr)
  have hself : o.span ∈ regionsOf [⟨c, n⟩] := by
    rw [regionsOf_singleton]
    exact mem_regions.mpr (.inl (by simp [region_eq ho]))
  have hvars := henter.target_eq (hstack.mono hout.grows)
  rw [kind_opening ho] at hvars
  refine ⟨(hout.grows.trans henter.grows).trans hgrows₂, fun i hi hi' => ?_, fun i s' hi hs' => ?_,
    fun reach x hx => ?_, fun {T} hT k hk E E' d m hm hE => ?_⟩
  · rcases Nat.lt_or_ge i t₂.scopes.length with hlt | hge
    · obtain rfl : i = t₁.scopes.length := by omega
      exact ⟨_, HasParent.mono ⟨s, hs, hparent⟩ hgrows₂, by omega, .inl rfl⟩
    · obtain ⟨p, hp, hlt, hp'⟩ := hin.parent i hge hi'
      refine ⟨p, hp, hlt, .inr ?_⟩
      rcases hp' with rfl | hp'
      · exact Nat.le_of_eq hlength.symm
      · omega
  · rcases Nat.lt_or_ge i t₂.scopes.length with hlt | hge
    · obtain rfl : i = t₁.scopes.length := by omega
      obtain ⟨s₁, hs₁, hext⟩ := hgrows₂.before hlt hs'
      obtain rfl := Option.some.inj (hs.symm.trans hs₁)
      rw [hext.span, hspan]
      exact hself
    · exact hregions (hin.span i s' hge hs')
  · rw [bindsOf_singleton, binds_eq, ownBinds_eq_nil ho, List.nil_append] at hx
    rcases List.mem_append.mp hx with hx | hx
    · exact (hout.binds reach x hx).mono (henter.grows.trans hgrows₂)
    · split at hx
      next hreach =>
        obtain ⟨rfl, hfun⟩ := hreach
        have hbinds := hin.binds .function x hx
        rw [hvars, hfun] at hbinds
        rw [← hstack.target_eq hout.grows]
        exact hbinds
      next => cases hx
  · obtain rfl := List.mem_singleton.mp hk
    have hup : HasParent T t₁.scopes.length (stack.headD 0) :=
      HasParent.mono ⟨s, hs, hparent⟩ (hgrows₂.trans hT.grows)
    have hopens : ∀ x ∈ n.opens ++ E, Sees T t₁.scopes.length x := by
      intro x hx
      have hin' {reach : Reach} (hx : x ∈ bindsOf reach n.inside)
          (htarget : t₂.target (t₁.scopes.length :: stack) reach = t₁.scopes.length) :
          Sees T t₁.scopes.length x :=
        .here (htarget ▸ (hin.binds reach x hx).mono hT.grows)
      rcases List.mem_append.mp hx with hx | hx
      · rcases List.mem_append.mp hx with hx | hx
        · rcases List.mem_append.mp hx with hx | hx
          · obtain ⟨id, hid, rfl⟩ := List.mem_map.mp hx
            rw [ownParams, ho] at hid
            have hid : id ∈ o.params := by simpa using hid
            exact .here ((henter.binds id hid).mono (hgrows₂.trans hT.grows))
          · exact hin' hx rfl
        · split at hx
          next hfun => exact hin' hx (by rw [hvars, hfun]; rfl)
          next => cases hx
      · exact .up hup (hE x hx)
    have hencloses {r : Span} (hr : o.span.contains r = true) :
        Encloses T t₁.scopes.length r := by
      obtain ⟨s', hs', hext⟩ := (hgrows₂.trans hT.grows) _ s hs
      exact ⟨by omega, s', hs', by rw [hext.span, hspan]; exact hown.1, by rw [hext.span, hspan]; exact hr⟩
    cases hm with
    | here =>
      intro r hr x hx
      obtain rfl : r = o.span := by simpa [region_eq ho] using hr
      refine Within.sees (within_scopeAt hown.1 (.inr (hencloses (Span.contains_refl _))) ?_)
        (hopens x hx)
      intro i hi henc
      rcases Nat.lt_or_ge i t'.scopes.length with hlt | hge
      · exact hin.within hT.grows (by omega) hlt
      · exact absurd henc (hT.later i hge _ hself)
    | inside hk hm =>
      refine hin.sees ⟨hT.grows, .inr fun r hr => ?_, fun i hi hi' => ?_, fun i hi r hr => ?_⟩ _ hk hm
        hopens
      · obtain ⟨k, hk, hr⟩ := List.mem_flatMap.mp hr
        obtain ⟨k', hk', hsub⟩ := regions_inside hk
        exact hencloses (hown.2.2 k' hk' r (hsub hr))
      · change t₁.scopes.length < i at hi
        omega
      · exact hT.later i hi r (hregions hr)
    | outside hk hm =>
      intro r hr
      have hmem := region_subset_of_inside hm hr
      rw [regions_outside_eq_nil ho hn _ hk] at hmem
      cases hmem

theorem charts_visit {l : List (Sigma Node)} (hlaid : LaidOut l)
    (h : ∀ k ∈ l, ∀ {stack : List Nat} {t : ScopeTable}, Stacked t stack →
      Charts stack [k] t ((collect stack k.2).run t).2) (hstack : Stacked t stack) :
    Charts stack l t ((visit stack l).run t).2 := by
  induction l generalizing t with
  | nil => exact .nil stack t
  | cons k l ih =>
    have hk := h k (.head _) hstack
    have hrest : LaidOut l := ⟨(List.pairwise_cons.mp hlaid.apart).2, fun k hk => hlaid.parts k (.tail _ hk)⟩
    exact hk.cons (ih hrest (fun k hk => h k (.tail _ hk)) (hstack.mono hk.grows)) hstack hlaid

/-- What the analysis adds to the table for a tree. -/
theorem charts_collect (n : Node c) (hlaid : n.all isLaidOut = true)
    (hn : n.all isCharted = true) (hstack : Stacked t stack) :
    Charts stack [⟨c, n⟩] t ((collect stack n).run t).2 := by
  induction n using scopeInduction generalizing stack t with
  | @step c n ihout ihin =>
    have hout {stack : List Nat} {t : ScopeTable} (hstack : Stacked t stack) :=
      charts_visit (laidOut_outside hlaid) (fun k hk {_ _} hstack =>
        ihout hk (all_outside hlaid k hk) (all_outside hn k hk) hstack) hstack
    have hin {stack : List Nat} {t : ScopeTable} (hstack : Stacked t stack) :=
      charts_visit (laidOut_inside hlaid) (fun k hk {_ _} hstack =>
        ihin hk (all_inside hlaid (by decide) k hk) (all_inside hn rfl k hk) hstack) hstack
    cases ho : n.opening with
    | none =>
      have hscopes := scopes_noteOwn stack n t
      obtain ⟨hgrows, hlength, hown⟩ := bindOwn_spec hstack n
      have hsame : Grows ((bindOwn stack n).run t).2 ((noteOwn stack n).run t).2 := .of_scopes hscopes
      rw [collect_other stack ho, visit_ahead stack (all_iff.mp hn).1]
      exact .of_other ho hstack hlaid (hgrows.trans hsame)
        ((congrArg List.length hscopes).trans hlength)
        (fun reach x hx => (hown reach x hx).mono hsame) (hout (hstack.mono (hgrows.trans hsame)))
    | some o =>
      have hnode := (all_iff.mp hn).1
      have houter := hout hstack
      obtain ⟨hfst, henter⟩ := run_enter stack o ((visit stack n.outside).run t).2
      have hinner := hin (henter.stacked (hstack.mono houter.grows))
      have hrun : ((collect stack n).run t).2 =
          ((visit (((visit stack n.outside).run t).2.scopes.length :: stack) n.inside).run
            ((enter stack o.kind o.span o.bindAs o.params).run
              ((visit stack n.outside).run t).2).2).2 := by
        rw [collect_opening ho, visit_ahead stack hnode]
        rfl
      rw [hrun]
      exact .of_opening ho hstack hlaid hnode houter henter hinner

/-- At every place of a program that opens a scope or declares a variable, the table knows the names
that are in scope. -/
theorem isBoundAt_analyze {p : Program} (hlaid : p.all isLaidOut = true)
    (hn : p.all isCharted = true) {E : List String} {d : Cat} {m : Node d}
    (hm : Inside p.globals p E m) {r : Span} (hr : r ∈ m.region) {x : String}
    (hx : x ∈ m.opens ++ E) : (analyze p).isBoundAt x r = true := by
  have hstack : Stacked start [0] := ⟨List.cons_ne_nil _ _, List.forall_mem_singleton.mpr Nat.one_pos⟩
  have h : Charts [0] [⟨.program, p⟩] start (analyze p) := charts_collect p hlaid hn hstack
  have hordered : IsOrdered (analyze p) := by
    intro i q hq
    obtain ⟨s, hs, hparent⟩ := hq
    rcases Nat.lt_or_ge i start.scopes.length with hlt | hge
    · obtain ⟨s₀, hs₀, hext⟩ := h.grows.before hlt hs
      obtain rfl : i = 0 := Nat.lt_one_iff.mp hlt
      cases hs₀
      rw [hext.parent] at hparent
      cases hparent
    · obtain ⟨q', hq', hlt, -⟩ := h.parent i hge (List.getElem?_eq_some_iff.mp hs).1
      obtain rfl := HasParent.unique hq' ⟨s, hs, hparent⟩
      exact hlt
  have hglobals : ∀ x ∈ p.globals, Sees (analyze p) 0 x := by
    intro x hx
    have hbinds (reach : Reach) (hx : x ∈ p.binds reach)
        (htarget : start.target [0] reach = 0) : Sees (analyze p) 0 x :=
      .here (htarget ▸ h.binds reach x (bindsOf_singleton reach ⟨.program, p⟩ ▸ hx))
    rcases List.mem_append.mp hx with hx | hx
    · rcases List.mem_append.mp hx with hx | hx
      · exact hbinds .scope hx rfl
      · exact hbinds .function hx rfl
    · exact hbinds .program hx rfl
  have hframed : Framed [0] [⟨.program, p⟩] start (analyze p) (analyze p) := by
    refine ⟨.refl _, .inl rfl, fun i hi hi' => ?_, fun i hi r _ henc => ?_⟩
    · change i < 1 at hi'
      change 0 < i at hi
      omega
    · obtain ⟨-, s, hs, -⟩ := henc
      have := (List.getElem?_eq_some_iff.mp hs).1
      omega
  obtain ⟨b, hb, hx⟩ := (h.sees hframed _ (.head _) hm hglobals r hr x hx).mem_visibleBindings hordered
  exact List.any_eq_true.mpr ⟨b, hb, beq_iff_eq.mpr hx⟩

end ScopeTable

end PlainJs

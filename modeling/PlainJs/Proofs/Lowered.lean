import Mathlib.Data.List.Perm.Subperm
import PlainJs.Proofs.Jumps
import PlainJs.Proofs.Kinship
import PlainJs.Proofs.Steps

namespace PlainJs

open Effect Run Interp Comparison

namespace Node

/-- Two trees are related, and so are the parts of what is no statement. -/
def Deep (R : ∀ {d : Cat}, Node d → Node d → Prop) {c : Cat} (n n' : Node c) : Prop :=
  R n n' ∧ (c ≠ .stmt → (n.traverse fun k _ => (⟨Deep R k⟩ : Choice _)).holds n')
termination_by sizeOf n
decreasing_by exact sizeOf_lt_of_mem_children ‹_›

variable {R R' : ∀ {d : Cat}, Node d → Node d → Prop} {c : Cat} {n n' : Node c}

theorem deep_iff : Deep R n n' ↔ R n n' ∧ (c ≠ .stmt → Parts (Deep R) n n') := by
  rw [Deep, Parts]

theorem Deep.rel (h : Deep R n n') : R n n' := (deep_iff.mp h).1

theorem Deep.parts (h : Deep R n n') (hc : c ≠ .stmt) : Parts (Deep R) n n' :=
  (deep_iff.mp h).2 hc

theorem Deep.imp (h : Deep R n n')
    (hR : ∀ {d : Cat} {k k' : Node d}, R k k' → R' k k') : Deep R' n n' := by
  induction c, n using Lower.bottomUp.induct with
  | case1 c n ih =>
    exact deep_iff.mpr ⟨hR h.rel, fun hc => (h.parts hc).imp fun hk hd => ih _ hk hd⟩

end Node

/-- A pass has made `n'` of `n` in a context between `s` and `t`. -/
def Lower.Made (f : Stmt → Lower Stmt) (s t : Context) {c : Cat} (n n' : Node c) : Prop :=
  ∃ u : Context, s.Grows u ∧ ((bottomUp f n).run u).2.Grows t ∧ n' = ((bottomUp f n).run u).1

variable {P : Context → ∀ {d : Cat}, Node d → Node d → Prop} {f : Stmt → Lower Stmt}

/-- What a pass from the inside out does, from what it does with a statement whose parts are
lowered. -/
theorem meets_bottomUp {s : Context} (mono : ∀ {t u : Context} {d : Cat} {k k' : Node d},
      t.Grows u → P t k k' → P u k k')
    (hform : ∀ {t : Context} {d : Cat} {k k' : Node d}, s.Grows t → Node.Parts (P t) k k' →
      d ≠ .stmt → P t k k')
    (hstmt : ∀ {t : Context} {k k' : Stmt}, s.Grows t →
      Node.Parts (fun k k' => Node.Deep (P t) k k' ∧ Lower.Made f s t k k') k k' →
      t.Grows ((f k').run t).2 ∧ P ((f k').run t).2 k ((f k').run t).1)
    {c : Cat} (n : Node c) :
    lowering.Meets s (Lower.bottomUp f n) fun t => ⟨Node.Deep (P t) n⟩ := by
  induction c, n using Lower.bottomUp.induct with
  | case1 c n ih =>
    intro t hst
    have hmeets := Node.Parts.of_traverse (r := lowering) (s := s)
      (P := fun t {_} k k' => Node.Deep (P t) k k' ∧ Lower.Made f s t k k')
      (f := fun k _ => Lower.bottomUp f k)
      (fun hle ⟨hk, u, hu, hmade⟩ => ⟨hk.imp (mono hle), u, hu, hmade.1.trans hle, hmade.2⟩)
      (fun k hk t ht => ⟨(ih k hk t ht).1, (ih k hk t ht).2, t, ht, .refl _, rfl⟩) t hst
    obtain ⟨hgrows, hparts : Node.Parts (fun k k' => Node.Deep (P _) k k' ∧ Lower.Made f s _ k k')
      _ _⟩ := hmeets
    rw [Lower.bottomUp, lowering.run_bind]
    by_cases hc : c = .stmt
    · subst hc
      obtain ⟨hgrows', hn⟩ := hstmt (hst.trans hgrows) hparts
      exact ⟨hgrows.trans hgrows', Node.deep_iff.mpr ⟨hn, fun h => absurd rfl h⟩⟩
    · rw [Lower.onStmt_of_ne hc, lowering.run_pure]
      have hdeep := hparts.imp fun _ hk => hk.1
      refine ⟨hgrows, Node.deep_iff.mpr ⟨?_, fun _ => hdeep⟩⟩
      exact hform (hst.trans hgrows) (hdeep.imp fun _ hk => hk.rel) hc

/-- The labels of jumps are in `N`, and there is no `continue` unless `continues` says so. -/
def Completion.Within (N : List String) (continues : Bool) {V : Type} : Completion V → Prop
  | .break l => ∀ x ∈ l, x ∈ N
  | .continue l => continues = true ∧ ∀ x ∈ l, x ∈ N
  | _ => True

variable {U V : Type} {M M' N : List String} {continues : Bool}

theorem Completion.Within.leave {c : Completion V} (h : c.Within N continues) :
    c.leave.Within N continues := by
  unfold Completion.leave
  split
  · trivial
  · exact h

theorem Completion.Within.leaveLabel {c d : Completion V} {l : String}
    (h : c.Within N continues) (hd : c.leaveLabel l = some d) : d.Within N continues := by
  unfold Completion.leaveLabel at hd
  split at hd
  · cases hd
    split
    · trivial
    · exact h
  · split at hd
    · cases hd
    · cases hd
      exact h
  · cases hd
    exact h

/-- The states have the same user part, and the temporaries of the second one that are not in `M`
are as given. -/
def Near (M : List String) (given : String → V) (s s' : State U V) : Prop :=
  s.user = s'.user ∧ ∀ x ∉ M, s'.temps x = given x

/-- Comparison with a run that may change the temporaries in `M`, and no others. Every function of
the new program is one of the old one. -/
def keeping (M N : List String) (continues : Bool) : Comparison U V where
  Index := String → V
  state := Near M
  result c c' := c = c' ∧ c.Within N continues
  neutral _ := ⟨fun h => h.1, fun _ h => ⟨rfl, h.2⟩⟩
  start s := ⟨s.temps, rfl, fun _ _ => rfl⟩
  transparent := ⟨⟨rfl, trivial⟩, fun _ => ⟨rfl, trivial⟩, fun h => .inl h.1⟩
  nested l l' := l'.Subperm l
  nested_refl l := List.Subperm.refl l
  nested_append h h' := h.append h'

theorem keeping_loopRel (labels : List String) :
    LoopRel labels labels (keeping M N continues : Comparison U V).result
      (keeping M N continues : Comparison U V).result where
  thrown? h := h.1 ▸ rfl
  normal := ⟨rfl, trivial⟩
  throw _ := ⟨rfl, trivial⟩
  goesOn h := h.1 ▸ rfl
  leave := by
    rintro c _ ⟨rfl, hc⟩ _
    exact ⟨rfl, hc.leave⟩

theorem keeping_closed : (keeping M N continues : Comparison U V).Closed := fun _ _ h => h.1

variable {A B : Type} {Q : A → B → Prop} {x : Effect (State U V) A} {y : Effect (State U V) B}

/-- A computation that changes temporaries in `M'` only may start with any values of them. -/
theorem sim_of_related
    (h : ∀ given, Related (Near M given) (fun a s b s' => Q a b ∧ Near M' given s s') x y)
    (given : String → V) : Sim (Near M' given) Q x y := by
  rintro s s' ⟨huser, htemps⟩
  refine (h s'.temps s s' ⟨huser, fun _ _ => rfl⟩).mono ?_
  rintro ⟨a, t⟩ ⟨b, t'⟩ ⟨hab, huser', htemps'⟩
  exact ⟨hab, huser', fun x hx => (htemps' x hx).trans (htemps x hx)⟩

theorem sim_widen (hM : M ⊆ M') (h : ∀ given, Sim (Near M given) Q x y) (given : String → V) :
    Sim (Near M' given) Q x y := by
  refine sim_of_related (fun given => Related.mono (h given) ?_) given
  rintro a s b s' ⟨hab, huser, htemps⟩
  exact ⟨hab, huser, fun x hx => htemps x fun hm => hx (hM hm)⟩

theorem forall₂_forall (ι : Type) {α β : Type} [Inhabited ι] {R : ι → α → β → Prop} {l : List α}
    {l' : List β} (h : ∀ i, List.Forall₂ (R i) l l') :
    List.Forall₂ (fun a b => ∀ i, R i a b) l l' := by
  induction l generalizing l' with
  | nil =>
    cases h default
    exact .nil
  | cons a l ih =>
    cases l' with
    | nil => cases h default
    | cons b l' =>
      exact .cons (fun i => (List.forall₂_cons.mp (h i)).1)
        (ih fun i => (List.forall₂_cons.mp (h i)).2)

theorem optionRel_forall (ι : Type) {α β : Type} [Inhabited ι] {R : ι → α → β → Prop} {a : Option α}
    {b : Option β} (h : ∀ i, Option.Rel (R i) a b) :
    Option.Rel (fun a b => ∀ i, R i a b) a b := by
  cases h default with
  | none => exact .none
  | some =>
    refine .some fun i => ?_
    cases h i with
    | some hab => exact hab

variable {I : Interp U V} {temps : List String} {L : List String → Prop} {c : Cat} {n n' : Node c}

theorem Comparison.Kin.widen (hM : M ⊆ M') (h : (keeping M N continues).Kin I temps L n n') :
    (keeping M' N continues).Kin I temps L n n' where
  exec i labels hlabels := sim_widen hM (fun i => h.exec i labels hlabels) i
  declare i kind := sim_widen hM (fun i => h.declare i kind) i
  cases i := by
    have : Inhabited (String → V) := ⟨fun _ => I.undefined⟩
    have hcases := forall₂_forall (String → V) h.cases
    refine hcases.imp fun a b hab => ⟨?_, sim_widen hM (fun i => (hab i).2) i⟩
    exact optionRel_imp (optionRel_forall (String → V) fun i => (hab i).1) fun _ _ htest => sim_widen hM htest i
  catching i := by
    have : Inhabited (String → V) := ⟨fun _ => I.undefined⟩
    have hcatch := optionRel_forall (String → V) h.catching
    exact optionRel_imp hcatch fun _ _ hk v => sim_widen hM (fun i => hk i v) i
  code hc := h.code hc
  nested := h.nested

/-- Unchanged forms around lowered parts. -/
theorem Comparison.Kin.of_lowered_parts (hclear : n.Clear temps) (hlabels : n.ownLabels ⊆ N)
    (hcontinue : n.isContinue = false ∨ continues = true)
    (h : Node.Parts ((keeping M N continues).Kin I temps (fun _ => True)) n n') :
    (keeping M N continues).Kin I temps (fun _ => True) n n' := by
  refine .of_form (fun _ => trivial) (.inr hclear) (fun _ => keeping_closed) ?_ ?_ ?_ ?_ ?_ h
  · exact fun _ labels => keeping_loopRel labels
  · rintro - c _ ⟨rfl, hc⟩
    exact ⟨rfl, hc.leave⟩
  · rintro l - c _ ⟨rfl, hc⟩
    cases hd : c.leaveLabel l with
    | none => exact .none
    | some d => exact .some ⟨rfl, hc.leaveLabel hd⟩
  · intro j hj
    refine ⟨rfl, ?_⟩
    unfold Node.ownJump? at hj
    split at hj
    next span label =>
      cases hj
      exact fun x hx => hlabels (by simpa [Node.ownLabels] using hx)
    next span label =>
      cases hj
      exact ⟨hcontinue.resolve_left Bool.noConfusion, fun x hx =>
        hlabels (by simpa [Node.ownLabels] using hx)⟩
    next => cases hj
  · exact fun v => ⟨rfl, trivial⟩

section

variable {given : String → V} {a : String} {v : V}
  {Post : A → State U V → B → State U V → Prop}

theorem Near.mono {s s' : State U V} {given' : String → V} (h : Near M given s s') (hM : M ⊆ M')
    (hgiven : ∀ x ∉ M', given x = given' x) : Near M' given' s s' :=
  ⟨h.1, fun x hx => (h.2 x fun hm => hx (hM hm)).trans (hgiven x hx)⟩

theorem related_setting (h : Related (Near M (Function.update given a v)) Post x y) :
    Related (Near M given) Post x (setting a v y) := by
  rintro s s' ⟨huser, htemps⟩
  refine h s { s' with temps := Function.update s'.temps a v } ⟨huser, fun x hx => ?_⟩
  by_cases hxa : x = a
  · subst hxa
    simp only [Function.update_self]
  · simp only [Function.update_of_ne hxa, htemps x hx]

theorem related_reading {k : V → Effect (State U V) B} (ha : a ∉ M)
    (h : Related (Near M given) Post x (k (given a))) :
    Related (Near M given) Post x (reading a k) := by
  intro s s' hs
  have hrun : (reading a k).run s' = (k (given a)).run s' := by rw [← hs.2 a ha]; rfl
  rw [hrun]
  exact h s s' hs

end

/-- The names that have been made since `base`. -/
def Context.newNames (base t : Context) : List String :=
  t.names.reserved.filter (· ∉ base.names.reserved)

theorem Context.mem_newNames {base t : Context} {x : String} :
    x ∈ base.newNames t ↔ x ∈ t.names.reserved ∧ x ∉ base.names.reserved := by
  simp [newNames]

theorem Context.newNames_subset {base t u : Context} (h : t.Grows u) :
    base.newNames t ⊆ base.newNames u := by
  intro x hx
  rw [mem_newNames] at hx ⊢
  exact ⟨h.reserved hx.1, hx.2⟩

/-- How many diagnostics of a kind have been recorded. -/
def Context.count (concern : Concern) (cx : Context) : Nat :=
  cx.diagnostics.countP (·.concern = concern)

theorem Context.Grows.count_le {t u : Context} (h : t.Grows u) (concern : Concern) :
    t.count concern ≤ u.count concern := by
  obtain ⟨new, hnew⟩ := h.diagnostics
  rw [Context.count, Context.count, hnew, List.countP_append]
  exact Nat.le_add_right _ _

theorem Context.pick_mem_newNames {base t : Context} (h : base.Grows t) (hint : String) :
    t.names.pick hint ∈ base.newNames (t.withFresh hint) :=
  mem_newNames.mpr ⟨.head _, fun hmem => t.names.pick_notMem hint (h.reserved hmem)⟩

theorem Context.pick_notMem_newNames (base t : Context) (hint : String) :
    t.names.pick hint ∉ base.newNames t :=
  fun h => t.names.pick_notMem hint (mem_newNames.mp h).1

/-- Two new temporaries. -/
structure NewPair (M M' : List String) (a b : String) : Prop where
  subset : M ⊆ M'
  notMem_fst : a ∉ M
  notMem_snd : b ∉ M
  ne : a ≠ b
  mem_fst : a ∈ M'
  mem_snd : b ∈ M'

theorem NewPair.update {a b : String} (h : NewPair M M' a b) (given : String → V) (v w : V)
    {x : String} (hx : x ∉ M') :
    Function.update (Function.update given a v) b w x = given x := by
  have ha : x ≠ a := fun he => hx (he ▸ h.mem_fst)
  have hb : x ≠ b := fun he => hx (he ▸ h.mem_snd)
  rw [Function.update_of_ne hb, Function.update_of_ne ha]

theorem Context.newPair {base t t₁ : Context} (hbase : base.Grows t) (hgrows : t.Grows t₁)
    (a b : String) :
    NewPair (base.newNames t) (base.newNames ((t₁.withFresh a).withFresh b)) (t₁.names.pick a)
      ((t₁.withFresh a).names.pick b) where
  subset := Context.newNames_subset (hgrows.trans ((t₁.grows_withFresh a).trans
    ((t₁.withFresh a).grows_withFresh b)))
  notMem_fst hmem := base.pick_notMem_newNames t₁ a (Context.newNames_subset hgrows hmem)
  notMem_snd hmem := base.pick_notMem_newNames (t₁.withFresh a) b
    (Context.newNames_subset (hgrows.trans (t₁.grows_withFresh a)) hmem)
  ne he := (t₁.withFresh a).names.pick_notMem b (he ▸ .head _)
  mem_fst := Context.newNames_subset ((t₁.withFresh a).grows_withFresh b)
    (Context.pick_mem_newNames (hbase.trans hgrows) a)
  mem_snd := Context.pick_mem_newNames (hbase.trans (hgrows.trans (t₁.grows_withFresh a))) b

section

variable (I : Interp U V) (temps N : List String) (continues : Bool) (base : Context)
  (quiet : Context → Prop) (fine : ∀ {d : Cat}, Node d → Bool)

/-- What a pass that started at `base` has made of a tree by the time of `t`: as long as the context
is quiet, the new tree differs from the old one in new temporaries. -/
def LoweredTo (t : Context) {c : Cat} (n n' : Node c) : Prop :=
  quiet t → base.newNames t ⊆ temps → n.Clear temps →
    n.labelNames ⊆ N → n.all fine = true → (continues = true ∨ n.hasContinue = false) →
      (keeping (base.newNames t) N continues).Kin I temps (fun _ => True) n n'

/-- A context that is quiet has been quiet all the time. -/
def Context.Lasting : Prop := ∀ {t u : Context}, t.Grows u → quiet u → quiet t

theorem Context.lasting_count (concern : Concern) (most : Nat) :
    Lasting fun t => t.count concern ≤ most :=
  fun htu hu => (htu.count_le concern).trans hu

variable {I temps N continues base quiet fine}

theorem LoweredTo.mono (hquiet : Context.Lasting quiet) {t u : Context} (htu : t.Grows u)
    (h : LoweredTo I temps N continues base quiet fine t n n') :
    LoweredTo I temps N continues base quiet fine u n n' := by
  intro hu htemps hclear hlabels hfine hcontinue
  have hsub : base.newNames t ⊆ base.newNames u := Context.newNames_subset htu
  refine (h (hquiet htu hu) (List.Subset.trans hsub htemps) hclear hlabels hfine
    hcontinue).widen hsub

/-- What the parts of a tree need is known from what the tree needs. -/
theorem LoweredTo.kin_parts {t : Context} (hquiet : quiet t)
    (htemps : base.newNames t ⊆ temps) (hclear : n.Clear temps) (hlabels : n.labelNames ⊆ N)
    (hfine : n.all fine = true) (hcontinue : continues = true ∨ n.hasContinue = false)
    (h : Node.Parts (LoweredTo I temps N continues base quiet fine t) n n') :
    Node.Parts ((keeping (base.newNames t) N continues).Kin I temps (fun _ => True)) n n' := by
  refine h.imp fun {d k k'} hk hlow => ?_
  refine hlow hquiet htemps (hclear.part hk) (Node.labelNames_part hlabels hk)
    (Node.all_part hfine hk) (hcontinue.imp_right fun hnone => ?_)
  exact (Node.hasContinue_eq_false.mp hnone).2 _ hk

/-- Unchanged forms around lowered parts. -/
theorem LoweredTo.of_parts {t : Context}
    (h : Node.Parts (LoweredTo I temps N continues base quiet fine t) n n') :
    LoweredTo I temps N continues base quiet fine t n n' := by
  intro hquiet htemps hclear hlabels hfine hcontinue
  refine .of_lowered_parts hclear (fun x hx => hlabels (Node.mem_labelNames.mpr (.inl hx))) ?_
    (kin_parts hquiet htemps hclear hlabels hfine hcontinue h)
  exact hcontinue.symm.imp_left fun hnone => (Node.hasContinue_eq_false.mp hnone).1

/-- What a pass from the inside out makes of a tree, from what it makes of a statement whose parts
it has lowered. -/
theorem loweredTo_of_made (hquiet : Context.Lasting quiet)
    (hstep : ∀ {t : Context} {k k' : Stmt}, base.Grows t →
      Node.Parts (fun k k' => Node.Deep (LoweredTo I temps N continues base quiet fine t) k k' ∧
        Lower.Made f base t k k') k k' →
      t.Grows ((f k').run t).2 ∧
        LoweredTo I temps N continues base quiet fine ((f k').run t).2 k ((f k').run t).1)
    (n : Node c) :
    base.Grows ((Lower.bottomUp f n).run base).2 ∧
      LoweredTo I temps N continues base quiet fine ((Lower.bottomUp f n).run base).2 n
        ((Lower.bottomUp f n).run base).1 := by
  have hmeets := meets_bottomUp (s := base)
    (P := LoweredTo I temps N continues base quiet fine) (fun htu h => h.mono hquiet htu)
    (fun _ h _ => .of_parts h) hstep n base (.refl base)
  exact ⟨hmeets.1, Node.Deep.rel hmeets.2⟩

theorem loweredTo_bottomUp (hquiet : Context.Lasting quiet)
    (hstep : ∀ {t : Context} {k k' : Stmt}, base.Grows t →
      Node.Parts (Node.Deep (LoweredTo I temps N continues base quiet fine t)) k k' →
      t.Grows ((f k').run t).2 ∧
        LoweredTo I temps N continues base quiet fine ((f k').run t).2 k ((f k').run t).1)
    (n : Node c) :
    base.Grows ((Lower.bottomUp f n).run base).2 ∧
      LoweredTo I temps N continues base quiet fine ((Lower.bottomUp f n).run base).2 n
        ((Lower.bottomUp f n).run base).1 :=
  loweredTo_of_made hquiet (fun hbase h => hstep hbase (h.imp fun _ hk => hk.1)) n

end

/-- Two programs do the same: from states with the same user part both end in the same way and with
the same user part, or neither ends, and every function of the second is one of the first. -/
def SameRuns (I : Interp U V) (temps : List String) (p p' : Program) : Prop :=
  Related (fun s s' => s.user = s'.user) (fun c s c' s' => c = c' ∧ s.user = s'.user)
      (I.exec temps [] p) (I.exec temps [] p') ∧
    (I.functionMeanings temps p').Subperm (I.functionMeanings temps p)

theorem Comparison.Kin.sameRuns {I : Interp U V} {temps : List String} {p p' : Program}
    (h : (keeping M N continues).Kin I temps (fun _ => True) p p') : SameRuns I temps p p' := by
  refine ⟨fun s s' hs => ?_, h.nested⟩
  refine (h.exec s'.temps [] trivial s s' ⟨hs, fun _ _ => rfl⟩).mono ?_
  rintro ⟨c, t⟩ ⟨c', t'⟩ ⟨⟨hc, -⟩, ht, -⟩
  exact ⟨hc, ht⟩

/-- A program knows none of the names that are made after all its names are reserved. -/
theorem clear_newNames {base : Context} {n : Node c} (h : n.names ⊆ base.names.reserved)
    (t : Context) : n.Clear (base.newNames t) :=
  fun _ hx hmem => (Context.mem_newNames.mp hmem).2 (h hx)

end PlainJs

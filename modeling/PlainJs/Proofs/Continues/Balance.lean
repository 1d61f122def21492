import PlainJs.Proofs.Continues.Meaning
import PlainJs.Proofs.Rewriting

namespace PlainJs

open JumpTarget

variable {known : List Diagnostic} {N : List String} {c : Cat} {ts ts' : List JumpTarget}

/-- Targets among which a `continue` finds the same one. -/
structure SameAims (ts us : List JumpTarget) : Prop where
  loops : ts.map isLoop = us.map isLoop
  labels : ∀ l, ts.map (hasLabel l) = us.map (hasLabel l)

namespace SameAims

variable {us vs : List JumpTarget}

theorem refl (ts : List JumpTarget) : SameAims ts ts := ⟨rfl, fun _ => rfl⟩

theorem trans (h : SameAims ts us) (h' : SameAims us vs) : SameAims ts vs :=
  ⟨h.loops.trans h'.loops, fun l => (h.labels l).trans (h'.labels l)⟩

theorem cons (t : JumpTarget) (h : SameAims ts us) : SameAims (t :: ts) (t :: us) :=
  ⟨congrArg (t.isLoop :: ·) h.loops, fun l => congrArg (t.hasLabel l :: ·) (h.labels l)⟩

theorem of_fill (h : List.Forall₂ Fill ts us) : SameAims ts us := by
  induction h with
  | nil => exact .refl []
  | cons hf _ ih =>
    cases hf with
    | same => exact ih.cons _
    | fill label =>
      exact ⟨congrArg (true :: ·) ih.loops, fun l => congrArg (false :: ·) (ih.labels l)⟩

theorem findIdx?_eq {p : JumpTarget → Bool} (h : ts.map p = us.map p) :
    ts.findIdx? p = us.findIdx? p := by
  have hmap (l : List JumpTarget) : (l.map p).findIdx? id = l.findIdx? p := List.findIdx?_map
  rw [← hmap, h, hmap]

/-- The last loop of a list only depends on which of its targets are loops. -/
theorem find?_loop (l : List JumpTarget) : (l.map isLoop).zipIdx.reverse.find? (·.1) =
    (l.zipIdx.reverse.find? (·.1.isLoop)).map (Prod.map isLoop id) := by
  rw [List.zipIdx_map, ← List.map_reverse, List.find?_map]
  rfl

theorem resolve_eq (h : SameAims ts us) (label : Option Ident) :
    resolve ts label = resolve us label := by
  cases label with
  | none =>
    simp only [resolve, findIdx?_eq h.loops]
  | some label =>
    simp only [resolve, findIdx?_eq (h.labels label.name)]
    cases us.findIdx? (hasLabel label.name) with
    | none => rfl
    | some i =>
      have hts := find?_loop (ts.take i)
      rw [List.map_take, h.loops, ← List.map_take, find?_loop] at hts
      dsimp only
      generalize (ts.take i).zipIdx.reverse.find? (·.1.isLoop) = a at hts
      generalize (us.take i).zipIdx.reverse.find? (·.1.isLoop) = b at hts
      cases a <;> cases b
      · rfl
      · cases hts
      · cases hts
      · exact congrArg Except.ok (congrArg Prod.snd (Option.some.inj hts)).symm

end SameAims

/-- What a `continue` finds is a loop. -/
theorem split_of_resolve {label : Option Ident} {i : Nat} (h : resolve ts label = .ok i) :
    ∃ pre b post, ts = pre ++ .loop b :: post ∧ i = pre.length := by
  have hloop : ∃ t, ts[i]? = some t ∧ t.isLoop = true := by
    cases label with
    | none =>
      simp only [resolve] at h
      split at h
      next j hj =>
        cases h
        obtain ⟨hlt, hloop, -⟩ := List.findIdx?_eq_some_iff_getElem.mp hj
        exact ⟨_, List.getElem?_eq_getElem hlt, hloop⟩
      next => cases h
    | some label =>
      simp only [resolve] at h
      split at h
      next => cases h
      next k hk =>
        split at h
        next t j hj =>
          cases h
          have hloop := List.find?_some hj
          have hmem := List.mem_reverse.mp (List.mem_of_find?_eq_some hj)
          have hget := List.mk_mem_zipIdx_iff_getElem?.mp hmem
          rw [List.getElem?_take] at hget
          split at hget
          · exact ⟨t, hget, hloop⟩
          · cases hget
        next => cases h
  obtain ⟨t, hget, hloop⟩ := hloop
  obtain ⟨hlt, rfl⟩ := List.getElem?_eq_some_iff.mp hget
  have hget : ts[i] = .loop (ts[i]).bodyLabel := by
    cases h : ts[i] with
    | loop b => rfl
    | labeled l => simp [h, isLoop] at hloop
  refine ⟨ts.take i, (ts[i]).bodyLabel, ts.drop (i + 1), ?_, ?_⟩
  · rw [← hget, ← List.drop_eq_getElem_cons hlt, List.take_append_drop]
  · rw [List.length_take, Nat.min_eq_left (Nat.le_of_lt hlt)]

theorem filled_subset (h : List.Forall₂ Fill ts ts') : filled ts ⊆ filled ts' := by
  induction h with
  | nil => exact List.Subset.refl _
  | @cons t u ts us hf _ ih =>
    cases hf with
    | same =>
      cases t with
      | labeled l => exact ih
      | loop b =>
        cases b with
        | none => exact ih
        | some label => exact List.cons_subset_cons _ ih
    | fill label => exact List.subset_cons_of_subset _ ih

/-- How the state of the pass may change. -/
structure Moves (N : List String) (s t : Spot) : Prop where
  fill : List.Forall₂ Fill s.1 t.1
  steps : s.2.Steps t.2
  /-- Labels that are new on a loop are new. -/
  fresh : ∀ x ∈ filled t.1, x ∈ s.2.names.reserved → x ∈ filled s.1
  sound : Sound N s → Sound N t

namespace Moves

variable {s t u : Spot}

theorem refl (s : Spot) : Moves N s s :=
  ⟨List.forall₂_same.mpr fun t _ => .same t, .refl, fun _ hx _ => hx, id⟩

theorem trans (h : Moves N s t) (h' : Moves N t u) : Moves N s u where
  fill := fill_trans h.fill h'.fill
  steps := h.steps.trans h'.steps
  fresh x hx hs := h.fresh x (h'.fresh x hx (h.steps.grows.reserved hs)) hs
  sound hs := h'.sound (h.sound hs)

/-- What happens inside a statement that is no labelled loop seen from outside. -/
theorem pop {target : JumpTarget} {cx : Context} {u : Spot} (ht : target.bodyLabel = none)
    (h : Moves N (target :: ts, cx) u) :
    ∃ target' ts' cx', u = (target' :: ts', cx') ∧ target.Fill target' ∧
      Moves N (ts, cx) (ts', cx') := by
  obtain ⟨us, cx'⟩ := u
  obtain ⟨hfill, hsteps, hfresh, hsound⟩ := h
  have hfilled : filled (target :: ts) = filled ts := by
    rw [filled, List.filterMap_cons, ht]
    rfl
  cases hfill with
  | @cons _ target' _ ts' hf hfill =>
    refine ⟨target', ts', cx', rfl, hf, hfill, hsteps, fun x hx hs => ?_, fun hs => ?_⟩
    · have hmem := hfresh x ((List.sublist_cons_self target' ts').filterMap _ |>.subset hx) hs
      rwa [hfilled] at hmem
    · have hs' : Sound N (target :: ts, cx) :=
        hs.of_sublist (hfilled ▸ List.Sublist.refl _) (List.Subset.refl _)
      exact (hsound hs').of_sublist ((List.sublist_cons_self ..).filterMap _) (List.Subset.refl _)

/-- What happens inside a function seen from outside. -/
theorem outside (ts : List JumpTarget) {cx : Context} {u : Spot} (h : Moves N ([], cx) u) :
    u = ([], u.2) ∧ Moves N (ts, cx) (ts, u.2) := by
  obtain ⟨us, cx'⟩ := u
  obtain ⟨hfill, hsteps, -, -⟩ := h
  cases hfill
  refine ⟨rfl, (Moves.refl (N := N) (ts, cx)).fill, hsteps, fun _ hx _ => hx, fun hs => ?_⟩
  exact hs.of_sublist (List.Sublist.refl _) hsteps.grows.reserved

end Moves

/-- Whether a node is a `continue` without a loop to go to. -/
def Frame.isOrphan (fr : Frame) {c : Cat} : Node c → Bool
  | .continueStmt _ label => !(resolve fr.around label).isOk
  | _ => false

/-- Counts the `continue` statements without a loop to go to. -/
def Measure.orphans (known : List Diagnostic) : Measure known where
  own fr {_} n := if fr.isOrphan n then 1 else 0
  mark _ := 0
  held := NameSupply.unweighed
  own_glue {fr _ n} h := by
    have horphan : fr.isOrphan n = false := by cases n <;> first | rfl | cases h
    rw [horphan]
    rfl
  own_declarator := @Node.unweighed_declarator
  own_parts {fr _ _ _} h := by rw [h.form_eq fr.isOrphan fun m => by cases m <;> rfl]
  held_fresh := NameSupply.unweighed_fresh

section

variable {w w' : Weight known} {fr fr' : Frame} {E : List String} {n n' : Node c} {s t : Spot}

/-- The weight of the labels that loop bodies will get. -/
def pending (w : Weight known) (ts : List JumpTarget) : Nat := ((filled ts).map w.markLabel).sum

/-- What stands around in the new tree: the labels in `E` are new. -/
structure Widens (N E : List String) (fr fr' : Frame) : Prop where
  caught : fr'.caught = fr.caught
  labels : ∀ x, x ∈ fr'.labels ↔ x ∈ E ∨ x ∈ fr.labels
  apart : ∀ x ∈ E, x ∉ N

theorem Widens.enter (h : Widens N E fr fr') (hn : n.isFunctionLike = false) :
    Widens N E (fr.enter n) (fr'.enter n) where
  caught := Frame.caught_enter h.caught n
  labels x := by
    unfold Frame.enter
    split
    · simp only [Frame.labels_label, List.mem_cons, h.labels]
      exact or_left_comm
    · exact h.labels x
    · split
      · exact h.labels x
      · rw [if_neg (by simp [hn]), if_neg (by simp [hn])]
        exact h.labels x
  apart := h.apart

/-- A node counts the same in the old and in the new surroundings. -/
theorem Widens.agrees (h : Widens N E fr fr') (hn : n.ownLabels ⊆ N) : fr'.Agrees fr n := by
  refine ⟨fun x hx => ?_, fun _ => h.caught⟩
  rw [h.labels, or_iff_right fun hE => h.apart x hE (hn hx)]

/-- Where the balance is drawn: nothing is recorded but what is known, jumps to labels that have been
handed out weigh nothing, and nor does a `continue` that is left over. -/
structure Closing (w : Weight known) (t : Spot) : Prop where
  ends : w.Ends t.2
  jump : ∀ x ∈ t.2.names.reserved, w.jump x = 0
  left : t.2.hasFatal = false ∨ ∀ fr span label, w.own fr (.continueStmt span label) = 0

theorem Closing.before (h : Closing w t) (hst : Moves N s t) : Closing w s where
  ends := h.ends.before hst.steps
  jump x hx := h.jump x (hst.steps.grows.reserved hx)
  left := h.left.imp_left hst.steps.grows.hasFatal

/-- Between two states a tree has been visited, and its weight has been kept. -/
structure Weighed (w w' : Weight known) (N : List String) (fr : Frame) (s : Spot) (n n' : Node c)
    (t : Spot) : Prop where
  moves : Moves N s t
  labels : Sound N s → n.labelNames ⊆ N → n'.labelNames ⊆ t.2.names.reserved
  quiet : SameAims fr.around s.1 → (Measure.orphans known).of fr n = 0 →
    t.2.diagnostics = s.2.diagnostics
  balance : Sound N s → (w'.sees → n.labelNames ⊆ N ∧ fr.labels ⊆ N) → Closing w' t →
    ∀ (E : List String) (fr' : Frame), (w'.sees → Widens N E fr fr' ∧ filled t.1 ⊆ E ∧
      ∀ x ∈ n'.labelNames, x ∈ E → x ∈ filled t.1) →
        w'.of fr' n' + pending w' t.1 + w.held s.2.names =
          w.of fr n + pending w' s.1 + w.held t.2.names

/-- The parts of a tree have been visited one after the other. -/
structure WeighedAll (w w' : Weight known) (N : List String) (fr : Frame) (s : Spot)
    (l l' : List (Sigma Node)) (t : Spot) : Prop where
  moves : Moves N s t
  labels : Sound N s → (∀ k ∈ l, k.2.labelNames ⊆ N) →
    ∀ k ∈ l', k.2.labelNames ⊆ t.2.names.reserved
  quiet : SameAims fr.around s.1 → (∀ k ∈ l, (Measure.orphans known).of fr k.2 = 0) →
    t.2.diagnostics = s.2.diagnostics
  balance : Sound N s → (w'.sees → (∀ k ∈ l, k.2.labelNames ⊆ N) ∧ fr.labels ⊆ N) →
    Closing w' t → ∀ (E : List String) (fr' : Frame), (w'.sees → Widens N E fr fr' ∧
      filled t.1 ⊆ E ∧ ∀ k ∈ l', ∀ x ∈ k.2.labelNames, x ∈ E → x ∈ filled t.1) →
        (l'.map fun k => w'.of fr' k.2).sum + pending w' t.1 + w.held s.2.names =
          (l.map fun k => w.of fr k.2).sum + pending w' s.1 + w.held t.2.names

theorem weighedAll_of_visited {l l' : List (Sigma Node)}
    (h : Node.Visited (fun s {_} k k' t => Weighed w w' N fr s k k' t) s l l' t) :
    WeighedAll w w' N fr s l l' t := by
  induction h with
  | nil s => exact ⟨.refl s, fun _ _ => nofun, fun _ _ => rfl, fun _ _ _ _ _ _ => rfl⟩
  | @cons s t u d k k' l l' hk _ ih =>
    refine ⟨hk.moves.trans ih.moves, fun hs hN => ?_, fun haims hzero => ?_, ?_⟩
    · obtain ⟨hNk, hNl⟩ := List.forall_mem_cons.mp hN
      refine List.forall_mem_cons.mpr ⟨?_, ih.labels (hk.moves.sound hs) hNl⟩
      exact List.Subset.trans (hk.labels hs hNk) ih.moves.steps.grows.reserved
    · obtain ⟨hzk, hzl⟩ := List.forall_mem_cons.mp hzero
      exact (ih.quiet (haims.trans (.of_fill hk.moves.fill)) hzl).trans (hk.quiet haims hzk)
    · intro hs hN hclose E fr' hE
      have hbefore := hk.balance hs (fun h => ⟨(hN h).1 _ (.head _), (hN h).2⟩)
        (hclose.before ih.moves) E fr' fun h => by
          obtain ⟨hwide, hfilled, hnames⟩ := hE h
          refine ⟨hwide, List.Subset.trans (filled_subset ih.moves.fill) hfilled,
            fun x hx hxE => ?_⟩
          have hx' := hk.labels hs ((hN h).1 _ (.head _)) hx
          exact ih.moves.fresh x (hnames _ (.head _) x hx hxE) hx'
      have hafter := ih.balance (hk.moves.sound hs)
        (fun h => ⟨fun k hk => (hN h).1 k (.tail _ hk), (hN h).2⟩) hclose E fr' fun h => by
          obtain ⟨hwide, hfilled, hnames⟩ := hE h
          exact ⟨hwide, hfilled, fun k hk => hnames k (.tail _ hk)⟩
      simp only [List.map_cons, List.sum_cons]
      omega

variable (hturn : w.toMeasure.Turns w'.toMeasure Node.isContinue)
include hturn

/-- A node that is no `continue` counts in the new tree what it has counted in the old one. -/
theorem own_eq (hn : n.isContinue = false) (hparts : Node.Parts (fun k k' =>
      Node.SameOutline k k' ∧ (n.isSwitch = true → k.declSpans = k'.declSpans)) n n')
    (h : w'.sees → Widens N E fr fr' ∧ n.ownLabels ⊆ N) : w'.own fr' n' = w.own fr n := by
  rw [← w'.own_parts hparts, ← hturn.agree hn]
  exact w'.own_frame fun hs => (h hs).1.agrees (h hs).2

/-- A tree that only gets new parts. What its parts have around them may hold one target more. -/
theorem Weighed.of_parts {s₁ t₁ : Spot} (hn : n.isContinue = false)
    (hfun : n.isFunctionLike = false) (hparts : Node.Parts Node.Kept n n')
    (h : WeighedAll w w' N (fr.enter n) s₁ n.children n'.children t₁) (hmoves : Moves N s t)
    (hs : filled s₁.1 = filled s.1 ∧ s₁.2 = s.2) (ht : filled t₁.1 = filled t.1 ∧ t₁.2 = t.2)
    (haims : SameAims fr.around s.1 → SameAims (fr.enter n).around s₁.1) :
    Weighed w w' N fr s n n' t := by
  have hsound (hsound : Sound N s) : Sound N s₁ := by
    have hsub : (filled s₁.1).Sublist (filled s.1) := hs.1 ▸ List.Sublist.refl _
    exact hsound.of_sublist hsub (hs.2 ▸ List.Subset.refl _)
  have hown : n.ownLabels = n'.ownLabels := hparts.form_eq _ fun m => by cases m <;> rfl
  refine ⟨hmoves, fun hS hN x hx => ?_, fun ha hzero => ?_, fun hS hN hclose E fr' hE => ?_⟩
  · rcases Node.mem_labelNames.mp hx with hx | ⟨d, k, hk, hx⟩
    · rw [← hown] at hx
      exact (hmoves.sound hS).names (hN (Node.mem_labelNames.mpr (.inl hx)))
    · rw [← ht.2]
      exact h.labels (hsound hS) (fun k hk => Node.labelNames_part hN hk) _ hk hx
  · rw [← ht.2, ← hs.2]
    exact h.quiet (haims ha) (Weight.of_eq_zero.mp hzero).2
  · have hnode : w'.own fr' n' = w.own fr n :=
      own_eq hturn hn (hparts.imp fun _ hk => ⟨hk.outline, fun _ => hk.spans⟩) fun h =>
        ⟨(hE h).1, fun x hx => (hN h).1 (Node.mem_labelNames.mpr (.inl hx))⟩
    have hclose' : Closing w' t₁ := by
      rw [← Prod.mk.eta (p := t₁), ht.2]
      exact ⟨hclose.ends, hclose.jump, hclose.left⟩
    have hbalance := h.balance (hsound hS) (fun h => ⟨fun k hk => Node.labelNames_part (hN h).1 hk,
      Weight.labels_enter (hN h).2 (hN h).1⟩) hclose' E (fr'.enter n) fun h => by
        obtain ⟨hwide, hfilled, hnames⟩ := hE h
        rw [ht.1]
        exact ⟨hwide.enter hfun, hfilled, fun k hk x hx =>
          hnames x (Node.mem_labelNames.mpr (.inr ⟨_, _, hk, hx⟩))⟩
    simp only [pending, hs.1, ht.1, hs.2, ht.2] at hbalance
    rw [Measure.of_eq, Measure.of_eq, hnode, Measure.inner, Measure.inner, pending, pending,
      ← fr'.enter_eq hparts]
    omega

/-- A function, whose body has nothing around it. -/
theorem Weighed.function {cx cx' : Context} (hfun : n.isFunctionLike = true)
    (hparts : Node.Parts Node.Kept n n')
    (h : WeighedAll w w' N .top ([], cx) n.children n'.children ([], cx')) :
    Weighed w w' N fr (ts, cx) n n' (ts, cx') := by
  have hn : n.isContinue = false := by cases n <;> first | rfl | exact Bool.noConfusion hfun
  have htop (fr : Frame) : fr.enter n = .top := by
    cases n <;> first | rfl | exact Bool.noConfusion hfun
  have hlabels : n.ownLabels = [] := by cases n <;> first | rfl | exact Bool.noConfusion hfun
  have hsound (hsound : Sound N (ts, cx)) : Sound N ([], cx) :=
    hsound.of_sublist (List.nil_sublist _) (List.Subset.refl _)
  have hown : n.ownLabels = n'.ownLabels := hparts.form_eq _ fun m => by cases m <;> rfl
  refine ⟨(h.moves.outside ts).2, fun hS hN x hx => ?_, fun _ hzero => ?_,
    fun hS hN hclose E fr' hE => ?_⟩
  · rcases Node.mem_labelNames.mp hx with hx | ⟨d, k, hk, hx⟩
    · rw [← hown, hlabels] at hx
      cases hx
    · exact h.labels (hsound hS) (fun k hk => Node.labelNames_part hN hk) _ hk hx
  · refine h.quiet (.refl []) ?_
    rw [← htop fr]
    exact (Weight.of_eq_zero.mp hzero).2
  · have hnode : w'.own fr' n' = w.own fr n :=
      own_eq hturn hn (hparts.imp fun _ hk => ⟨hk.outline, fun _ => hk.spans⟩) fun h =>
        ⟨(hE h).1, hlabels ▸ List.nil_subset _⟩
    have hbalance := h.balance (hsound hS) (fun h => ⟨fun k hk => Node.labelNames_part (hN h).1 hk,
      List.nil_subset _⟩) ⟨hclose.ends, hclose.jump, hclose.left⟩ [] .top fun _ =>
        ⟨⟨rfl, by simp, nofun⟩, List.nil_subset _, fun _ _ _ _ => nofun⟩
    rw [Measure.of_eq, Measure.of_eq, hnode, Measure.inner, Measure.inner, ← fr'.enter_eq hparts,
      htop, htop]
    dsimp only at hbalance ⊢
    omega

omit hturn in
theorem of_labelBody {label : Ident} (h : w.sees → label.name ∉ fr.labels) (b : Stmt) :
    w.of fr (Continues.labelBody label b) =
      w.markLabel label.name + w.of (fr.label label.name) b := by
  rw [Continues.labelBody, Weight.of_labeled _ h, Measure.of_blockStmt, Measure.of_intoBlock]

omit hturn in
/-- Only the body of a loop looks at what stands around. -/
theorem inner_mapLoopBody {label : Ident} (h : w.sees → label.name ∉ fr.labels)
    (hn : n.isLoop = true) : w.inner fr (n.mapLoopBody (Continues.labelBody label)) =
      w.markLabel label.name +
        (n.children.map fun k => w.of (fr.loop.label label.name) k.2).sum := by
  have henter : fr.enter (n.mapLoopBody (Continues.labelBody label)) = fr.loop := by
    cases n <;> first | rfl | exact Bool.noConfusion hn
  have hloop : w.sees → label.name ∉ fr.loop.labels := h
  have hexpr (e : Expr) : w.of fr.loop e = w.of (fr.loop.label label.name) e :=
    Weight.of_eq_of_noStmts e rfl
  have hopt (e : Node (.opt .expr)) : w.of fr.loop e = w.of (fr.loop.label label.name) e :=
    Weight.of_eq_of_noStmts e rfl
  have hinit (i : Node (.opt .forInit)) : w.of fr.loop i = w.of (fr.loop.label label.name) i :=
    Weight.of_eq_of_noStmts i rfl
  have hhead (h : Node .forHead) : w.of fr.loop h = w.of (fr.loop.label label.name) h :=
    Weight.of_eq_of_noStmts h rfl
  rw [Measure.inner, henter]
  cases n
  all_goals
    first
      | exact Bool.noConfusion hn
      | simp only [Node.mapLoopBody, Node.children, List.map_cons, List.map_nil, List.sum_cons,
          List.sum_nil, of_labelBody hloop, hexpr, hopt, hinit, hhead]
        omega

omit hturn in
/-- The labels of a loop whose body gets a label. -/
theorem labelNames_mapLoopBody {label : Ident} {R : List String} (hn : n.isLoop = true) :
    (n.mapLoopBody (Continues.labelBody label)).labelNames ⊆ R ↔
      label.name ∈ R ∧ ∀ k ∈ n.children, k.2.labelNames ⊆ R := by
  let L := Weight.labelsOutside [] R
  have hof {d : Cat} {fr : Frame} {k : Node d} : L.of fr k = 0 ↔ k.labelNames ⊆ R :=
    Weight.labelsOutside_eq_zero
  have hlabels : (n.mapLoopBody (Continues.labelBody label)).ownLabels = [] := by
    cases n <;> first | rfl | exact Bool.noConfusion hn
  have hown : L.own .top (n.mapLoopBody (Continues.labelBody label)) = 0 := by
    simp [L, Weight.labelsOutside, hlabels]
  have hmark : L.markLabel label.name = 0 ↔ label.name ∈ R := by simp [L, Weight.labelsOutside]
  have hinner : L.inner .top (n.mapLoopBody (Continues.labelBody label)) = _ :=
    inner_mapLoopBody False.elim hn
  have htop : L.of .top (n.mapLoopBody (Continues.labelBody label)) = 0 ↔ _ := hof
  rw [← htop, Measure.of_eq, hown, hinner, Nat.zero_add, Nat.add_eq_zero_iff, hmark,
    List.sum_eq_zero_iff_forall_eq_nat, List.forall_mem_map]
  exact and_congr_right fun _ => forall₂_congr fun k _ => hof

omit hturn in
theorem parts_mapLoopBody {f : Stmt → Stmt} {n₁ : Node c} (hn : n.isLoop = true)
    (h : Node.Parts Node.Kept n n₁) : Node.Parts (fun k k' =>
      Node.SameOutline k k' ∧ (n.isSwitch = true → k.declSpans = k'.declSpans)) n
        (n₁.mapLoopBody f) := by
  have houtline : Node.Parts Node.SameOutline n (n₁.mapLoopBody f) := by
    cases n with
    | whileStmt | doWhileStmt =>
      obtain ⟨a, ha, b, hb, rfl⟩ := h
      exact ⟨a, ha.outline, f b, .of_isMute rfl _ _, rfl⟩
    | forInStmt | forOfStmt =>
      obtain ⟨a, ha, b, hb, b', hb', rfl⟩ := h
      exact ⟨a, ha.outline, b, hb.outline, f b', .of_isMute rfl _ _, rfl⟩
    | forStmt =>
      obtain ⟨a, ha, b, hb, b', hb', b'', hb'', rfl⟩ := h
      exact ⟨a, ha.outline, b, hb.outline, b', hb'.outline, f b'', .of_isMute rfl _ _, rfl⟩
    | _ => cases hn
  have hswitch : n.isSwitch = false := by cases n <;> first | rfl | exact Bool.noConfusion hn
  exact houtline.imp fun _ hk => ⟨hk, fun hs => Bool.noConfusion (hswitch.symm.trans hs)⟩

/-- A loop whose body has got a label. -/
theorem Weighed.loop {us : List JumpTarget} {cx cx' : Context} {label : Ident} {n₁ : Node c}
    (hloop : n.isLoop = true) (hparts : Node.Parts Node.Kept n n₁)
    (h : WeighedAll w w' N fr.loop (.loop none :: ts, cx) n.children n₁.children
      (.loop (some label) :: us, cx')) :
    Weighed w w' N fr (ts, cx) n (n₁.mapLoopBody (Continues.labelBody label)) (us, cx') := by
  have hn : n.isContinue = false := by cases n <;> first | rfl | exact Bool.noConfusion hloop
  have hloop₁ : n₁.isLoop = true :=
    (hparts.form_eq Node.isLoop fun m => by cases m <;> rfl).symm.trans hloop
  have henter (fr : Frame) : fr.enter n = fr.loop := by
    cases n <;> first | rfl | exact Bool.noConfusion hloop
  obtain ⟨_, _, _, heq, -, hmoves⟩ := h.moves.pop rfl
  cases heq
  have hsound (hsound : Sound N (ts, cx)) : Sound N (.loop none :: ts, cx) :=
    hsound.of_sublist (List.Sublist.refl _) (List.Subset.refl _)
  refine ⟨hmoves, fun hS hN => ?_, fun ha hzero => ?_, fun hS hN hclose E fr' hE => ?_⟩
  · refine (labelNames_mapLoopBody hloop₁).mpr ⟨?_, ?_⟩
    · exact (h.moves.sound (hsound hS)).known (.head _)
    · exact h.labels (hsound hS) fun k hk => Node.labelNames_part hN hk
  · refine h.quiet (ha.cons (.loop none)) ?_
    rw [← henter]
    exact (Weight.of_eq_zero.mp hzero).2
  · have hend := h.moves.sound (hsound hS)
    obtain ⟨hmem, hnames⟩ := (labelNames_mapLoopBody hloop₁).mp (List.Subset.refl
      (n₁.mapLoopBody (Continues.labelBody label)).labelNames)
    have hnode : w'.own fr' (n₁.mapLoopBody (Continues.labelBody label)) = w.own fr n :=
      own_eq hturn hn (parts_mapLoopBody hloop hparts) fun h =>
        ⟨(hE h).1, fun x hx => (hN h).1 (Node.mem_labelNames.mpr (.inl hx))⟩
    have hfresh : w'.sees → label.name ∉ fr'.labels := by
      intro hs hlabel
      obtain ⟨hwide, hfilled, hE⟩ := hE hs
      rcases (hwide.labels _).mp hlabel with hlabel | hlabel
      · exact (List.nodup_cons.mp hend.nodup).1 (hE _ hmem hlabel)
      · exact hend.fresh _ (.head _) ((hN hs).2 hlabel)
    have hbalance := h.balance (hsound hS) (fun h => ⟨fun k hk => Node.labelNames_part (hN h).1 hk,
      (hN h).2⟩) ⟨hclose.ends, hclose.jump, hclose.left⟩ (label.name :: E)
        (fr'.loop.label label.name) fun hs => by
          obtain ⟨hwide, hfilled, hE⟩ := hE hs
          refine ⟨⟨rfl, fun x => ?_, ?_⟩, List.cons_subset_cons _ hfilled, fun k hk x hx hxE => ?_⟩
          · simp only [Frame.labels_label, Frame.labels_loop, List.mem_cons, hwide.labels]
            exact or_assoc.symm
          · exact List.forall_mem_cons.mpr ⟨hend.fresh _ (.head _), hwide.apart⟩
          · rcases List.mem_cons.mp hxE with rfl | hxE
            · exact .head _
            · exact .tail _ (hE x (hnames k hk hx) hxE)
    rw [Measure.of_eq, Measure.of_eq, hnode, inner_mapLoopBody hfresh hloop₁, Measure.inner, henter]
    dsimp only at hbalance ⊢
    simp only [pending, filled_loop_none, filled_loop_some, List.map_cons, List.sum_cons]
      at hbalance ⊢
    omega

omit hturn in
/-- After a violation something fatal has been recorded. -/
theorem violate_spec (cx : Context) (fault : LabelFault) (span : Span) :
    cx.Steps (cx.violate fault span) ∧ (cx.violate fault span).hasFatal = true ∧
      (cx.violate fault span).names = cx.names := by
  unfold Context.violate
  split
  next h => exact ⟨.refl, h, rfl⟩
  next h =>
    refine ⟨.record _ (fun _ => by simpa using h) .refl, ?_, rfl⟩
    simp [Context.hasFatal, Context.record, LabelFault.diagnostic, Diagnostic.isFatal]

omit hturn in
theorem Moves.bodyLabelAt {pre post : List JumpTarget} {b : Option Ident} {cx cx' : Context}
    {label : Ident} (h : b = some label ∧ cx' = cx ∨ b = none ∧
      label = .ofName (cx.names.pick "L") ∧
        cx' = { cx with names := (cx.names.freshLabel "L").2 }) :
    Moves N (pre ++ .loop b :: post, cx) (pre ++ .loop (some label) :: post, cx') := by
  have hlater : Later N (pre ++ .loop b :: post, cx) (pre ++ .loop (some label) :: post, cx') :=
    .bodyLabelAt h
  obtain ⟨hfill, -, -, hsound⟩ := hlater
  obtain ⟨rfl, rfl⟩ | ⟨rfl, rfl, rfl⟩ := h
  · exact .refl _
  · refine ⟨hfill, .freshLabel "L" (by decide) .refl, fun x hx hs => ?_, hsound⟩
    simp only [filled_append, filled_loop_some, filled_loop_none, List.mem_append, List.mem_cons]
      at hx ⊢
    refine hx.imp_right fun hx => hx.resolve_left ?_
    rintro rfl
    exact cx.names.pick_notMem "L" hs

/-- A `continue` becomes a `break` out of the body of its loop, or it is reported. -/
theorem Weighed.continue (span : Span) (label : Option Ident) (s : Spot) :
    let r := (replacing N).run (Continues.replace span label) s
    Weighed w w' N fr s (.continueStmt span label) r.1 r.2 := by
  obtain ⟨ts, cx⟩ := s
  have hold : w.of fr (.continueStmt span label) = 0 := by
    rw [Measure.of_eq, hturn.rewritten rfl]
    rfl
  cases hres : resolve ts label with
  | error fault =>
    have hrun : (replacing N).run (Continues.replace span label) (ts, cx) =
        (.continueStmt span label, ts, cx.violate fault span) := by
      unfold Continues.replace
      simp only [(replacing N).run_bind, run_get, hres]
      rfl
    obtain ⟨hsteps, hfatal, hnames⟩ := violate_spec cx fault span
    rw [hrun]
    refine ⟨⟨(Moves.refl (N := N) (ts, cx)).fill, hsteps, fun _ hx _ => hx, fun hS => ?_⟩,
      fun hS hN => ?_, fun ha hzero => ?_, fun hS hN hclose E fr' hE => ?_⟩
    · exact hS.of_sublist (List.Sublist.refl _) hsteps.grows.reserved
    · exact List.Subset.trans hN (List.Subset.trans hS.names hsteps.grows.reserved)
    · have hown := (Weight.of_eq_zero.mp hzero).1
      simp [Measure.orphans, Frame.isOrphan, ha.resolve_eq, hres, Except.isOk, Except.toBool]
        at hown
    · have hleft := hclose.left.resolve_left (by simp [hfatal])
      have hnew : w'.of fr' (.continueStmt span label) = 0 := by
        rw [Measure.of_eq, hleft]
        rfl
      dsimp only
      rw [hold, hnew, hnames]
  | ok i =>
    obtain ⟨pre, b, post, rfl, rfl⟩ := split_of_resolve hres
    obtain ⟨target, cx', hbody, hlabel⟩ := run_bodyLabelAt (N := N) pre post b cx
    have hrun : (replacing N).run (Continues.replace span label) (pre ++ .loop b :: post, cx) =
        (Node.Build.breakTo (some target), pre ++ .loop (some target) :: post, cx') := by
      unfold Continues.replace
      simp only [(replacing N).run_bind, run_get, hres, hbody]
      rfl
    have hmoves : Moves N (pre ++ .loop b :: post, cx)
        (pre ++ .loop (some target) :: post, cx') := .bodyLabelAt hlabel
    have hmem : target.name ∈ filled (pre ++ .loop (some target) :: post) := by simp
    rw [hrun]
    refine ⟨hmoves, fun hS hN x hx => ?_, fun _ _ => ?_, fun hS hN hclose E fr' hE => ?_⟩
    · rcases Node.mem_labelNames.mp hx with hx | ⟨_, _, hk, _⟩
      · obtain rfl := List.mem_singleton.mp hx
        exact (hmoves.sound hS).known hmem
      · cases hk
    · obtain ⟨-, rfl⟩ | ⟨-, -, rfl⟩ := hlabel <;> rfl
    · have hnew : w'.of fr' (Node.Build.breakTo (some target)) = 0 := by
        rw [Measure.of_eq, Node.Build.breakTo, w'.own_break fun hs =>
          ((hE hs).1.labels _).mpr (.inl ((hE hs).2.1 hmem)),
          hclose.jump _ ((hmoves.sound hS).known hmem)]
        rfl
      rw [hold, hnew]
      obtain ⟨rfl, rfl⟩ | ⟨rfl, rfl, rfl⟩ := hlabel
      · rfl
      · have hheld := w'.held_freshLabel cx.names "L"
        rw [hturn.held] at hheld
        simp only [pending, filled_append, filled_loop_some, filled_loop_none, List.map_append,
          List.map_cons, List.sum_append, List.sum_cons, hheld]
        change _ = _ + (w'.markLabel (Ident.ofName (cx.names.pick "L")).name + _)
        omega

omit hturn in
theorem declSpans_mapLoopBody (f : Stmt → Stmt) (n : Node c) :
    (n.mapLoopBody f).declSpans = n.declSpans := by cases n <;> rfl

omit hturn in
/-- The pass keeps what a tree declares on its surface. -/
theorem kept_replaceContinuesIn (n : Node c) (s : Spot) :
    Node.Kept n ((replacing N).run (replaceContinuesIn n) s).1 := by
  induction c, n using replaceContinuesIn.induct generalizing s with
  | case1 span label body =>
    rw [replaceContinuesIn, (replacing N).run_bind]
    exact ⟨.of_isMute rfl _ _, rfl⟩
  | case2 span label =>
    rw [replaceContinuesIn]
    unfold Continues.replace
    simp only [(replacing N).run_bind, run_get]
    cases resolve s.1 label <;> exact ⟨.of_isMute rfl _ _, rfl⟩
  | case3 c n hlabel hcontinue hloop ih =>
    obtain rfl : c = .stmt := by cases n <;> first | rfl | exact Bool.noConfusion hloop
    refine ⟨.of_isMute rfl _ _, ?_⟩
    rw [replaceContinuesIn.eq_3 n hlabel hcontinue, if_pos hloop, (replacing N).run_bind,
      run_inside]
    have hspans := (Node.Kept.of_parts (Node.parts_traverse (replacing N)
      (fun k hk s => ih k hk s) (.loop none :: s.1, s.2))).spans
    generalize (replacing N).run (n.traverse _) _ = r at hspans ⊢
    dsimp only
    split
    · exact hspans.trans (declSpans_mapLoopBody _ r.1).symm
    · exact hspans
  | case4 c n hlabel hcontinue hloop hfun ih =>
    rw [replaceContinuesIn.eq_3 n hlabel hcontinue, if_neg hloop, if_pos hfun, run_isolated]
    exact .of_parts (Node.parts_traverse (replacing N) (fun k hk s => ih k hk s) _)
  | case5 c n hlabel hcontinue hloop hfun ih =>
    rw [replaceContinuesIn.eq_3 n hlabel hcontinue, if_neg hloop, if_neg hfun]
    exact .of_parts (Node.parts_traverse (replacing N) (fun k hk s => ih k hk s) _)

omit hturn in
theorem weighedAll_traverse (ih : ∀ {d : Cat} (k : Node d), ⟨d, k⟩ ∈ n.children →
      ∀ (fr : Frame) (s : Spot), let r := (replacing N).run (replaceContinuesIn k) s
        Weighed w w' N fr s k r.1 r.2) (fr : Frame) (s : Spot) :
    let r := (replacing N).run (n.traverse fun k _ => replaceContinuesIn k) s
    WeighedAll w w' N fr s n.children r.1.children r.2 ∧ Node.Parts Node.Kept n r.1 := by
  obtain ⟨hvisited, hparts⟩ := Node.visited_traverse (replacing N)
    (V := fun s {_} k k' t => Weighed w w' N fr s k k' t ∧ Node.Kept k k')
    (fun k hk s => ⟨ih k hk fr s, kept_replaceContinuesIn k s⟩) s
  refine ⟨weighedAll_of_visited (hvisited.imp fun _ h => h.1), hparts.imp fun _ h => ?_⟩
  obtain ⟨_, _, h⟩ := h
  exact h.2

/-- The pass keeps the weight of a tree. -/
theorem weighed (n : Node c) (fr : Frame) (s : Spot) :
    let r := (replacing N).run (replaceContinuesIn n) s
    Weighed w w' N fr s n r.1 r.2 := by
  induction c, n using replaceContinuesIn.induct generalizing fr s with
  | case1 span label body ih =>
    obtain ⟨ts, cx⟩ := s
    rw [replaceContinuesIn, (replacing N).run_bind, run_inside]
    have hbody := ih (fr.label label.name) (.labeled label.name :: ts, cx)
    have hkept : Node.Kept body _ :=
      kept_replaceContinuesIn (N := N) body (.labeled label.name :: ts, cx)
    generalize (replacing N).run (replaceContinuesIn body) _ = r at hbody hkept ⊢
    obtain ⟨body', u⟩ := r
    obtain ⟨target', ts', cx', rfl, hfill, hmoves⟩ := hbody.moves.pop rfl
    cases hfill
    have hall : WeighedAll w w' N (fr.label label.name) (.labeled label.name :: ts, cx)
        [⟨.stmt, body⟩] [⟨.stmt, body'⟩] (.labeled label.name :: ts', cx') :=
      weighedAll_of_visited (.cons hbody (.nil _))
    exact .of_parts hturn rfl rfl ⟨body', hkept, rfl⟩ hall hmoves ⟨rfl, rfl⟩ ⟨rfl, rfl⟩
      fun ha => ha.cons (.labeled label.name)
  | case2 span label =>
    rw [replaceContinuesIn]
    exact .continue hturn span label s
  | case3 c n hlabel hcontinue hloop ih =>
    obtain ⟨ts, cx⟩ := s
    have henter : fr.enter n = fr.loop := by
      cases n <;> first | rfl | exact Bool.noConfusion hloop
    have hfun : n.isFunctionLike = false := by
      cases n <;> first | rfl | exact Bool.noConfusion hloop
    rw [replaceContinuesIn.eq_3 n hlabel hcontinue, if_pos hloop, (replacing N).run_bind,
      run_inside]
    obtain ⟨hall, hparts⟩ := weighedAll_traverse ih fr.loop (.loop none :: ts, cx)
    generalize (replacing N).run (n.traverse _) _ = r at hall hparts ⊢
    obtain ⟨n₁, u⟩ := r
    obtain ⟨target', ts', cx', rfl, hfill, hmoves⟩ := hall.moves.pop rfl
    cases hfill with
    | same =>
      rw [← henter] at hall
      exact .of_parts hturn (Node.isContinue_eq_false hcontinue) hfun hparts hall hmoves ⟨rfl, rfl⟩
        ⟨rfl, rfl⟩ fun ha => henter ▸ ha.cons (.loop none)
    | fill label => exact .loop hturn hloop hparts hall
  | case4 c n hlabel hcontinue hloop hfun ih =>
    obtain ⟨ts, cx⟩ := s
    rw [replaceContinuesIn.eq_3 n hlabel hcontinue, if_neg hloop, if_pos hfun, run_isolated]
    obtain ⟨hall, hparts⟩ := weighedAll_traverse ih .top ([], cx)
    generalize (replacing N).run (n.traverse _) _ = r at hall hparts ⊢
    obtain ⟨n₁, u⟩ := r
    obtain ⟨hu, -⟩ := hall.moves.outside ts
    rw [hu] at hall
    exact .function hturn hfun hparts hall
  | case5 c n hlabel hcontinue hloop hfun ih =>
    have haround : (fr.enter n).around = fr.around := by
      unfold Frame.enter
      split
      · exact (hlabel _ _ _ rfl .rfl).elim
      · rfl
      · rw [if_neg hloop, if_neg hfun]
    rw [replaceContinuesIn.eq_3 n hlabel hcontinue, if_neg hloop, if_neg hfun]
    obtain ⟨hall, hparts⟩ := weighedAll_traverse ih (fr.enter n) s
    exact .of_parts hturn (Node.isContinue_eq_false hcontinue) (by simpa using hfun) hparts
      hall hall.moves ⟨rfl, rfl⟩ ⟨rfl, rfl⟩ fun ha => haround.symm ▸ ha

/-- Replacing every `continue` keeps the weight of a program, and the supply knows its labels if it
has known them before. -/
theorem weighed_replaceContinues {p : Program} {cx : Context} (hN : N ⊆ cx.names.reserved)
    (hlabels : w'.sees → p.labelNames ⊆ N) :
    let r := (replaceContinues p).run cx
    cx.Steps r.2 ∧ (p.labelNames ⊆ N → r.1.labelNames ⊆ r.2.names.reserved) ∧
      ((Measure.orphans known).of .top p = 0 → r.2.diagnostics = cx.diagnostics) ∧
      (Closing w' ([], r.2) →
        w'.of .top r.1 + w.held cx.names = w.of .top p + w.held r.2.names) := by
  have h := weighed (N := N) hturn p .top ([], cx)
  have hs : Sound N ([], cx) := ⟨.nil, nofun, List.nil_subset _, hN⟩
  obtain ⟨hu, -⟩ := h.moves.outside []
  change let r := (replacing N).run (replaceContinuesIn p) ([], cx)
    cx.Steps r.2.2 ∧ (_ → r.1.labelNames ⊆ r.2.2.names.reserved) ∧
      (_ → r.2.2.diagnostics = _) ∧ (Closing w' ([], r.2.2) →
        w'.of .top r.1 + w.held cx.names = w.of .top p + w.held r.2.2.names)
  generalize (replacing N).run (replaceContinuesIn p) ([], cx) = r at h hu
  obtain ⟨p', ts, cx'⟩ := r
  cases hu
  refine ⟨h.moves.steps, h.labels hs, h.quiet (.refl []), fun hclose => ?_⟩
  exact h.balance hs (fun hs => ⟨hlabels hs, List.nil_subset _⟩) hclose [] .top fun _ =>
    ⟨⟨rfl, by simp, nofun⟩, List.nil_subset _, fun _ _ => nofun⟩

end

end PlainJs

import PlainJs.Proofs.Continues.Redirected
import PlainJs.Proofs.FreshNames

namespace PlainJs

open Around (landing catches labels Chain Fits)
open Effect Run Interp Comparison

variable {U V : Type} {N : List String} {env : List Around} {chain : List String}
  {ts ts' : List JumpTarget}

/-- The state of the pass: the statements around, and the context. -/
abbrev Spot := List JumpTarget × Context

/-- The body labels are new, all different, and the supply knows them and the names in `N`. -/
structure Sound (N : List String) (s : Spot) : Prop where
  nodup : (filled s.1).Nodup
  fresh : ∀ x ∈ filled s.1, x ∉ N
  known : filled s.1 ⊆ s.2.names.reserved
  names : N ⊆ s.2.names.reserved

/-- How the state of the pass may change where every `continue` has its loop. -/
structure Later (N : List String) (s t : Spot) : Prop where
  fill : List.Forall₂ JumpTarget.Fill s.1 t.1
  reserved : s.2.names.reserved ⊆ t.2.names.reserved
  diagnostics : t.2.diagnostics = s.2.diagnostics
  sound : Sound N s → Sound N t

namespace Later

variable {s t u : Spot}

theorem refl (s : Spot) : Later N s s where
  fill := List.forall₂_same.mpr fun t _ => .same t
  reserved := List.Subset.refl _
  diagnostics := rfl
  sound := id

theorem trans (h : Later N s t) (h' : Later N t u) : Later N s u where
  fill := fill_trans h.fill h'.fill
  reserved := List.Subset.trans h.reserved h'.reserved
  diagnostics := h'.diagnostics.trans h.diagnostics
  sound hs := h'.sound (h.sound hs)

end Later

/-- The pass as a run on the state. -/
def replacing (N : List String) : Course LowerIn Spot where
  run x s :=
    let r := (x.run s.1).run s.2
    (r.1.1, r.1.2, r.2)
  run_pure _ _ := rfl
  run_bind _ _ _ := rfl
  Le := Later N
  refl := Later.refl
  trans := Later.trans

variable {s t : Spot}

theorem Sound.of_sublist {cx cx' : Context} (h : Sound N (ts, cx))
    (hts : (filled ts').Sublist (filled ts)) (hcx : cx.names.reserved ⊆ cx'.names.reserved) :
    Sound N (ts', cx') where
  nodup := h.nodup.sublist hts
  fresh x hx := h.fresh x (hts.subset hx)
  known _ hx := hcx (h.known (hts.subset hx))
  names _ hx := hcx (h.names hx)

/-- What holds at a place in the program that the pass visits. -/
structure Visiting (N : List String) (env : List Around) (chain : List String) (s : Spot) :
    Prop where
  chain : Chain env chain
  fits : List.Forall₂ Fits env s.1
  nodup : (labels env).Nodup
  subset : labels env ⊆ N
  sound : Sound N s

theorem Visiting.later (h : Visiting N env chain s) (hst : Later N s t) :
    Visiting N env chain t :=
  { h with fits := fits_of_fill h.fits hst.fill, sound := hst.sound h.sound }

/-- What the pass makes of a tree. -/
structure Replaced (N : List String) (env : List Around) (chain : List String) (s : Spot)
    {c : Cat} (n n' : Node c) : Prop where
  free : n'.hasContinue = false
  kin : ∀ {U V : Type} (I : Interp U V) (temps : List String),
    (aimed N env s.1).Kin I temps (· = chain) n n'

theorem Replaced.later {c : Cat} {n n' : Node c} (h : Replaced N env chain s n n')
    (hst : Later N s t) : Replaced N env chain t n n' where
  free := h.free
  kin I temps :=
    (h.kin I temps).mono (fun hq => hq.mono (landing_of_fill hst.fill)) fun _ => id

theorem Later.pop {target : JumpTarget} {cx : Context} {u : Spot}
    (ht : target.bodyLabel = none) (h : Later N (target :: ts, cx) u) :
    ∃ target' ts' cx', u = (target' :: ts', cx') ∧ target.Fill target' ∧
      Later N (ts, cx) (ts', cx') := by
  obtain ⟨us, cx'⟩ := u
  obtain ⟨hfill, hreserved, hdiag, hsound⟩ := h
  cases hfill with
  | @cons _ target' _ ts' hf hfill =>
    refine ⟨target', ts', cx', rfl, hf, hfill, hreserved, hdiag, fun hs => ?_⟩
    have hfilled : filled (target :: ts) = filled ts := by
      rw [filled, List.filterMap_cons, ht]
      rfl
    have hs' : Sound N (target :: ts, cx) :=
      hs.of_sublist (hfilled ▸ List.Sublist.refl _) (List.Subset.refl _)
    exact (hsound hs').of_sublist ((List.sublist_cons_self ..).filterMap _) (List.Subset.refl _)

theorem run_inside {α : Type} (target : JumpTarget) (m : LowerIn α) (s : Spot) :
    (replacing N).run (Continues.inside target m) s =
      let r := (replacing N).run m (target :: s.1, s.2)
      ((r.1, r.2.1.headD target), r.2.1.tail, r.2.2) := rfl

theorem run_isolated {α : Type} (m : LowerIn α) (s : Spot) :
    (replacing N).run (Continues.isolated m) s =
      let r := (replacing N).run m ([], s.2)
      (r.1, s.1, r.2.2) := rfl

theorem Replaced.labeled {span : Span} {label : Ident} {body body' : Stmt} {cx : Context}
    (hchain : Chain env chain) (hl : label.name ∉ labels env) (hN : label.name ∈ N)
    (hs : Sound N (ts, cx))
    (h : Replaced N (.label label.name :: env) (label.name :: chain) (.labeled label.name :: ts, cx)
      body body') :
    Replaced N env chain (ts, cx) (.labeledStmt span label body)
      (.labeledStmt span label body') where
  free := Node.hasContinue_eq_false.mpr ⟨rfl, List.forall_mem_singleton.mpr h.free⟩
  kin I temps := by
    have hkin := h.kin I temps
    have hparts : Node.Parts ((aimed N _ _).Kin I temps _) (.labeledStmt span label body)
        (.labeledStmt span label body') := ⟨body', hkin, rfl⟩
    refine .of_exec ?_ (functionMeanings_of_parts rfl hparts)
    rintro i _ rfl
    rw [exec_labeledStmt, exec_labeledStmt]
    exact sim_labeled (hkin.exec i _ rfl) fun _ _ =>
      Redirected.leave_label hchain hl hN hs.fresh

/-- The names of the body labels stay apart when one more is made. -/
theorem Later.fill_at {pre post : List JumpTarget} {cx cx' : Context} {label : Ident}
    (hlabel : label.name ∉ cx.names.reserved)
    (hreserved : cx'.names.reserved = label.name :: cx.names.reserved)
    (hdiag : cx'.diagnostics = cx.diagnostics) :
    Later N (pre ++ .loop none :: post, cx) (pre ++ .loop (some label) :: post, cx') where
  fill := List.rel_append (List.forall₂_same.mpr fun t _ => .same t)
    (.cons (.fill label) (List.forall₂_same.mpr fun t _ => .same t))
  reserved := hreserved ▸ List.subset_cons_self _ _
  diagnostics := hdiag
  sound h := by
    obtain ⟨hnodup, hfresh, hknown, hnames⟩ := h
    simp only [filled_append, filled_loop_none] at hnodup hfresh hknown
    have hmem : ∀ x, x ∈ filled pre ++ label.name :: filled post ↔
        x = label.name ∨ x ∈ filled pre ++ filled post := by
      simp only [List.mem_append, List.mem_cons]
      tauto
    constructor
    · simp only [filled_append, filled_loop_some]
      exact List.nodup_middle.mpr
        (List.nodup_cons.mpr ⟨fun h => hlabel (hknown h), hnodup⟩)
    · simp only [filled_append, filled_loop_some, hmem]
      rintro x (rfl | hx)
      · exact fun h => hlabel (hnames h)
      · exact hfresh x hx
    · intro x hx
      simp only [filled_append, filled_loop_some, hmem] at hx
      rw [hreserved]
      exact List.mem_cons.mpr (hx.imp_right fun h => hknown h)
    · rw [hreserved]
      exact fun x hx => .tail _ (hnames hx)

theorem run_get (s : Spot) : (replacing N).run get s = (s.1, s) := rfl

/-- The body of the loop at a place has a label already, or gets a new one. -/
theorem run_bodyLabelAt (pre post : List JumpTarget) (b : Option Ident) (cx : Context) :
    ∃ label cx', (replacing N).run (Continues.bodyLabelAt pre.length)
        (pre ++ .loop b :: post, cx) = (label, pre ++ .loop (some label) :: post, cx') ∧
      (b = some label ∧ cx' = cx ∨ b = none ∧ label = .ofName (cx.names.pick "L") ∧
        cx' = { cx with names := (cx.names.freshLabel "L").2 }) := by
  have hget : (pre ++ .loop b :: post)[pre.length]?.bind JumpTarget.bodyLabel = b := by
    rw [List.getElem?_append_right (Nat.le_refl _), Nat.sub_self]
    rfl
  unfold Continues.bodyLabelAt
  simp only [(replacing N).run_bind, run_get, hget]
  cases b with
  | some label => exact ⟨label, cx, rfl, .inl ⟨rfl, rfl⟩⟩
  | none =>
    have hset (label : Ident) : (pre ++ .loop none :: post).set pre.length (.loop (some label)) =
        pre ++ .loop (some label) :: post := by simp
    refine ⟨.ofName (cx.names.pick "L"), _, ?_, .inr ⟨rfl, rfl, rfl⟩⟩
    rw [← hset]
    rfl

theorem Later.bodyLabelAt {pre post : List JumpTarget} {b : Option Ident} {cx cx' : Context}
    {label : Ident} (h : b = some label ∧ cx' = cx ∨ b = none ∧
      label = .ofName (cx.names.pick "L") ∧
        cx' = { cx with names := (cx.names.freshLabel "L").2 }) :
    Later N (pre ++ .loop b :: post, cx) (pre ++ .loop (some label) :: post, cx') := by
  obtain ⟨rfl, rfl⟩ | ⟨rfl, rfl, rfl⟩ := h
  · exact .refl _
  · exact .fill_at (cx.names.pick_notMem "L") rfl rfl

theorem Replaced.continue {span : Span} {label : Option Ident} {target : Ident}
    (h : landing env s.1 (label.map (·.name)) = some target.name) :
    Replaced N env chain s (.continueStmt span label) (Node.Build.breakTo (some target)) where
  free := Node.hasContinue_eq_false.mpr ⟨rfl, List.forall_mem_nil _⟩
  kin I temps := by
    refine .of_exec (fun i labels _ => ?_) ?_
    · rw [exec_continueStmt, Node.Build.breakTo, exec_breakStmt]
      exact .pure (.continue h)
    · change I.functionMeanings temps _ = I.functionMeanings temps _
      rw [functionMeanings_eq, functionMeanings_eq]
      rfl

theorem meets_replace {span : Span} {label : Option Ident} (hs : Visiting N env chain s)
    (hl : env.any (catches (label.map (·.name))) = true) :
    (replacing N).Meets s (Continues.replace span label) fun t =>
      ⟨Replaced N env chain t (.continueStmt span label)⟩ := by
  rintro ⟨ts, cx⟩ hst
  obtain ⟨hchain, hfit, hnodup, -, hsound⟩ := hs.later hst
  obtain ⟨pre, b, post, rfl, hres, hland⟩ := resolve_eq hchain hfit hnodup hl
  obtain ⟨target, cx', hrun, hlabel⟩ := run_bodyLabelAt (N := N) pre post b cx
  have hreplace : (replacing N).run (Continues.replace span label) (pre ++ .loop b :: post, cx) =
      (Node.Build.breakTo (some target), pre ++ .loop (some target) :: post, cx') := by
    unfold Continues.replace
    simp only [(replacing N).run_bind, run_get, hres, hrun]
    rfl
  rw [hreplace]
  exact ⟨.bodyLabelAt hlabel, .continue (hland (some target))⟩

/-- The label of the body of a loop, if the pass has made one. -/
def labelBody? (b : Option Ident) (s : Stmt) : Stmt :=
  match b with
  | some label => Continues.labelBody label s
  | none => s

theorem mapLoopBody_none {c : Cat} (n : Node c) : n.mapLoopBody (labelBody? none) = n := by
  cases n <;> rfl

theorem Replaced.loop {s s₁ : Stmt} {b : Option Ident} {cx : Context} (hloop : s.isLoop = true)
    (hs : Sound N (.loop b :: ts, cx))
    (h : Node.Parts (Replaced N (.loop chain :: env) [] (.loop b :: ts, cx)) s s₁) :
    Replaced N env chain (ts, cx) s (s₁.mapLoopBody (labelBody? b)) where
  free := by
    have hfree : s₁.hasContinue = false := by
      refine Node.hasContinue_of_parts h ?_ fun hk => hk.free
      cases s <;> first | rfl | exact Bool.noConfusion hloop
    rw [Node.hasContinue_mapLoopBody, hfree]
    intro b'
    cases b with
    | none => rfl
    | some label => exact hasContinue_labelBody label b'
  kin I temps := by
    have hparts := h.imp fun _ hk => hk.kin I temps
    refine .of_exec ?_ ?_
    · rintro i _ rfl
      refine Kin.exec_loop (K := aimed N env ts) (L := (· = [])) hloop rfl (exact_tame s) hparts
        BodyRel.loopRel (fun i hb => ?_) i
      cases b with
      | none => exact hb.mono fun _ _ hc => hc.bodyRel
      | some label =>
        exact sim_labelBody (List.nodup_cons.mp hs.nodup).1 (hs.fresh _ (.head _)) hb
    · refine (functionMeanings_of_parts ?_ hparts).trans ?_
      · cases s <;> rfl
      · refine (functionMeanings_mapLoopBody (fun b' => ?_) s₁).symm
        cases b with
        | none => rfl
        | some label => exact functionMeanings_labelBody I temps label b'

theorem Replaced.function {c : Cat} {n n' : Node c} {cx : Context}
    (hfun : n.isFunctionLike = true) (h : Node.Parts (Replaced N [] [] ([], cx)) n n') :
    Replaced N env chain (ts, cx) n n' where
  free := by
    refine Node.hasContinue_of_parts h ?_ fun hk => hk.free
    cases n <;> first | rfl | exact Bool.noConfusion hfun
  kin I temps := by
    have hplain : n.isPlain = true := by
      cases n <;> first | rfl | exact Bool.noConfusion hfun
    have hkin : (aimed N [] []).Kin I temps (fun _ => True) n n' :=
      .of_parts (L := (· = [])) rfl (exact_tame n) (fun _ _ _ => Redirected.eq_of_nil) hplain
        (h.imp fun _ hk => hk.kin I temps)
    exact hkin.mono (fun hq => hq.mono nofun) fun _ _ => trivial

theorem Replaced.of_parts {c : Cat} {n n' : Node c} (hloop : n.isLoop = false)
    (hfun : n.isFunctionLike = false) (hlabel : n.ownLabels ⊆ N) (hcontinue : n.isContinue = false)
    (hlabeled : n.isLabeled = false)
    (h : Node.Parts (Replaced N env [] s) n n') : Replaced N env chain s n n' where
  free := Node.hasContinue_of_parts h hcontinue fun hk => hk.free
  kin I temps := by
    have hparts := h.imp fun _ hk => hk.kin I temps
    by_cases hplain : n.isPlain = true
    · exact .of_parts (L := (· = [])) rfl (exact_tame n)
        (fun hf => Bool.noConfusion (hfun.symm.trans hf)) hplain hparts
    · cases n with
      | returnStmt span result =>
        refine .of_exec (fun i labels _ => ?_) (functionMeanings_of_parts rfl hparts)
        exact Kin.exec_return (exact_tame _) hparts .return i
      | switchStmt span subject clauses =>
        refine .of_exec (fun i labels _ => ?_) (functionMeanings_of_parts rfl hparts)
        exact Kin.exec_switch (K := aimed N env s.1) (exact_tame _) hparts
          (fun _ _ => Redirected.leave_leave) i
      | breakStmt span label =>
        obtain rfl := h
        refine .of_exec (fun i labels _ => ?_) rfl
        rw [exec_breakStmt]
        refine .pure ?_
        cases label with
        | none => exact .leave
        | some l => exact .break (hlabel (.head _))
      | labeledStmt => cases hlabeled
      | continueStmt => cases hcontinue
      | whileStmt | doWhileStmt | forStmt | forInStmt | forOfStmt => cases hloop
      | _ => exact absurd rfl hplain

namespace Visiting

variable {cx : Context}

theorem label (h : Visiting N env chain (ts, cx)) {l : String} (hl : l ∉ labels env)
    (hN : l ∈ N) : Visiting N (.label l :: env) (l :: chain) (.labeled l :: ts, cx) where
  chain := .label l h.chain
  fits := .cons (.label l) h.fits
  nodup := List.nodup_cons.mpr ⟨hl, h.nodup⟩
  subset := List.cons_subset.mpr ⟨hN, h.subset⟩
  sound := h.sound.of_sublist (List.Sublist.refl _) (List.Subset.refl _)

theorem loop (h : Visiting N env chain (ts, cx)) :
    Visiting N (.loop chain :: env) [] (.loop none :: ts, cx) where
  chain := .loop h.chain
  fits := .cons (.loop chain none) h.fits
  nodup := h.nodup
  subset := h.subset
  sound := h.sound.of_sublist (List.Sublist.refl _) (List.Subset.refl _)

theorem function (h : Visiting N env chain (ts, cx)) : Visiting N [] [] ([], cx) where
  chain := .nil
  fits := .nil
  nodup := .nil
  subset := List.nil_subset _
  sound := h.sound.of_sublist (List.nil_sublist _) (List.Subset.refl _)

theorem inside (h : Visiting N env chain s) : Visiting N env [] s :=
  { h with chain := .inside h.chain }

end Visiting

theorem Later.outside (ts : List JumpTarget) {cx : Context} {u : Spot} (h : Later N ([], cx) u) :
    u = ([], u.2) ∧ Later N (ts, cx) (ts, u.2) := by
  obtain ⟨us, cx'⟩ := u
  obtain ⟨hfill, hreserved, hdiag, -⟩ := h
  cases hfill
  refine ⟨rfl, (Later.refl (N := N) (ts, cx)).fill, hreserved, hdiag, fun hs => ?_⟩
  exact hs.of_sublist (List.Sublist.refl _) hreserved

/-- The pass does what it should with a tree, wherever its jumps find their targets. -/
def Handled (N : List String) {c : Cat} (n : Node c) : Prop :=
  ∀ {env chain s}, Visiting N env chain s → n.labelNames ⊆ N → n.wellAimed env chain = true →
    (replacing N).Meets s (replaceContinuesIn n) fun t => ⟨Replaced N env chain t n⟩

theorem Handled.parts {c : Cat} {n : Node c}
    (ih : ∀ {d : Cat} (k : Node d), ⟨d, k⟩ ∈ n.children → Handled N k)
    (hs : Visiting N env [] s) (hnames : n.labelNames ⊆ N)
    (haim : ∀ {d : Cat} {k : Node d}, ⟨d, k⟩ ∈ n.children → k.wellAimed env [] = true) :
    (replacing N).Meets s (n.traverse fun k _ => replaceContinuesIn k) fun t =>
      ⟨Node.Parts (Replaced N env [] t) n⟩ :=
  Node.Parts.of_traverse (P := fun t => Replaced N env [] t) (fun hle hk => hk.later hle)
    fun k hk => ih k hk hs (Node.labelNames_part hnames hk) (haim hk)

theorem handled {c : Cat} (n : Node c) : Handled N n := by
  induction c, n using replaceContinuesIn.induct with
  | case1 span label body ih =>
    rintro env chain s hs hnames haim ⟨ts, cx⟩ hst
    have hv := hs.later hst
    rw [Node.wellAimed, Bool.and_eq_true] at haim
    have hl : label.name ∉ labels env := by simpa using haim.1
    have hN : label.name ∈ N := hnames (Node.mem_labelNames.mpr (.inl (.head _)))
    obtain ⟨hlater, hbody⟩ := ih (hv.label hl hN) (Node.labelNames_part hnames (.head _)) haim.2 _
      (Later.refl _)
    rw [replaceContinuesIn, (replacing N).run_bind, run_inside]
    generalize (replacing N).run (replaceContinuesIn body) _ = r at hlater hbody ⊢
    obtain ⟨body', u⟩ := r
    obtain ⟨target', ts', cx', rfl, hfill, hpop⟩ := hlater.pop rfl
    cases hfill
    exact ⟨hpop, hbody.labeled hv.chain hl hN (hpop.sound hv.sound)⟩
  | case2 span label =>
    intro env chain s hs _ haim
    rw [Node.wellAimed] at haim
    rw [replaceContinuesIn]
    exact meets_replace hs haim
  | case3 c n hlabel hcontinue hloop ih =>
    obtain rfl : c = .stmt := by cases n <;> first | rfl | cases hloop
    rintro env chain s hs hnames haim ⟨ts, cx⟩ hst
    have hv := hs.later hst
    obtain ⟨hlater, hn⟩ := Handled.parts ih hv.loop hnames (fun hk => by
      simpa [Node.around, hloop] using Node.wellAimed_part (Node.isLabeled_eq_false hlabel) haim hk)
      _ (Later.refl _)
    rw [replaceContinuesIn.eq_3 n hlabel hcontinue, if_pos hloop, (replacing N).run_bind,
      run_inside]
    generalize (replacing N).run (n.traverse _) _ = r at hlater hn ⊢
    obtain ⟨n₁, u⟩ := r
    obtain ⟨target', ts', cx', rfl, hfill, hpop⟩ := hlater.pop rfl
    have hsound := hlater.sound hv.loop.sound
    cases hfill with
    | same =>
      refine ⟨hpop, ?_⟩
      have hloop' := Replaced.loop hloop hsound hn
      rwa [mapLoopBody_none] at hloop'
    | fill label => exact ⟨hpop, Replaced.loop hloop hsound hn⟩
  | case4 c n hlabel hcontinue hloop hfun ih =>
    rintro env chain s hs hnames haim ⟨ts, cx⟩ hst
    have hv := hs.later hst
    obtain ⟨hlater, hn⟩ := Handled.parts ih hv.function hnames (fun hk => by
      simpa [Node.around, hloop, hfun] using
        Node.wellAimed_part (Node.isLabeled_eq_false hlabel) haim hk) _ (Later.refl _)
    rw [replaceContinuesIn.eq_3 n hlabel hcontinue, if_neg hloop, if_pos hfun, run_isolated]
    obtain ⟨hu, hout⟩ := hlater.outside ts
    rw [hu] at hn
    exact ⟨hout, .function hfun hn⟩
  | case5 c n hlabel hcontinue hloop hfun ih =>
    intro env chain s hs hnames haim t hst
    obtain ⟨hlater, hn⟩ := Handled.parts ih hs.inside hnames (fun hk => by
      simpa [Node.around, hloop, hfun] using
        Node.wellAimed_part (Node.isLabeled_eq_false hlabel) haim hk) t hst
    rw [replaceContinuesIn.eq_3 n hlabel hcontinue, if_neg hloop, if_neg hfun]
    exact ⟨hlater, .of_parts (by simpa using hloop) (by simpa using hfun)
      (fun x hx => hnames (Node.mem_labelNames.mpr (.inl hx))) (Node.isContinue_eq_false hcontinue)
      (Node.isLabeled_eq_false hlabel) hn⟩

/-- Replacing every `continue` of a program whose jumps find their targets records nothing, leaves
no `continue`, and keeps what the program and each of its functions do. The supply of names has to
know the labels of the program. -/
theorem replaceContinues_preserves (p : Program) (cx : Context)
    (hknown : p.labelNames ⊆ cx.names.reserved) (haim : p.wellAimed [] [] = true) :
    let r := (replaceContinues p).run cx
    r.2.diagnostics = cx.diagnostics ∧ r.1.hasContinue = false ∧
      ∀ {U V : Type} (I : Interp U V) (temps : List String),
        I.exec temps [] r.1 = I.exec temps [] p ∧
          I.functionMeanings temps r.1 = I.functionMeanings temps p := by
  have hs : Visiting p.labelNames [] [] ([], cx) := by
    refine ⟨.nil, .nil, .nil, List.nil_subset _, .nil, nofun, List.nil_subset _, hknown⟩
  obtain ⟨hlater, hfree, hkin⟩ := handled p hs (List.Subset.refl _) haim _ (Later.refl _)
  refine ⟨hlater.diagnostics, hfree, fun I temps => ⟨?_, ?_⟩⟩
  · have hsim := (hkin I temps).exec () [] rfl
    exact (Sim.eq (hsim.mono fun _ _ => Redirected.eq_of_nil)).symm
  · exact (hkin I temps).nested.symm

/-- `outer: while (a) while (b) { if (c) continue outer; continue; }` -/
def skippingRounds : Program :=
  .scriptProgram .none none (.ofList [
    Node.Build.labeled (.ofName "outer") (.whileStmt .none (Node.Build.name "a")
      (.whileStmt .none (Node.Build.name "b") (Node.Build.blockStmt .none [
        Node.Build.ifElse (Node.Build.name "c") (.continueStmt .none (some (.ofName "outer"))) none,
        .continueStmt .none none])))])

theorem replaceContinues_preserves_skippingRounds :
    let cx := Context.start .default skippingRounds
    let r := (replaceContinues skippingRounds).run cx
    skippingRounds.labelNames ⊆ cx.names.reserved ∧ skippingRounds.wellAimed [] [] = true ∧
      r.2.diagnostics = [] ∧ r.1.hasContinue = false ∧
        ∀ {U V : Type} (I : Interp U V), I.exec [] [] r.1 = I.exec [] [] skippingRounds := by
  have hknown : skippingRounds.labelNames ⊆
      (Context.start .default skippingRounds).names.reserved := by decide +kernel
  have haim : skippingRounds.wellAimed [] [] = true := by decide +kernel
  obtain ⟨hdiag, hfree, hmeaning⟩ := replaceContinues_preserves _ _ hknown haim
  exact ⟨hknown, haim, hdiag, hfree, fun I => (hmeaning I []).1⟩

end PlainJs

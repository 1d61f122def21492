import PlainJs.Proofs.Carried

namespace PlainJs

open JumpTarget

/-- Whether a `continue` has a loop to go to. Without a label this is any loop around it; with a
label it stands inside the closest statement around that has the label. -/
def Frame.hasLoop (fr : Frame) : Option Ident → Bool
  | none => fr.around.any isLoop
  | some label => fr.around.any (hasLabel label.name) &&
      (fr.around.takeWhile fun t => !t.hasLabel label.name).any isLoop

theorem Frame.isOk_resolve (fr : Frame) (label : Option Ident) :
    (resolve fr.around label).isOk = fr.hasLoop label := by
  cases label with
  | none =>
    rw [hasLoop, ← List.findIdx?_isSome, resolve]
    cases fr.around.findIdx? isLoop <;> rfl
  | some label =>
    rw [hasLoop, resolve]
    cases hfind : fr.around.findIdx? (hasLabel label.name) with
    | none =>
      have hany : fr.around.any (hasLabel label.name) = false := by
        rw [← List.findIdx?_isSome, hfind]
        rfl
      rw [hany]
      rfl
    | some i =>
      have hany : fr.around.any (hasLabel label.name) = true := by
        rw [← List.findIdx?_isSome, hfind]
        rfl
      have hbefore : (fr.around.takeWhile fun t => !t.hasLabel label.name) = fr.around.take i := by
        obtain ⟨-, hi⟩ := List.findIdx?_eq_some_iff_findIdx_eq.mp hfind
        simp only [List.takeWhile_eq_take_findIdx_not, Bool.not_not, hi]
      have hloop : ((fr.around.take i).zipIdx.reverse.find? (·.1.isLoop)).isSome =
          (fr.around.take i).any isLoop := by
        rw [List.isSome_find?, List.any_reverse]
        conv_rhs => rw [← List.zipIdx_map_fst 0 (fr.around.take i), List.any_map]
        rfl
      rw [hany, hbefore, ← hloop, Bool.true_and]
      dsimp only
      cases (fr.around.take i).zipIdx.reverse.find? (·.1.isLoop) <;> rfl

namespace Node

variable {c : Cat}

/-- The `continue` that a node is, by its range and its label. -/
def ownContinues : {c : Cat} → Node c → List (Span × Option Ident)
  | _, .continueStmt span label => [(span, label)]
  | _, _ => []

/-- The `continue` statements in a tree. -/
def continues (n : Node c) : List (Span × Option Ident) := n.gather ownContinues

/-- The `continue` statements in a tree that have no loop to go to. -/
def orphans (fr : Frame) {c : Cat} (n : Node c) : List (Span × Option Ident) :=
  n.ownContinues.filter (fun x => !fr.hasLoop x.2) ++
    n.children.attach.flatMap fun ⟨⟨_, k⟩, _⟩ => orphans (fr.enter n) k
termination_by sizeOf n
decreasing_by exact sizeOf_lt_of_mem_children ‹_›

theorem continues_eq (n : Node c) :
    n.continues = n.ownContinues ++ n.children.flatMap fun k => k.2.continues := by
  rw [continues, gather]
  simp [continues]

theorem orphans_eq (fr : Frame) (n : Node c) :
    n.orphans fr = n.ownContinues.filter (fun x => !fr.hasLoop x.2) ++
      n.children.flatMap fun k => k.2.orphans (fr.enter n) := by
  rw [orphans]
  simp

theorem ownContinues_eq_nil {n : Node c} (h : n.isContinue = false) : n.ownContinues = [] := by
  cases n <;> first | rfl | cases h

theorem orphans_of_isContinue (fr : Frame) {n : Node c} (h : n.isContinue = false) :
    n.orphans fr = n.children.flatMap fun k => k.2.orphans (fr.enter n) := by
  rw [orphans_eq, ownContinues_eq_nil h]
  rfl

theorem continues_of_isContinue {n : Node c} (h : n.isContinue = false) :
    n.continues = n.children.flatMap fun k => k.2.continues := by
  rw [continues_eq, ownContinues_eq_nil h]
  rfl

theorem continues_of_one {d : Cat} {n : Node c} {k : Node d} (h : n.isContinue = false)
    (hk : n.children = [⟨d, k⟩]) : n.continues = k.continues := by
  rw [continues_of_isContinue h, hk, List.flatMap_singleton]

theorem continues_labelBody (label : Ident) (b : Stmt) :
    (Continues.labelBody label b).continues = b.continues := by
  have hblock : (Build.intoBlock b).continues = b.continues := by
    unfold Build.intoBlock
    split
    next b => exact (continues_of_one (n := .blockStmt b) rfl rfl).symm
    next =>
      have hnil : (nil : Node (.list .stmt)).continues = [] := continues_of_isContinue rfl
      rw [Build.block, continues_of_one rfl rfl, ofList, ofList, continues_of_isContinue rfl]
      change b.continues ++ ((nil : Node (.list .stmt)).continues ++ []) = _
      rw [hnil, List.append_nil, List.append_nil]
  rw [← hblock, Continues.labelBody, Build.labeled, continues_of_one rfl rfl,
    continues_of_one rfl rfl]

/-- A label on the body of a loop makes no difference for each `continue` in it. -/
theorem continues_mapLoopBody (label : Ident) {n : Node c} (h : n.isLoop = true) :
    (n.mapLoopBody (Continues.labelBody label)).continues = n.continues := by
  cases n
  all_goals
    first
      | exact Bool.noConfusion h
      | simp only [mapLoopBody]
        rw [continues_of_isContinue rfl, continues_of_isContinue rfl]
        simp only [children, List.flatMap_cons, continues_labelBody]

end Node

open Node

namespace Context

/-- What comes after `s` if at most a violation is recorded, and only where there has been none. -/
def Halts (s t : Context) : Prop :=
  t.diagnostics = s.diagnostics ∨
    s.hasFatal = false ∧ ∃ d, d.isFatal = true ∧ t.diagnostics = s.diagnostics ++ [d]

namespace Halts

variable {s t u : Context}

theorem refl (s : Context) : s.Halts s := .inl rfl

theorem hasFatal_eq (h : t.diagnostics = s.diagnostics) : t.hasFatal = s.hasFatal := by
  rw [hasFatal, h, hasFatal]

theorem hasFatal_of_append {d : Diagnostic} (hd : d.isFatal = true)
    (h : t.diagnostics = s.diagnostics ++ [d]) : t.hasFatal = true := by
  simp [hasFatal, h, hd]

theorem trans (h : s.Halts t) (h' : t.Halts u) : s.Halts u := by
  rcases h with h | ⟨hs, d, hd, h⟩
  · rcases h' with h' | ⟨ht, d, hd, h'⟩
    · exact .inl (h'.trans h)
    · exact .inr ⟨(hasFatal_eq h).symm.trans ht, d, hd, h ▸ h'⟩
  · rcases h' with h' | ⟨ht, -⟩
    · exact .inr ⟨hs, d, hd, h'.trans h⟩
    · exact Bool.noConfusion ((hasFatal_of_append hd h).symm.trans ht)

theorem violate (cx : Context) (fault : LabelFault) (span : Span) :
    cx.Halts (cx.violate fault span) := by
  unfold Context.violate
  split
  next => exact .refl cx
  next h => exact .inr ⟨by simpa using h, _, rfl, rfl⟩

end Halts

end Context

variable {c : Cat} {n n' : Node c} {fr : Frame} {s t : Spot}

/-- Between two states a tree has been visited: what is left of each `continue` in it are those
without a loop, and if there are any then a violation has been recorded. -/
structure Left (fr : Frame) (s : Spot) (n n' : Node c) (t : Spot) : Prop where
  moves : Moves [] s t
  halts : s.2.Halts t.2
  continues : SameAims fr.around s.1 → n'.continues = n.orphans fr
  fatal : n'.continues ≠ [] → t.2.hasFatal = true
  quiet : n'.continues = [] → t.2.diagnostics = s.2.diagnostics

/-- The parts of a tree have been visited one after the other. -/
structure LeftAll (fr : Frame) (s : Spot) (l l' : List (Sigma Node)) (t : Spot) : Prop where
  moves : Moves [] s t
  halts : s.2.Halts t.2
  continues : SameAims fr.around s.1 →
    (l'.flatMap fun k => k.2.continues) = l.flatMap fun k => k.2.orphans fr
  fatal : (l'.flatMap fun k => k.2.continues) ≠ [] → t.2.hasFatal = true
  quiet : (l'.flatMap fun k => k.2.continues) = [] → t.2.diagnostics = s.2.diagnostics

theorem Context.Grows.hasFatal_true {s t : Context} (h : s.Grows t) (hs : s.hasFatal = true) :
    t.hasFatal = true := by
  by_contra ht
  exact Bool.noConfusion ((h.hasFatal (by simpa using ht)).symm.trans hs)

theorem leftAll_of_visited {l l' : List (Sigma Node)}
    (h : Visited (fun s {_} k k' t => Left fr s k k' t) s l l' t) : LeftAll fr s l l' t := by
  induction h with
  | nil s => exact ⟨.refl s, .refl _, fun _ => rfl, fun h => absurd rfl h, fun _ => rfl⟩
  | @cons s t u d k k' l l' hk _ ih =>
    refine ⟨hk.moves.trans ih.moves, hk.halts.trans ih.halts, fun ha => ?_, fun hne => ?_,
      fun hnil => ?_⟩
    · rw [List.flatMap_cons, List.flatMap_cons, hk.continues ha,
        ih.continues (ha.trans (.of_fill hk.moves.fill))]
    · rw [List.flatMap_cons] at hne
      by_cases hkne : k'.continues = []
      · rw [hkne, List.nil_append] at hne
        exact ih.fatal hne
      · exact ih.moves.steps.grows.hasFatal_true (hk.fatal hkne)
    · obtain ⟨hknil, hlnil⟩ := List.append_eq_nil_iff.mp (List.flatMap_cons ▸ hnil)
      exact (ih.quiet hlnil).trans (hk.quiet hknil)

/-- A tree that is no `continue` and gets new parts. What its parts have around them may hold one
target more. -/
theorem Left.of_parts {s₁ t₁ : Spot} (hn : n.isContinue = false)
    (hn' : n'.continues = n'.children.flatMap fun k => k.2.continues)
    (h : LeftAll (fr.enter n) s₁ n.children n'.children t₁) (hmoves : Moves [] s t)
    (hs : s₁.2 = s.2) (ht : t₁.2 = t.2)
    (haims : SameAims fr.around s.1 → SameAims (fr.enter n).around s₁.1) : Left fr s n n' t where
  moves := hmoves
  halts := hs ▸ ht ▸ h.halts
  continues ha := by rw [hn', h.continues (haims ha), orphans_of_isContinue fr hn]
  fatal hne := ht ▸ h.fatal (hn' ▸ hne)
  quiet hnil := by
    rw [← ht, ← hs]
    exact h.quiet (hn' ▸ hnil)

/-- A `continue` is replaced if it has a loop to go to, and else it is reported. -/
theorem Left.continue (fr : Frame) (span : Span) (label : Option Ident) (s : Spot) :
    let r := (replacing []).run (Continues.replace span label) s
    Left fr s (.continueStmt span label) r.1 r.2 := by
  obtain ⟨ts, cx⟩ := s
  have horphans : (continueStmt span label).orphans fr =
      if fr.hasLoop label then [] else [(span, label)] := by
    rw [orphans_eq]
    cases hloop : fr.hasLoop label <;> simp [ownContinues, children, hloop]
  cases hres : resolve ts label with
  | error fault =>
    have hrun : (replacing []).run (Continues.replace span label) (ts, cx) =
        (.continueStmt span label, ts, cx.violate fault span) := by
      unfold Continues.replace
      simp only [(replacing []).run_bind, run_get, hres]
      rfl
    obtain ⟨hsteps, hfatal, -⟩ := violate_spec cx fault span
    have hself : (continueStmt span label).continues = [(span, label)] := by
      rw [continues_eq]
      rfl
    rw [hrun]
    refine ⟨⟨(Moves.refl (N := []) (ts, cx)).fill, hsteps, fun _ hx _ => hx, fun hS => ?_⟩,
      .violate cx fault span, fun ha => ?_, fun _ => hfatal, fun hnil => ?_⟩
    · exact hS.of_sublist (List.Sublist.refl _) hsteps.grows.reserved
    · have hloop : fr.hasLoop label = false := by
        rw [← fr.isOk_resolve, ha.resolve_eq, hres]
        rfl
      rw [horphans, hself, hloop]
      rfl
    · rw [hself] at hnil
      cases hnil
  | ok i =>
    obtain ⟨pre, b, post, rfl, rfl⟩ := split_of_resolve hres
    obtain ⟨target, cx', hbody, hlabel⟩ := run_bodyLabelAt (N := []) pre post b cx
    have hrun : (replacing []).run (Continues.replace span label) (pre ++ .loop b :: post, cx) =
        (Node.Build.breakTo (some target), pre ++ .loop (some target) :: post, cx') := by
      unfold Continues.replace
      simp only [(replacing []).run_bind, run_get, hres, hbody]
      rfl
    have hself : (Build.breakTo (some target)).continues = [] := by
      rw [Build.breakTo, continues_eq]
      rfl
    have hdiag : cx'.diagnostics = cx.diagnostics := by
      obtain ⟨-, rfl⟩ | ⟨-, -, rfl⟩ := hlabel <;> rfl
    rw [hrun]
    refine ⟨.bodyLabelAt hlabel, .inl hdiag, fun ha => ?_, fun hne => absurd hself hne,
      fun _ => hdiag⟩
    have hloop : fr.hasLoop label = true := by
      rw [← fr.isOk_resolve, ha.resolve_eq, hres]
      rfl
    rw [horphans, hself, hloop]
    rfl

theorem leftAll_traverse (ih : ∀ {d : Cat} (k : Node d), ⟨d, k⟩ ∈ n.children →
      ∀ (fr : Frame) (s : Spot), let r := (replacing []).run (replaceContinuesIn k) s
        Left fr s k r.1 r.2) (fr : Frame) (s : Spot) :
    let r := (replacing []).run (n.traverse fun k _ => replaceContinuesIn k) s
    LeftAll fr s n.children r.1.children r.2 ∧ Parts (fun _ _ => True) n r.1 := by
  obtain ⟨hvisited, hparts⟩ := visited_traverse (replacing [])
    (V := fun s {_} k k' t => Left fr s k k' t) (fun k hk s => ih k hk fr s) s
  exact ⟨leftAll_of_visited hvisited, hparts.imp fun _ _ => trivial⟩

theorem left_replaceContinuesIn (n : Node c) (fr : Frame) (s : Spot) :
    let r := (replacing []).run (replaceContinuesIn n) s
    Left fr s n r.1 r.2 := by
  induction c, n using replaceContinuesIn.induct generalizing fr s with
  | case1 span label body ih =>
    obtain ⟨ts, cx⟩ := s
    rw [replaceContinuesIn, (replacing []).run_bind, run_inside]
    have hbody := ih (fr.label label.name) (.labeled label.name :: ts, cx)
    generalize (replacing []).run (replaceContinuesIn body) _ = r at hbody ⊢
    obtain ⟨body', u⟩ := r
    obtain ⟨target', ts', cx', rfl, hfill, hmoves⟩ := hbody.moves.pop rfl
    cases hfill
    have hall : LeftAll (fr.label label.name) (.labeled label.name :: ts, cx)
        [⟨.stmt, body⟩] [⟨.stmt, body'⟩] (.labeled label.name :: ts', cx') :=
      leftAll_of_visited (.cons hbody (.nil _))
    exact .of_parts rfl (continues_of_isContinue rfl) hall hmoves rfl rfl
      fun ha => ha.cons (.labeled label.name)
  | case2 span label =>
    rw [replaceContinuesIn]
    exact .continue fr span label s
  | case3 c n hlabel hcontinue hloop ih =>
    obtain ⟨ts, cx⟩ := s
    have hn := isContinue_eq_false hcontinue
    have henter : fr.enter n = fr.loop := by
      cases n <;> first | rfl | exact Bool.noConfusion hloop
    rw [replaceContinuesIn.eq_3 n hlabel hcontinue, if_pos hloop, (replacing []).run_bind,
      run_inside]
    obtain ⟨hall, hparts⟩ := leftAll_traverse ih fr.loop (.loop none :: ts, cx)
    generalize (replacing []).run (n.traverse _) _ = r at hall hparts ⊢
    obtain ⟨n₁, u⟩ := r
    obtain ⟨target', ts', cx', rfl, hfill, hmoves⟩ := hall.moves.pop rfl
    have hn₁ := continues_of_isContinue (hparts.isContinue_eq.symm.trans hn)
    rw [← henter] at hall
    have hleft : Left fr (ts, cx) n n₁ (ts', cx') :=
      .of_parts hn hn₁ hall hmoves rfl rfl fun ha => henter.symm ▸ ha.cons (.loop none)
    cases hfill with
    | same => exact hleft
    | fill label =>
      have hloop₁ : n₁.isLoop = true :=
        (hparts.form_eq isLoop fun m => by cases m <;> rfl).symm.trans hloop
      have hsame := continues_mapLoopBody label hloop₁
      exact ⟨hmoves, hleft.halts, fun ha => hsame.trans (hleft.continues ha),
        fun hne => hleft.fatal (hsame ▸ hne), fun hnil => hleft.quiet (hsame.symm.trans hnil)⟩
  | case4 c n hlabel hcontinue hloop hfun ih =>
    obtain ⟨ts, cx⟩ := s
    have hn := isContinue_eq_false hcontinue
    have htop : fr.enter n = .top := by
      cases n <;> first | rfl | exact Bool.noConfusion hfun
    rw [replaceContinuesIn.eq_3 n hlabel hcontinue, if_neg hloop, if_pos hfun, run_isolated]
    obtain ⟨hall, hparts⟩ := leftAll_traverse ih .top ([], cx)
    generalize (replacing []).run (n.traverse _) _ = r at hall hparts ⊢
    obtain ⟨n₁, u⟩ := r
    have hmoves := (hall.moves.outside ts).2
    rw [← htop] at hall
    exact .of_parts hn (continues_of_isContinue (hparts.isContinue_eq.symm.trans hn)) hall hmoves
      rfl rfl fun _ => htop.symm ▸ .refl []
  | case5 c n hlabel hcontinue hloop hfun ih =>
    have hn := isContinue_eq_false hcontinue
    have haround : (fr.enter n).around = fr.around := by
      unfold Frame.enter
      split
      · exact (hlabel _ _ _ rfl .rfl).elim
      · rfl
      · rw [if_neg hloop, if_neg hfun]
    rw [replaceContinuesIn.eq_3 n hlabel hcontinue, if_neg hloop, if_neg hfun]
    obtain ⟨hall, hparts⟩ := leftAll_traverse ih (fr.enter n) s
    exact .of_parts hn (continues_of_isContinue (hparts.isContinue_eq.symm.trans hn)) hall
      hall.moves rfl rfl fun ha => haround.symm ▸ ha

/-- What the pass leaves of each `continue` are those without a loop to go to. Where there are any,
the pass records one violation and nothing else. -/
theorem left_replaceContinues (p : Program) (cx : Context) :
    let r := (replaceContinues p).run cx
    r.1.continues = p.orphans .top ∧ cx.Halts r.2 ∧
      (p.orphans .top ≠ [] → r.2.hasFatal = true) ∧
      (p.orphans .top = [] → r.2.diagnostics = cx.diagnostics) := by
  obtain ⟨-, hhalts, hcontinues, hfatal, hquiet⟩ := left_replaceContinuesIn p .top ([], cx)
  have hleft := hcontinues (.refl [])
  exact ⟨hleft, hhalts, hleft ▸ hfatal, hleft ▸ hquiet⟩

end PlainJs

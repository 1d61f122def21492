import PlainJs.Lowering.Finallys
import PlainJs.Proofs.Kinship

namespace PlainJs

open Effect Run Interp Comparison

namespace Finallys

variable {U V : Type} {w : Within}

/-- A completion that does not leave what surrounds a statement. -/
def Within.Stays (w : Within) : Completion V → Prop
  | .normal | .throw _ => True
  | .break none => w.inBreakable = true
  | .continue none => w.inLoop = true
  | .break (some l) | .continue (some l) => l ∈ w.labels
  | .return _ => False

/-- Equal completions that do not leave. -/
def Within.Same (w : Within) (c c' : Completion V) : Prop := c = c' ∧ w.Stays c

theorem Within.same_transparent : Transparent (w.Same (V := V)) :=
  ⟨⟨rfl, trivial⟩, fun _ => ⟨rfl, trivial⟩, fun h => .inl h.1⟩

theorem Within.calm_of_stays {c : Completion V} (h : Within.top.Stays c) : c.Calm := by
  match c, h with
  | .normal, _ => exact .inl rfl
  | .throw v, _ => exact .inr ⟨v, rfl⟩
  | .break none, h | .continue none, h => cases h
  | .break (some _), h | .continue (some _), h => cases h

/-- Comparison of a run with itself. -/
abbrev staying (w : Within) : Comparison U V :=
  (Comparison.exact U V).withResult w.Same Within.same_transparent

theorem Within.loopRel (w' : Within) (hlabels : w'.labels = w.labels) (labels : List String) :
    LoopRel labels labels (w'.Same (V := V)) w.Same where
  thrown? h := h.1 ▸ rfl
  normal := ⟨rfl, trivial⟩
  throw _ := ⟨rfl, trivial⟩
  goesOn h := h.1 ▸ rfl
  leave := by
    rintro c _ ⟨rfl, hc⟩ hgo
    refine ⟨rfl, ?_⟩
    match c, hc with
    | .normal, _ | .throw v, _ => trivial
    | .break none, _ => trivial
    | .continue none, _ => cases hgo
    | .break (some l), hc | .continue (some l), hc =>
      change l ∈ w.labels
      exact hlabels ▸ hc

theorem Within.leave_rel {w' : Within} (hlabels : w'.labels = w.labels)
    (hloop : w'.inLoop = w.inLoop) (c c' : Completion V) (h : w'.Same c c') :
    w.Same c.leave c'.leave := by
  obtain ⟨rfl, hc⟩ := h
  refine ⟨rfl, ?_⟩
  match c, hc with
  | .normal, _ | .throw v, _ => trivial
  | .break none, _ => trivial
  | .continue none, hc =>
    change w.inLoop = true
    exact hloop ▸ hc
  | .break (some l), hc | .continue (some l), hc =>
    change l ∈ w.labels
    exact hlabels ▸ hc

theorem Within.leaveLabel_rel {l : String} (c c' : Completion V)
    (h : Within.Same { w with labels := l :: w.labels } c c') :
    Option.Rel w.Same (c.leaveLabel l) (c'.leaveLabel l) := by
  obtain ⟨rfl, hc⟩ := h
  match c, hc with
  | .normal, _ | .throw v, _ => exact .some ⟨rfl, trivial⟩
  | .break none, hc | .continue none, hc => exact .some ⟨rfl, hc⟩
  | .break (some l'), hc =>
    simp only [Completion.leaveLabel]
    split
    · exact .some ⟨rfl, trivial⟩
    · exact .some ⟨rfl, (List.mem_cons.mp hc).resolve_left ‹_›⟩
  | .continue (some l'), hc =>
    simp only [Completion.leaveLabel]
    split
    · exact .none
    · exact .some ⟨rfl, (List.mem_cons.mp hc).resolve_left ‹_›⟩

theorem Within.stays_of_escapes {caught : Bool} {label : Option Ident}
    (h : w.escapes caught label = false) :
    (label = none ∧ caught = true) ∨ ∃ l, label = some l ∧ l.name ∈ w.labels := by
  cases label with
  | none => exact .inl ⟨rfl, by simpa [Within.escapes] using h⟩
  | some l => exact .inr ⟨l, rfl, by simpa [Within.escapes] using h⟩

/-- A tree without exits ends in a way that stays inside. -/
theorem kin_of_exits {I : Interp U V} {temps : List String} {c : Cat} {n : Node c}
    (h : exits w n = []) : (staying w).Kin I temps (fun _ => True) n n := by
  induction w, c, n using exits.induct with
  | case1 w span value =>
    rw [exits] at h
    cases h
  | case2 w span label hescapes =>
    rw [exits, if_pos hescapes] at h
    cases h
  | case3 w span label hescapes =>
    refine .of_exec (fun i labels _ => ?_) rfl
    rw [exec_breakStmt]
    refine .pure ⟨rfl, ?_⟩
    obtain ⟨rfl, hc⟩ | ⟨l, rfl, hl⟩ := Within.stays_of_escapes (by simpa using hescapes)
    · exact hc
    · exact hl
  | case4 w span label hescapes =>
    rw [exits, if_pos hescapes] at h
    cases h
  | case5 w span label hescapes =>
    refine .of_exec (fun i labels _ => ?_) rfl
    rw [exec_continueStmt]
    refine .pure ⟨rfl, ?_⟩
    obtain ⟨rfl, hc⟩ | ⟨l, rfl, hl⟩ := Within.stays_of_escapes (by simpa using hescapes)
    · exact hc
    · exact hl
  | case6 w span label body ih =>
    rw [exits] at h
    refine .of_exec (fun i labels _ => ?_) rfl
    rw [exec_labeledStmt]
    exact sim_labeled ((ih h).exec i _ trivial) Within.leaveLabel_rel
  | case7 | case8 | case9 => exact .refl_of_leaf _ rfl
  | case10 w c n hreturn hbreak hcontinue hlabeled hfunc harrow hcls ih =>
    by_cases hrun : n.isRun = true
    · rw [exits.eq_8 w n hreturn hbreak hcontinue hlabeled hfunc harrow hcls] at h
      have hparts : Node.Parts ((staying (w.enter n)).Kin I temps fun _ => True) n n := by
        refine .refl fun {d k} hk => ih d k hk ?_
        exact List.flatMap_eq_nil_iff.mp h ⟨⟨d, k⟩, hk⟩ (List.mem_attach _ _)
      by_cases hplain : n.isPlain = true
      · have henter : w.enter n = w := by cases n <;> first | rfl | exact Bool.noConfusion hplain
        rw [henter] at hparts
        exact .of_parts trivial (exact_tame n) (fun _ _ _ hc => hc.1) hplain hparts
      · cases n with
        | switchStmt =>
          refine .of_exec (fun i labels _ => ?_) rfl
          exact Kin.exec_switch (K := staying w) (exact_tame _) hparts (Within.leave_rel rfl rfl) i
        | whileStmt | doWhileStmt | forStmt | forInStmt | forOfStmt =>
          refine .of_exec (fun i labels _ => ?_) rfl
          have hloop := Kin.exec_loop (K := staying w) (f := id) rfl trivial (exact_tame _) hparts
            (Within.loopRel (w := w) (w.enter _) rfl labels) (fun _ hb => hb) i
          exact hloop
        | returnStmt => exact (hreturn _ _ rfl .rfl).elim
        | breakStmt => exact (hbreak _ _ rfl .rfl).elim
        | continueStmt => exact (hcontinue _ _ rfl .rfl).elim
        | labeledStmt => exact (hlabeled _ _ _ rfl .rfl).elim
        | _ => exact absurd rfl hplain
    · exact .refl_of_leaf _ (by simpa using hrun)

/-- A block without exits ends normally or throws. -/
theorem calm_of_exits {I : Interp U V} {temps : List String} {b : Block}
    (h : exits .top b = []) : Yields Completion.Calm (I.exec temps [] b) := by
  have hsim : Sim _ _ (I.exec temps [] b) _ := (kin_of_exits h).exec () [] trivial
  exact (hsim.mono fun _ _ hc => ⟨hc.1, Within.calm_of_stays hc.2⟩).yields

end Finallys

end PlainJs

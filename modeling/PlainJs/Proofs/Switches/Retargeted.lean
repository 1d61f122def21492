import PlainJs.Proofs.Kinship
import PlainJs.Proofs.LabelRules
import PlainJs.Proofs.Switches.Balance

namespace PlainJs

open Effect Run Interp Comparison

namespace Completion

variable {V : Type}

/-- A completion in which a `break` without a label has got one. -/
def aim (label : String) : Completion V → Completion V
  | .break none => .break (some label)
  | c => c

theorem aim_leave (label : String) (c : Completion V) : c.leave.aim label = c.leave := by
  match c with
  | .break none | .break (some _) | .normal | .continue _ | .return _ | .throw _ => rfl

theorem aim_transparent (label : String) :
    Transparent fun c c' : Completion V => c' = c.aim label where
  normal := rfl
  throw _ := rfl
  same := by
    rintro c _ rfl
    match c with
    | .break none => exact .inr ⟨rfl, rfl⟩
    | .break (some _) | .normal | .continue _ | .return _ | .throw _ => exact .inl rfl

end Completion

namespace Node

variable {c : Cat} {n : Node c} {caught : Bool}

theorem breaksCaught_iff : n.breaksCaught caught = true ↔ (n.isLeave = true → caught = true) ∧
    ∀ {d : Cat} {k : Node d}, ⟨d, k⟩ ∈ n.children →
      k.breaksCaught (n.catchesBreaks caught) = true := by
  rw [breaksCaught, Bool.and_eq_true, List.all_eq_true]
  refine and_congr ?_ ⟨fun h d k hk => h ⟨⟨d, k⟩, hk⟩ (List.mem_attach _ _), fun h k _ => h k.2⟩
  cases n.isLeave <;> simp

end Node

namespace Switches

variable {U V : Type} {I : Interp U V} {temps : List String} {c : Cat}

/-- Comparison with a run whose unlabelled breaks aim at a label. -/
abbrev moving (label : String) : Comparison U V :=
  (Comparison.exact U V).withResult (fun c c' => c' = c.aim label) (Completion.aim_transparent label)

theorem aim_loopRel (label : String) (labels : List String) :
    LoopRel labels labels Eq fun c c' : Completion V => c' = c.aim label where
  thrown? h := h ▸ rfl
  normal := rfl
  throw _ := rfl
  goesOn h := h ▸ rfl
  leave := by
    rintro c _ rfl -
    exact (c.aim_leave label).symm

theorem aim_leaveLabel {label l : String} (hl : l ≠ label) (c : Completion V) :
    Option.Rel (fun c c' : Completion V => c' = c.aim label) (c.leaveLabel l)
      ((c.aim label).leaveLabel l) := by
  match c with
  | .break none =>
    simp only [Completion.aim, Completion.leaveLabel, if_neg (Ne.symm hl)]
    exact .some rfl
  | .break (some x) =>
    simp only [Completion.aim, Completion.leaveLabel]
    split <;> exact .some rfl
  | .continue (some x) =>
    simp only [Completion.aim, Completion.leaveLabel]
    split
    · exact .none
    · exact .some rfl
  | .continue none | .normal | .return _ | .throw _ => exact .some rfl

/-- What stops breaks ends alike with and without a label for those of its surroundings. -/
theorem kin_of_shields (label : String) {n : Node c} (h : shieldsBreaks n = true) :
    (moving label).Kin I temps (fun _ => True) n n := by
  have hparts : Node.Parts (((moving label).withResult Eq (exact U V).transparent).Kin I temps
      fun _ => True) n n := .refl fun _ => Kin.refl _
  cases n with
  | switchStmt =>
    refine .of_exec (fun i labels _ => ?_) rfl
    refine Kin.exec_switch (K := moving label) (exact_tame _) hparts ?_ i
    rintro c _ rfl
    exact (c.aim_leave label).symm
  | whileStmt | doWhileStmt | forStmt | forInStmt | forOfStmt =>
    refine .of_exec (fun i labels _ => ?_) rfl
    have hloop := Kin.exec_loop (K := moving label) (f := id) rfl trivial (exact_tame _) hparts
      (aim_loopRel label labels) (fun _ hb => hb) i
    exact hloop
  | func | arrow | cls => exact .refl_of_leaf _ rfl
  | _ => cases h

theorem isRun_of_isFunctionLike {n : Node c} (h : n.isFunctionLike = true) : n.isRun = false := by
  cases n <;> first | rfl | cases h

theorem retarget_leaf (label : Ident) {n : Node c} (hleave : n.isLeave = false)
    (hshield : shieldsBreaks n = false)
    (h : ∀ {d : Cat} {k : Node d}, ⟨d, k⟩ ∈ n.children → k.breaksCaught false = true) :
    retarget label n = n := by
  rw [retarget_eq_mapParts label hleave hshield]
  refine Node.mapParts_eq_self fun {d k} hk => ?_
  have hzero : (Weight.strays []).of .top k = 0 := Weight.strays_eq_zero.mpr (h hk)
  exact retarget_eq_self label k rfl hzero

/-- Statements run alike when their breaks aim at a label that does not occur in them. -/
theorem kin_retarget (label : Ident) (n : Node c) (hlabel : label.name ∉ n.labelNames)
    (hcaught : n.breaksCaught true = true) :
    (moving label.name).Kin I temps (fun _ => True) n (retarget label n) := by
  induction n using Node.partsInduction with
  | @step c n ih =>
    obtain ⟨-, hinside⟩ := Node.breaksCaught_iff.mp hcaught
    cases hleave : n.isLeave with
    | true =>
      cases n with
      | breakStmt span l =>
        cases l with
        | none =>
          rw [retarget_leave]
          refine .of_exec (fun i labels _ => ?_) ?_
          · rw [exec_breakStmt, exec_breakStmt]
            exact .pure rfl
          · change I.functionMeanings temps _ = I.functionMeanings temps _
            rw [functionMeanings_breakStmt, functionMeanings_breakStmt]
        | some l => cases hleave
      | _ => cases hleave
    | false =>
      by_cases hshield : shieldsBreaks n = true
      · rw [retarget_of_shields label hshield]
        exact kin_of_shields label.name hshield
      · rw [Bool.not_eq_true] at hshield
        have hloop : n.isLoop = false :=
          Bool.eq_false_iff.mpr fun h => Bool.noConfusion (hshield.symm.trans (shields_of_isLoop h))
        have hswitch : n.isSwitch = false := by
          cases n <;> first | rfl | cases hshield
        by_cases hfun : n.isFunctionLike = true
        · have hsame : retarget label n = n := by
            refine retarget_leaf label hleave hshield fun hk => ?_
            have hk' := hinside hk
            rwa [Node.catchesBreaks, hloop, hswitch, hfun] at hk'
          rw [hsame]
          exact .refl_of_leaf _ (isRun_of_isFunctionLike hfun)
        · rw [Bool.not_eq_true] at hfun
          rw [retarget_eq_mapParts label hleave hshield]
          have hparts : Node.Parts ((moving label.name).Kin I temps fun _ => True) n
              (n.mapParts (retarget label)) := by
            refine (Node.Parts.of_mapParts (retarget label) n).imp fun {d k k'} hk he => ?_
            subst he
            have hk' := hinside hk
            rw [Node.catchesBreaks, hloop, hswitch, hfun] at hk'
            exact ih hk (fun hmem => hlabel (Node.mem_labelNames.mpr (.inr ⟨_, _, hk, hmem⟩))) hk'
          refine .of_form (fun _ => trivial) (exact_tame n)
            (fun h => Bool.noConfusion (hfun.symm.trans h))
            (fun h => Bool.noConfusion (hloop.symm.trans h))
            (fun h => Bool.noConfusion (hswitch.symm.trans h)) ?_ ?_ (fun _ => rfl) hparts
          · rintro l hl c _ rfl
            refine aim_leaveLabel ?_ c
            rintro rfl
            exact hlabel (Node.mem_labelNames.mpr (.inl hl))
          · intro j hj
            cases n with
            | breakStmt span l =>
              cases l with
              | none => cases hleave
              | some l =>
                cases hj
                rfl
            | continueStmt span l =>
              cases hj
              rfl
            | _ => cases hj

end Switches

end PlainJs

import PlainJs.Label
import PlainJs.Proofs.Jumps
import PlainJs.Proofs.Sites

namespace PlainJs

namespace Node

/-- The label that a jump names. -/
def target? : {c : Cat} → Node c → Option String
  | _, .breakStmt _ label | _, .continueStmt _ label => label.map (·.name)
  | _, _ => .none

/-- A jump to a label that is not among those that reach it. -/
def lostJump? (labels : List String) (span : Span) (jump : Jump) (label : Option Ident) :
    Option (LabelFault × Span) :=
  label.bind fun x => if x.name ∈ labels then .none else .some (.unresolved jump x.name, span)

/-- What breaks the rules for labels at a node, with its span; `labels` are those that reach it. -/
def labelFault? (labels : List String) : {c : Cat} → Node c → Option (LabelFault × Span)
  | _, .labeledStmt span label _ =>
    if label.name ∈ labels then .some (.duplicate label.name, span) else .none
  | _, .breakStmt span label => lostJump? labels span .break label
  | _, .continueStmt span label => lostJump? labels span .continue label
  | _, _ => .none

variable {labels : List String} {span : Span} {jump : Jump} {label : Option Ident}

theorem lostJump?_eq_none :
    lostJump? labels span jump label = .none ↔ ∀ x ∈ label.map (·.name), x ∈ labels := by
  cases label <;> simp [lostJump?]

theorem toList_lostJump? :
    (lostJump? labels span jump label).toList = labelFaults.unresolved labels span jump label := by
  cases label with
  | none => rfl
  | some label =>
    by_cases hmem : label.name ∈ labels <;> simp [lostJump?, labelFaults.unresolved, hmem]

end Node

namespace Site

/-- The labels of the statements that a place stands in, innermost first. Those outside of the
function, accessor or static block around the place do not reach it. -/
def labels (s : Site) : List String :=
  (s.around.takeWhile fun k => !k.2.isFunctionLike).filterMap fun k => k.2.label?

def labelFault? (s : Site) : Option (LabelFault × Span) := s.node.2.labelFault? s.labels

/-- A place where the rules for labels hold. -/
structure IsWellLabeled (s : Site) : Prop where
  undeclared : ∀ x ∈ s.node.2.label?, x ∉ s.labels
  resolved : ∀ x ∈ s.node.2.target?, x ∈ s.labels

theorem labelFault?_eq_none {s : Site} : s.labelFault? = none ↔ s.IsWellLabeled := by
  obtain ⟨around, c, n⟩ := s
  have hnone : ∀ {P : String → Prop}, ∀ x ∈ (none : Option String), P x :=
    fun x hx => absurd hx (Option.not_mem_none x)
  constructor
  · intro h
    cases n
    case labeledStmt span label body =>
      refine ⟨?_, hnone⟩
      rintro _ ⟨⟩ hmem
      exact Option.some_ne_none _ ((if_pos hmem).symm.trans h)
    case breakStmt | continueStmt => exact ⟨hnone, Node.lostJump?_eq_none.mp h⟩
    all_goals exact ⟨hnone, hnone⟩
  · rintro ⟨hundeclared, hresolved⟩
    cases n
    case labeledStmt => exact if_neg (hundeclared _ rfl)
    case breakStmt | continueStmt => exact Node.lostJump?_eq_none.mpr hresolved
    all_goals rfl

variable {around : List (Sigma Node)} {c : Cat} {n : Node c} {k m : Sigma Node}

theorem labels_part : (Site.mk (⟨c, n⟩ :: around) k).labels =
    if n.isFunctionLike then [] else n.label?.toList ++ (Site.mk around m).labels := by
  cases hn : n.isFunctionLike
  · cases hl : n.label? <;> simp [labels, hn, hl]
  · simp [labels, hn]

end Site

open Site

/-- The labels that are kept on the way down are those of the statements around. -/
theorem labelFaults_labels {c : Cat} (around : List (Sigma Node)) (n : Node c) :
    labelFaults (Site.mk around ⟨c, n⟩).labels n = (n.sites around).filterMap labelFault? := by
  induction n using Node.partsInduction generalizing around with
  | step n ih =>
    rw [Node.filterMap_sites]
    unfold labelFaults
    split
    · next span label body =>
      have hbody := ih (.head _) (⟨_, .labeledStmt span label body⟩ :: around)
      have hparts : (Node.labeledStmt span label body).children = [⟨_, body⟩] := rfl
      rw [hparts, List.flatMap_singleton, ← hbody]
      congr 1
      change _ = Option.toList (ite ..)
      split <;> rfl
    · next span label =>
      exact Node.toList_lostJump?.symm.trans (List.append_nil _).symm
    · next span label =>
      exact Node.toList_lostJump?.symm.trans (List.append_nil _).symm
    · next hlabeled hbreak hcontinue =>
      have hown : (Site.mk around ⟨_, n⟩).labelFault? = none := by
        change n.labelFault? _ = none
        unfold Node.labelFault?
        split
        · exact (hlabeled _ _ _ rfl .rfl).elim
        · exact (hbreak _ _ rfl .rfl).elim
        · exact (hcontinue _ _ rfl .rfl).elim
        · rfl
      have hlabel : n.label? = none := by
        unfold Node.label?
        split
        · exact (hlabeled _ _ _ rfl .rfl).elim
        · rfl
      rw [hown, List.flatMap_subtype (g := fun k => labelFaults _ k.2) fun _ _ => rfl,
        List.unattach_attach]
      refine List.flatMap_congr fun k hk => ?_
      have hlabels : (Site.mk (⟨_, n⟩ :: around) k).labels =
          if n.isFunctionLike then [] else (Site.mk around ⟨_, n⟩).labels := by
        rw [labels_part, hlabel, Option.toList_none, List.nil_append]
      rw [← ih hk, ← hlabels]

/-- One violation is recorded for each place where the rules for labels are broken, in visiting
order, and nothing else. -/
theorem validateLabels_exact (p : Program) :
    validateLabels p = ((p.sites []).filterMap labelFault?).map
      (fun (fault, span) => ⟨.violation, span, fault.message⟩) ∧
    (validateLabels p = [] ↔ ∀ s ∈ p.sites [], s.IsWellLabeled) := by
  have hfaults := labelFaults_labels [] p
  refine ⟨congrArg (List.map _) hfaults, ?_⟩
  rw [validateLabels, List.map_eq_nil_iff]
  change labelFaults (Site.mk [] ⟨_, p⟩).labels p = [] ↔ _
  rw [hfaults, List.filterMap_eq_nil_iff]
  exact forall₂_congr fun s _ => labelFault?_eq_none

end PlainJs

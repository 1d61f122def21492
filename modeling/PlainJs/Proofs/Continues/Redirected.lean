import PlainJs.Proofs.Builders
import PlainJs.Proofs.Continues.Targets
import PlainJs.Proofs.Jumps
import PlainJs.Proofs.Kinship

namespace PlainJs

open Around (landing catches labels Chain)
open Effect Run Interp Comparison

namespace Node

/-- What stands around the parts of a node that is no label. -/
def around (env : List Around) (chain : List String) {c : Cat} (n : Node c) : List Around :=
  if n.isLoop then .loop chain :: env else if n.isFunctionLike then [] else env

/-- Whether the jumps in a tree find their targets: no label stands inside a statement with the same
label, a `break` with a label stands inside a statement with that label, and a `continue` inside a
loop, with the given label right before it if there is one. -/
def wellAimed (env : List Around) (chain : List String) {c : Cat} (n : Node c) : Bool :=
  match c, n with
  | _, .labeledStmt _ label body =>
    !(labels env).contains label.name &&
      wellAimed (.label label.name :: env) (label.name :: chain) body
  | _, .breakStmt _ label => label.all fun l => (labels env).contains l.name
  | _, .continueStmt _ label => env.any (catches (label.map (·.name)))
  | _, n => n.children.attach.all fun ⟨⟨_, k⟩, _⟩ => wellAimed (n.around env chain) [] k
termination_by sizeOf n
decreasing_by
  · simp only [labeledStmt.sizeOf_spec]; omega
  · exact sizeOf_lt_of_mem_children ‹_›

theorem wellAimed_part {env : List Around} {chain : List String} {c d : Cat} {n : Node c}
    {k : Node d} (hn : n.isLabeled = false) (h : n.wellAimed env chain = true)
    (hk : ⟨d, k⟩ ∈ n.children) : k.wellAimed (n.around env chain) [] = true := by
  unfold wellAimed at h
  split at h
  next => cases hn
  next => cases hk
  next => cases hk
  next =>
    have hall := List.all_eq_true.mp h
    exact hall ⟨⟨d, k⟩, hk⟩ (List.mem_attach _ _)

end Node

variable {U V : Type} {N : List String} {env : List Around} {chain : List String}
  {ts ts' : List JumpTarget}

/-- The body labels that the targets have. -/
def filled (ts : List JumpTarget) : List String := ts.filterMap fun t => t.bodyLabel.map (·.name)

@[simp] theorem filled_loop_none : filled (.loop none :: ts) = filled ts := rfl

@[simp] theorem filled_loop_some (l : Ident) :
    filled (.loop (some l) :: ts) = l.name :: filled ts := rfl

@[simp] theorem filled_append : filled (ts ++ ts') = filled ts ++ filled ts' :=
  List.filterMap_append

theorem landing_mem_filled {l : Option String} {x : String} (h : landing env ts l = some x) :
    x ∈ filled ts := by
  fun_induction landing env ts l with
  | case1 a env t ts l _ =>
    rw [filled, List.filterMap_cons, h]
    exact .head _
  | case2 a env t ts l _ ih =>
    rw [filled, List.filterMap_cons]
    split
    · exact ih h
    · exact .tail _ (ih h)
  | case3 => cases h

theorem exists_loop_of_landing {a x : String} (h : landing env ts (some a) = some x) :
    ∃ ls, Around.loop ls ∈ env ∧ a ∈ ls := by
  generalize hl : some a = l at h
  fun_induction landing env ts l with
  | case1 b env t ts l hb =>
    subst hl
    cases b with
    | loop ls => exact ⟨ls, .head _, by simpa [catches] using hb⟩
    | label => cases hb
  | case2 b env t ts l _ ih =>
    obtain ⟨ls, hls, ha⟩ := ih hl h
    exact ⟨ls, .tail _ hls, ha⟩
  | case3 => cases h

/-- A `continue` with a label means a loop with that label before it. -/
theorem mem_labels_of_landing {a x : String} (hchain : Chain env chain)
    (h : landing env ts (some a) = some x) : a ∈ labels env := by
  obtain ⟨ls, hls, ha⟩ := exists_loop_of_landing h
  obtain ⟨pre, post, rfl⟩ := List.append_of_mem hls
  obtain ⟨rest, rfl⟩ := hchain.labels_of_loop rfl
  simp [ha]

/-- How the ends of two runs are related: where the old one continues a loop, the new one leaves the
body of that loop, and all other ends are the same. Labels of old breaks are in `N`. -/
inductive Redirected (N : List String) (env : List Around) (ts : List JumpTarget) :
    Completion V → Completion V → Prop
  | continue {l : Option String} {x : String} :
    landing env ts l = some x → Redirected N env ts (.continue l) (.break (some x))
  | break {l : String} : l ∈ N → Redirected N env ts (.break (some l)) (.break (some l))
  | leave : Redirected N env ts (.break none) (.break none)
  | return (v : V) : Redirected N env ts (.return v) (.return v)
  | throw (v : V) : Redirected N env ts (.throw v) (.throw v)
  | normal : Redirected N env ts .normal .normal

namespace Redirected

theorem transparent : Transparent (Redirected (V := V) N env ts) where
  normal := .normal
  throw := .throw
  same h := by
    cases h with
    | «continue» => exact .inr ⟨rfl, rfl⟩
    | _ => exact .inl rfl

theorem mono {env' : List Around} {c c' : Completion V} (h : Redirected N env ts c c')
    (hland : ∀ {l x}, landing env ts l = some x → landing env' ts' l = some x) :
    Redirected N env' ts' c c' := by
  cases h with
  | «continue» hx => exact .continue (hland hx)
  | «break» hl => exact .break hl
  | leave => exact .leave
  | «return» v => exact .return v
  | throw v => exact .throw v
  | normal => exact .normal

/-- What leaves a function is the same. -/
theorem eq_of_nil {c c' : Completion V} (h : Redirected N [] ts c c') : c = c' := by
  cases h with
  | «continue» hx => cases hx
  | _ => rfl

theorem leave_leave {c c' : Completion V} (h : Redirected N env ts c c') :
    Redirected N env ts c.leave c'.leave := by
  cases h with
  | «continue» hx => exact .continue hx
  | «break» hl => exact .break hl
  | leave | normal => exact .normal
  | «return» v => exact .return v
  | throw v => exact .throw v

/-- The end of a labelled statement. -/
theorem leave_label {l : String} (hchain : Chain env chain) (hl : l ∉ labels env) (hN : l ∈ N)
    (hfresh : ∀ x ∈ filled ts, x ∉ N) {c c' : Completion V}
    (h : Redirected N (.label l :: env) (.labeled l :: ts) c c') :
    Option.Rel (Redirected N env ts) (c.leaveLabel l) (c'.leaveLabel l) := by
  cases h with
  | @«continue» a x hx =>
    have hxl : x ≠ l := fun h => hfresh x (landing_mem_filled hx) (h ▸ hN)
    cases a with
    | none =>
      simp only [Completion.leaveLabel, if_neg hxl]
      exact .some (.continue hx)
    | some a =>
      have hal : a ≠ l := fun h => hl (h ▸ mem_labels_of_landing hchain hx)
      simp only [Completion.leaveLabel, if_neg hxl, if_neg hal]
      exact .some (.continue hx)
  | @«break» a ha =>
    simp only [Completion.leaveLabel]
    split
    · exact .some .normal
    · exact .some (.break ha)
  | leave => exact .some .leave
  | «return» v => exact .some (.return v)
  | throw v => exact .some (.throw v)
  | normal => exact .some .normal

end Redirected

/-- Comparison of runs at a place with the given surroundings. -/
abbrev aimed (N : List String) (env : List Around) (ts : List JumpTarget) : Comparison U V :=
  (Comparison.exact U V).withResult (Redirected N env ts) Redirected.transparent

/-- What leaves the body of a loop, once the label of the body has done its work. -/
def BodyRel (N : List String) (env : List Around) (chain : List String) (ts : List JumpTarget)
    (c c' : Completion V) : Prop :=
  c.goesOn chain = true ∧ c' = .normal ∨ c.goesOn chain = false ∧ Redirected N env ts c c'

theorem BodyRel.loopRel : LoopRel chain chain (BodyRel (V := V) N env chain ts)
    (Redirected N env ts) where
  normal := .normal
  throw := .throw
  thrown? := by
    rintro c c' (⟨hgo, rfl⟩ | ⟨_, hc⟩)
    · cases c <;> simp_all [Completion.goesOn, Completion.thrown?]
    · exact Redirected.transparent.thrown?_eq hc
  goesOn := by
    rintro c c' (⟨hgo, rfl⟩ | ⟨hgo, hc⟩)
    · exact hgo
    · cases hc with
      | normal => cases hgo
      | _ => exact hgo
  leave := by
    rintro c c' (⟨hgo, _⟩ | ⟨_, hc⟩) hgo'
    · exact Bool.noConfusion (hgo.symm.trans hgo')
    · exact hc.leave_leave

theorem goesOn_continue (l : Option String) :
    (Completion.continue l : Completion V).goesOn chain = (Around.loop chain).catches l := by
  cases l <;> rfl

/-- The end of the body of a loop that got no label. -/
theorem Redirected.bodyRel {c c' : Completion V}
    (h : Redirected N (.loop chain :: env) (.loop none :: ts) c c') :
    BodyRel N env chain ts c c' := by
  cases h with
  | @«continue» l x hx =>
    rw [landing] at hx
    split at hx
    next => cases hx
    next hgo => exact .inr ⟨by rw [goesOn_continue]; simpa using hgo, .continue hx⟩
  | «break» hl => exact .inr ⟨rfl, .break hl⟩
  | leave => exact .inr ⟨rfl, .leave⟩
  | «return» v => exact .inr ⟨rfl, .return v⟩
  | throw v => exact .inr ⟨rfl, .throw v⟩
  | normal => exact .inl ⟨rfl, rfl⟩

/-- The end of the body of a loop that got a label. -/
theorem Redirected.leave_bodyLabel {label : Ident} (hnot : label.name ∉ filled ts)
    (hN : label.name ∉ N) {c c' : Completion V}
    (h : Redirected N (.loop chain :: env) (.loop (some label) :: ts) c c') :
    ∃ d, c'.leaveLabel label.name = some d ∧ BodyRel N env chain ts c d := by
  cases h with
  | @«continue» l x hx =>
    rw [landing] at hx
    split at hx
    next hgo =>
      obtain rfl : label.name = x := Option.some.inj hx
      refine ⟨.normal, congrArg some (if_pos rfl), .inl ⟨?_, rfl⟩⟩
      rwa [goesOn_continue]
    next hgo =>
      have hne : x ≠ label.name := fun he => hnot (he ▸ landing_mem_filled hx)
      refine ⟨.break (some x), congrArg some (if_neg hne), .inr ⟨?_, .continue hx⟩⟩
      rw [goesOn_continue]
      simpa using hgo
  | @«break» l hl =>
    have hne : l ≠ label.name := fun he => hN (he ▸ hl)
    exact ⟨.break (some l), congrArg some (if_neg hne), .inr ⟨rfl, .break hl⟩⟩
  | leave => exact ⟨_, rfl, .inr ⟨rfl, .leave⟩⟩
  | «return» v => exact ⟨_, rfl, .inr ⟨rfl, .return v⟩⟩
  | throw v => exact ⟨_, rfl, .inr ⟨rfl, .throw v⟩⟩
  | normal => exact ⟨_, rfl, .inl ⟨rfl, rfl⟩⟩

theorem exec_labelBody (I : Interp U V) (temps : List String) (label : Ident) (s : Stmt) :
    I.exec temps [] (Continues.labelBody label s) = labeled label.name (I.exec temps [] s) := by
  rw [Continues.labelBody, Node.Build.labeled, exec_labeledStmt, exec_blockStmt, exec_intoBlock]

theorem functionMeanings_labelBody (I : Interp U V) (temps : List String) (label : Ident)
    (s : Stmt) :
    I.functionMeanings temps (Continues.labelBody label s) = I.functionMeanings temps s := by
  simp [Continues.labelBody, Node.Build.labeled]

theorem hasContinue_labelBody (label : Ident) (s : Stmt) :
    (Continues.labelBody label s).hasContinue = s.hasContinue := by
  simp [Continues.labelBody, Node.Build.labeled]

theorem sim_labelBody {I : Interp U V} {temps : List String} {label : Ident}
    (hnot : label.name ∉ filled ts) (hN : label.name ∉ N) {b b' : Stmt}
    (h : Sim Eq (Redirected N (.loop chain :: env) (.loop (some label) :: ts))
      (I.exec temps [] b) (I.exec temps [] b')) :
    Sim Eq (BodyRel N env chain ts) (I.exec temps [] b)
      (I.exec temps [] (Continues.labelBody label b')) := by
  rw [exec_labelBody, labeled, ← bind_pure (I.exec temps [] b)]
  refine h.bind fun c c' hc => ?_
  obtain ⟨d, hd, hrel⟩ := hc.leave_bodyLabel hnot hN
  rw [hd]
  exact .pure hrel

theorem functionMeanings_of_parts {I : Interp U V} {temps : List String}
    {L : List String → Prop} {c : Cat} {n n' : Node c} (hn : n.isFunctionLike = false)
    (h : Node.Parts ((aimed N env ts).Kin I temps L) n n') :
    I.functionMeanings temps n = I.functionMeanings temps n' :=
  Kin.nested_of_parts (fun hf => Bool.noConfusion (hn.symm.trans hf)) h

end PlainJs

import Mathlib.Data.List.Forall2
import Mathlib.Data.List.Nodup
import PlainJs.Lowering.Continues

namespace PlainJs

/-- A statement around another one: a label, or a loop with the labels right before it. -/
inductive Around
  | label (name : String)
  | loop (labels : List String)
deriving DecidableEq, Repr

namespace Around

/-- Whether a `continue` with this label, or with none, means this loop. -/
def catches (label : Option String) : Around → Bool
  | .loop labels => label.all fun l => labels.contains l
  | .label _ => false

def name? : Around → Option String
  | .label l => some l
  | .loop _ => none

/-- The labels among the statements around, innermost first. -/
def labels (env : List Around) : List String := env.filterMap name?

/-- The labels right before the current statement are `chain`, and every loop around it has its
labels in their places. -/
inductive Chain : List Around → List String → Prop
  | nil : Chain [] []
  | label {env chain} (l : String) : Chain env chain → Chain (.label l :: env) (l :: chain)
  | inside {env chain} : Chain env chain → Chain env []
  | loop {env chain} : Chain env chain → Chain (.loop chain :: env) []

theorem Chain.exists_append {env : List Around} {chain : List String} (h : Chain env chain) :
    ∃ rest, env = chain.map Around.label ++ rest := by
  induction h with
  | nil => exact ⟨[], rfl⟩
  | label l _ ih =>
    obtain ⟨rest, rfl⟩ := ih
    exact ⟨rest, rfl⟩
  | inside => exact ⟨_, rfl⟩
  | loop => exact ⟨_, rfl⟩

theorem Chain.labels_of_loop {env : List Around} {chain : List String} (h : Chain env chain)
    {pre post : List Around} {ls : List String} (he : env = pre ++ .loop ls :: post) :
    ∃ rest, post = ls.map Around.label ++ rest := by
  induction h generalizing pre with
  | nil => simp at he
  | label l _ ih =>
    cases pre with
    | nil => cases he
    | cons a pre => exact ih (List.cons.inj he).2
  | inside _ ih => exact ih he
  | loop hc ih =>
    cases pre with
    | nil =>
      cases he
      exact hc.exists_append
    | cons a pre => exact ih (List.cons.inj he).2

/-- A statement around and the jump target that stands for it. -/
inductive Fits : Around → JumpTarget → Prop
  | label (l : String) : Fits (.label l) (.labeled l)
  | loop (labels : List String) (bodyLabel : Option Ident) : Fits (.loop labels) (.loop bodyLabel)

/-- The label of the body of the loop that a `continue` means, once that body has one. -/
def landing : List Around → List JumpTarget → Option String → Option String
  | a :: env, t :: ts, l =>
    if a.catches l then t.bodyLabel.map (·.name) else landing env ts l
  | _, _, _ => none

end Around

namespace JumpTarget

/-- A target later on: the body of a loop may have got a label. -/
inductive Fill : JumpTarget → JumpTarget → Prop
  | same (t : JumpTarget) : Fill t t
  | fill (label : Ident) : Fill (.loop none) (.loop (some label))

theorem Fill.trans {t u v : JumpTarget} (h₁ : Fill t u) (h₂ : Fill u v) : Fill t v := by
  cases h₁ with
  | same => exact h₂
  | fill label =>
    cases h₂
    exact .fill label

end JumpTarget

open Around JumpTarget

variable {env : List Around} {chain : List String} {ts ts' : List JumpTarget}

theorem fill_trans {us : List JumpTarget} (h : List.Forall₂ Fill ts ts')
    (h' : List.Forall₂ Fill ts' us) : List.Forall₂ Fill ts us := by
  induction h generalizing us with
  | nil => exact h'
  | cons hf _ ih =>
    cases h' with
    | cons hf' h' => exact .cons (hf.trans hf') (ih h')

theorem fits_of_fill (hfit : List.Forall₂ Fits env ts) (h : List.Forall₂ Fill ts ts') :
    List.Forall₂ Fits env ts' := by
  induction hfit generalizing ts' with
  | nil =>
    cases h
    exact .nil
  | cons hf _ ih =>
    cases h with
    | cons hfill h =>
      refine .cons ?_ (ih h)
      cases hfill with
      | same => exact hf
      | fill label =>
        cases hf
        exact .loop _ _

theorem landing_of_fill (h : List.Forall₂ Fill ts ts') {l : Option String} {x : String}
    (hx : landing env ts l = some x) : landing env ts' l = some x := by
  induction h generalizing env with
  | nil => exact hx
  | cons hfill _ ih =>
    cases env with
    | nil => exact hx
    | cons a env =>
      simp only [landing] at hx ⊢
      split
      · rw [if_pos ‹_›] at hx
        cases hfill with
        | same => exact hx
        | fill => cases hx
      · rw [if_neg ‹_›] at hx
        exact ih hx

theorem forall₂_split {α β : Type} {R : α → β → Prop} {pre post : List α} {a : α} {l : List β}
    (h : List.Forall₂ R (pre ++ a :: post) l) : ∃ pre' b post', l = pre' ++ b :: post' ∧
      List.Forall₂ R pre pre' ∧ R a b ∧ List.Forall₂ R post post' := by
  induction pre generalizing l with
  | nil =>
    cases h with
    | cons hab hpost => exact ⟨[], _, _, rfl, .nil, hab, hpost⟩
  | cons x pre ih =>
    cases h with
    | cons hx h =>
      obtain ⟨pre', b, post', rfl, hpre, hab, hpost⟩ := ih h
      exact ⟨_ :: pre', b, post', rfl, .cons hx hpre, hab, hpost⟩

theorem findIdx?_append_cons {α : Type} {p : α → Bool} {pre post : List α} {a : α}
    (hpre : ∀ x ∈ pre, p x = false) (ha : p a = true) :
    (pre ++ a :: post).findIdx? p = some pre.length := by
  induction pre with
  | nil => simp [List.findIdx?_cons, ha]
  | cons x pre ih =>
    have hx := hpre x (.head _)
    have hih := ih fun y hy => hpre y (.tail _ hy)
    simp [List.findIdx?_cons, hx, hih]

/-- The last element of a list with a property, with its place. -/
theorem find?_zipIdx_reverse {α : Type} {p : α → Bool} {pre post : List α} {a : α}
    (hpost : ∀ x ∈ post, p x = false) (ha : p a = true) :
    (pre ++ a :: post).zipIdx.reverse.find? (fun x => p x.1) = some (a, pre.length) := by
  have hnone : (post.zipIdx (pre.length + 1)).reverse.find? (fun x => p x.1) = none := by
    rw [List.find?_eq_none]
    intro x hx
    have hmem := List.fst_mem_of_mem_zipIdx (List.mem_reverse.mp hx)
    simp [hpost _ hmem]
  simp [List.zipIdx_append, List.zipIdx_cons, List.find?_append, hnone, ha]

theorem landing_append {pre post : List Around} {pre' post' : List JumpTarget}
    (h : List.Forall₂ Fits pre pre') {a : Around} {l : Option String}
    (hpre : ∀ x ∈ pre, x.catches l = false) (ha : a.catches l = true) (b : Option Ident) :
    landing (pre ++ a :: post) (pre' ++ .loop b :: post') l = b.map (·.name) := by
  induction h with
  | nil => simp [landing, ha, JumpTarget.bodyLabel]
  | cons _ _ ih =>
    have hx := hpre _ (.head _)
    simp only [List.cons_append, landing, hx]
    exact ih fun y hy => hpre y (.tail _ hy)

theorem isLoop_of_fits {pre : List Around} {pre' : List JumpTarget}
    (h : List.Forall₂ Fits pre pre') (hpre : ∀ x ∈ pre, x.catches none = false) :
    ∀ t ∈ pre', t.isLoop = false := by
  induction h with
  | nil => simp
  | cons hf _ ih =>
    intro t ht
    rcases List.mem_cons.mp ht with rfl | ht
    · cases hf with
      | label => rfl
      | loop => exact absurd (hpre _ (.head _)) (by simp [catches])
    · exact ih (fun y hy => hpre y (.tail _ hy)) t ht

theorem hasLabel_of_fits {pre : List Around} {pre' : List JumpTarget} {a : String}
    (h : List.Forall₂ Fits pre pre') (hpre : a ∉ labels pre) :
    ∀ t ∈ pre', t.hasLabel a = false := by
  induction h with
  | nil => simp
  | cons hf _ ih =>
    intro t ht
    rcases List.mem_cons.mp ht with rfl | ht
    · cases hf with
      | label l =>
        have hne : ¬a = l := by
          simp [labels, name?] at hpre
          exact hpre.1
        simpa [JumpTarget.hasLabel] using fun h => hne h.symm
      | loop => rfl
    · refine ih (fun hmem => hpre ?_) t ht
      rw [labels] at hmem ⊢
      rw [List.filterMap_cons]
      split
      · exact hmem
      · exact .tail _ hmem

@[simp] theorem labels_append (env env' : List Around) :
    labels (env ++ env') = labels env ++ labels env' := List.filterMap_append

@[simp] theorem labels_loop (ls : List String) (env : List Around) :
    labels (.loop ls :: env) = labels env := rfl

@[simp] theorem labels_label (l : String) (env : List Around) :
    labels (.label l :: env) = l :: labels env := rfl

@[simp] theorem labels_map_label (ls : List String) : labels (ls.map Around.label) = ls := by
  induction ls with
  | nil => rfl
  | cons l ls ih => rw [List.map_cons, labels_label, ih]

theorem fits_map_label {ls : List String} {rest : List Around} {post : List JumpTarget}
    (h : List.Forall₂ Fits (ls.map Around.label ++ rest) post) :
    ∃ rest', post = ls.map JumpTarget.labeled ++ rest' := by
  induction ls generalizing post with
  | nil => exact ⟨post, rfl⟩
  | cons l ls ih =>
    cases h with
    | cons hf h =>
      obtain ⟨rest', rfl⟩ := ih h
      cases hf
      exact ⟨rest', rfl⟩

/-- The search for the loop that a `continue` means finds it. -/
theorem resolve_eq {label : Option Ident} (hchain : Chain env chain)
    (hfit : List.Forall₂ Fits env ts) (hnodup : (labels env).Nodup)
    (hl : env.any (catches (label.map (·.name))) = true) :
    ∃ pre b post, ts = pre ++ .loop b :: post ∧ resolve ts label = .ok pre.length ∧
      ∀ b', landing env (pre ++ .loop b' :: post) (label.map (·.name)) = b'.map (·.name) := by
  obtain ⟨a, ha⟩ := Option.isSome_iff_exists.mp (List.find?_isSome.mpr (List.any_eq_true.mp hl))
  obtain ⟨hcatch, pre, post, rfl, hpre⟩ := List.find?_eq_some_iff_append.mp ha
  replace hpre : ∀ x ∈ pre, x.catches (label.map (·.name)) = false := fun x hx => by
    simpa using hpre x hx
  obtain ⟨pre', t, post', rfl, hfpre, hft, hfpost⟩ := forall₂_split hfit
  cases hft with
  | label => cases hcatch
  | loop ls b =>
    refine ⟨pre', b, post', rfl, ?_, fun b' => landing_append hfpre hpre hcatch b'⟩
    cases label with
    | none =>
      have hidx : (pre' ++ .loop b :: post').findIdx? JumpTarget.isLoop = some pre'.length :=
        findIdx?_append_cons (isLoop_of_fits hfpre hpre) rfl
      simp only [resolve, hidx]
    | some l =>
      -- the label is one of those right before the loop, and it stands nowhere further inside
      have hmem : l.name ∈ ls := by simpa [catches] using hcatch
      obtain ⟨rest, rfl⟩ := hchain.labels_of_loop rfl
      obtain ⟨ls₁, ls₂, rfl⟩ := List.append_of_mem hmem
      obtain ⟨rest', rfl⟩ := fits_map_label hfpost
      simp only [labels_append, labels_loop, labels_map_label, List.append_assoc,
        List.cons_append] at hnodup
      have hout : l.name ∉ labels pre ∧ l.name ∉ ls₁ := by
        have hperm := List.nodup_middle.mp (List.append_assoc .. ▸ hnodup)
        have hnot := (List.nodup_cons.mp hperm).1
        simp only [List.mem_append, not_or] at hnot
        exact ⟨hnot.1.1, hnot.1.2⟩
      let before := pre' ++ .loop b :: ls₁.map JumpTarget.labeled
      have hbefore : ∀ t ∈ before, t.hasLabel l.name = false := by
        intro t ht
        rcases List.mem_append.mp ht with ht | ht
        · exact hasLabel_of_fits hfpre hout.1 t ht
        · rcases List.mem_cons.mp ht with rfl | ht
          · rfl
          · obtain ⟨x, hx, rfl⟩ := List.mem_map.mp ht
            simpa [JumpTarget.hasLabel] using fun h : x = l.name => hout.2 (h ▸ hx)
      have hts : pre' ++ .loop b :: ((ls₁ ++ l.name :: ls₂).map JumpTarget.labeled ++ rest') =
          before ++ .labeled l.name :: (ls₂.map JumpTarget.labeled ++ rest') := by
        simp [before]
      have hidx : (before ++ .labeled l.name :: (ls₂.map JumpTarget.labeled ++ rest')).findIdx?
          (JumpTarget.hasLabel l.name) = some before.length :=
        findIdx?_append_cons hbefore (by simp [JumpTarget.hasLabel])
      have hloop : before.zipIdx.reverse.find? (·.1.isLoop) = some (.loop b, pre'.length) :=
        find?_zipIdx_reverse (by simp [JumpTarget.isLoop]) rfl
      simp only [resolve, hts, hidx, List.take_left, hloop]

end PlainJs

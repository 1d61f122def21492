import PlainJs.Lowering.Declarations
import PlainJs.Proofs.Visited

namespace PlainJs

/-- Whether a construct with this span has been reported as one that cannot be lowered. -/
def isReported (ds : List Diagnostic) (span : Span) : Bool :=
  ds.any fun d => d.concern == .unsupported && d.span == span

theorem isReported_of_mem {ds : List Diagnostic} {span : Span} {message : String}
    (h : ⟨.unsupported, span, message⟩ ∈ ds) : isReported ds span = true :=
  List.any_eq_true.mpr ⟨_, h, by simp⟩

theorem isReported_mono {ds ds' : List Diagnostic} {span : Span} (hsub : ds ⊆ ds')
    (h : isReported ds span = true) : isReported ds' span = true := by
  obtain ⟨d, hd, hspan⟩ := List.any_eq_true.mp h
  exact List.any_eq_true.mpr ⟨d, hsub hd, hspan⟩

theorem isReported_eq_false {ds : List Diagnostic} (h : ds.any Diagnostic.isError = false)
    (span : Span) : isReported ds span = false := by
  rw [isReported, List.any_eq_false]
  intro d hd
  have herror := List.any_eq_false.mp h d hd
  simp only [Bool.and_eq_true, beq_iff_eq, not_and]
  rintro hconcern -
  exact herror (by simp [Diagnostic.isError, Diagnostic.severity, hconcern, Concern.severity])

namespace Node

/-- Whether a tree is a pattern that is just an identifier. -/
def isPlainTarget : {c : Cat} → Node c → Bool
  | _, .binder _ => true
  | _, _ => false

/-- Whether an optional part is there. -/
def isPresent : {c : Cat} → Node c → Bool
  | _, .some _ => true
  | _, _ => false

end Node

/-- The surface of a declarator: where it stands, whether it declares just an identifier, and
whether it has an initializer. -/
structure DeclShape where
  span : Span
  isPlain : Bool
  isInitialised : Bool

namespace Node

/-- The declarators of a declaration. -/
def declShape : {c : Cat} → Node c → List DeclShape
  | _, .cons a l => a.declShape ++ l.declShape
  | _, .declarator span _ p init => [⟨span, p.isPlainTarget, init.isPresent⟩]
  | _, .varDecl _ _ _ _ decls => decls.declShape
  | _, .headDecl v => v.declShape
  | _, _ => []

/-- The spans of the declarations of variables and resources among the statements of clauses. -/
def declSpans : {c : Cat} → Node c → List Span
  | _, .cons a l => a.declSpans ++ l.declSpans
  | _, .clause _ _ body => body.declSpans
  | _, .declStmt d => d.declSpans
  | _, .declVar v => v.declSpans
  | _, .varDecl span _ _ _ _ => [span]
  | _, .declUsing span _ _ => [span]
  | _, _ => []

/-- Trees that declare the same on their surface. -/
structure SameOutline {c : Cat} (n n' : Node c) : Prop where
  idents : n.boundIdents = n'.boundIdents
  plain : n.isPlainTarget = n'.isPlainTarget
  present : n.isPresent = n'.isPresent
  decls : n.declShape = n'.declShape

theorem SameOutline.refl {c : Cat} (n : Node c) : SameOutline n n :=
  ⟨rfl, rfl, rfl, rfl⟩

theorem SameOutline.of_parts {c : Cat} {n n' : Node c} (h : Parts SameOutline n n') :
    SameOutline n n' := by
  cases n
  all_goals
    first
      | obtain rfl := h
        exact .refl _
      | obtain ⟨a, ha, rfl⟩ := h
        exact ⟨by first | rfl | exact ha.idents, rfl, rfl, by first | rfl | exact ha.decls⟩
      | obtain ⟨a, ha, b, hb, rfl⟩ := h
        refine ⟨?_, rfl, rfl, ?_⟩
        · first
            | rfl
            | exact ha.idents
            | exact hb.idents
            | exact congrArg₂ (· ++ ·) ha.idents hb.idents
        · first
            | rfl
            | exact congrArg₂ (· ++ ·) ha.decls hb.decls
            | simp only [declShape, ha.plain, hb.present]
      | obtain ⟨a, ha, b, hb, c, hc, h⟩ := h
        first
          | obtain rfl := h
          | obtain ⟨d, hd, rfl⟩ := h
        exact ⟨rfl, rfl, rfl, rfl⟩

theorem declSpans_of_parts {c : Cat} {n n' : Node c}
    (h : Parts (fun k k' => k.declSpans = k'.declSpans) n n') : n.declSpans = n'.declSpans := by
  cases n
  all_goals
    first
      | obtain rfl := h
        rfl
      | obtain ⟨a, ha, rfl⟩ := h
        first | rfl | exact ha
      | obtain ⟨a, ha, b, hb, rfl⟩ := h
        first | rfl | exact hb | exact congrArg₂ (· ++ ·) ha hb
      | obtain ⟨a, ha, b, hb, c, hc, h⟩ := h
        first
          | obtain rfl := h
          | obtain ⟨d, hd, rfl⟩ := h
        rfl

/-- Trees that declare the same on their surface, also seen as statements of a clause. -/
structure Kept {c : Cat} (n n' : Node c) : Prop where
  outline : SameOutline n n'
  spans : n.declSpans = n'.declSpans

theorem Kept.of_parts {c : Cat} {n n' : Node c} (h : Parts Kept n n') : Kept n n' :=
  ⟨.of_parts (h.imp fun _ hk => hk.outline), declSpans_of_parts (h.imp fun _ hk => hk.spans)⟩

end Node

/-- Whether trees of a category declare nothing on their surface. -/
def Cat.isMute : Cat → Bool
  | .stmt | .block | .item => true
  | .list c => c.isMute
  | _ => false

namespace Node

/-- Statements and items declare nothing on their surface. -/
theorem outline_of_isMute {c : Cat} (hc : c.isMute = true) (n : Node c) :
    n.boundIdents = [] ∧ n.isPlainTarget = false ∧ n.isPresent = false ∧ n.declShape = [] := by
  induction n with
  | cons a l iha ihl => simp [boundIdents, isPlainTarget, isPresent, declShape, iha hc, ihl hc]
  | _ => first | exact ⟨rfl, rfl, rfl, rfl⟩ | cases hc

theorem SameOutline.of_isMute {c : Cat} (hc : c.isMute = true) (n n' : Node c) :
    SameOutline n n' := by
  obtain ⟨hi, hp, hs, hd⟩ := outline_of_isMute hc n
  obtain ⟨hi', hp', hs', hd'⟩ := outline_of_isMute hc n'
  exact ⟨hi.trans hi'.symm, hp.trans hp'.symm, hs.trans hs'.symm, hd.trans hd'.symm⟩

theorem isPlainTarget_eq_isBinder (p : Pat) : p.isPlainTarget = p.isBinder := by cases p <;> rfl

end Node

end PlainJs

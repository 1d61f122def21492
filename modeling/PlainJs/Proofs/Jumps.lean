import PlainJs.Proofs.Temporaries

namespace PlainJs

namespace Node

/-- The labels that occur in a tree. -/
def labelNames {c : Cat} (n : Node c) : List String :=
  n.ownLabels ++ n.children.attach.flatMap fun ⟨⟨_, k⟩, _⟩ => labelNames k
termination_by sizeOf n
decreasing_by exact sizeOf_lt_of_mem_children ‹_›

/-- Whether all nodes of a tree pass a test. -/
def all (test : ∀ {d : Cat}, Node d → Bool) {c : Cat} (n : Node c) : Bool :=
  test n && n.children.attach.all fun ⟨⟨_, k⟩, _⟩ => all test k
termination_by sizeOf n
decreasing_by exact sizeOf_lt_of_mem_children ‹_›

theorem all_iff {test : ∀ {d : Cat}, Node d → Bool} {c : Cat} {n : Node c} :
    n.all test = true ↔ test n = true ∧ ∀ {d : Cat} {k : Node d}, ⟨d, k⟩ ∈ n.children →
      k.all test = true := by
  rw [all, Bool.and_eq_true, List.all_eq_true]
  refine and_congr_right fun _ => ⟨fun h d k hk => ?_, fun h k _ => h k.2⟩
  exact h ⟨⟨d, k⟩, hk⟩ (List.mem_attach _ _)

theorem all_part {test : ∀ {d : Cat}, Node d → Bool} {c d : Cat} {n : Node c} {k : Node d}
    (h : n.all test = true) (hk : ⟨d, k⟩ ∈ n.children) : k.all test = true :=
  (all_iff.mp h).2 hk

def isSwitch : {c : Cat} → Node c → Bool
  | _, .switchStmt .. => true
  | _, _ => false

def isTry : {c : Cat} → Node c → Bool
  | _, .tryStmt .. => true
  | _, _ => false

/-- The label of a statement. -/
def label? : {c : Cat} → Node c → Option String
  | _, .labeledStmt _ label _ => .some label.name
  | _, _ => .none

/-- Whether a node is a statement with a label. -/
def isLabeled : {c : Cat} → Node c → Bool
  | _, .labeledStmt .. => true
  | _, _ => false

/-- Whether a node is a `continue`. -/
def isContinue : {c : Cat} → Node c → Bool
  | _, .continueStmt .. => true
  | _, _ => false

/-- Whether there is a `continue` anywhere in a tree. -/
def hasContinue {c : Cat} (n : Node c) : Bool :=
  n.isContinue || n.children.attach.any fun ⟨⟨_, k⟩, _⟩ => hasContinue k
termination_by sizeOf n
decreasing_by exact sizeOf_lt_of_mem_children ‹_›

theorem mem_labelNames {c : Cat} {n : Node c} {x : String} :
    x ∈ n.labelNames ↔ x ∈ n.ownLabels ∨ ∃ d k, ⟨d, k⟩ ∈ n.children ∧ x ∈ labelNames k := by
  rw [labelNames]
  simp

theorem labelNames_part {N : List String} {c d : Cat} {n : Node c} {k : Node d}
    (h : n.labelNames ⊆ N) (hk : ⟨d, k⟩ ∈ n.children) : k.labelNames ⊆ N :=
  fun _ hx => h (mem_labelNames.mpr (.inr ⟨d, k, hk, hx⟩))

theorem hasContinue_eq {c : Cat} (n : Node c) :
    n.hasContinue = (n.isContinue || n.children.any fun k => k.2.hasContinue) := by
  rw [hasContinue]
  simp

theorem hasContinue_eq_false {c : Cat} {n : Node c} :
    n.hasContinue = false ↔
      n.isContinue = false ∧ ∀ k ∈ n.children, k.2.hasContinue = false := by
  rw [hasContinue_eq]
  simp

theorem hasContinue_one {c d : Cat} {n : Node c} {k : Node d} (hn : n.isContinue = false)
    (hparts : n.children = [⟨d, k⟩]) : n.hasContinue = k.hasContinue := by
  rw [hasContinue_eq, hn, hparts, List.any_cons, List.any_nil, Bool.or_false, Bool.false_or]

/-- Nodes of one form whose parts agree on having a `continue`. -/
theorem hasContinue_congr {c : Cat} {n n' : Node c} (hn : n.isContinue = n'.isContinue)
    (hparts : n.children.map (fun k => k.2.hasContinue) =
      n'.children.map fun k => k.2.hasContinue) : n.hasContinue = n'.hasContinue := by
  have hany (l : List (Sigma Node)) :
      (l.any fun k => k.2.hasContinue) = (l.map fun k => k.2.hasContinue).any id := by
    rw [List.any_map]
    rfl
  rw [hasContinue_eq, hasContinue_eq, hn, hany, hany, hparts]

@[simp] theorem hasContinue_nil {c : Cat} : (nil : Node (.list c)).hasContinue = false := by
  rw [hasContinue_eq]
  rfl

@[simp] theorem hasContinue_cons {c : Cat} (a : Node c) (l : Node (.list c)) :
    (cons a l).hasContinue = (a.hasContinue || l.hasContinue) := by
  have hparts : (cons a l).children = [⟨_, a⟩, ⟨_, l⟩] := rfl
  have hown : (cons a l).isContinue = false := rfl
  rw [hasContinue_eq, hown, hparts, List.any_cons, List.any_cons, List.any_nil, Bool.or_false,
    Bool.false_or]

@[simp] theorem hasContinue_block (span : Span) (ctxt : Nat) (stmts : Node (.list .stmt)) :
    (block span ctxt stmts).hasContinue = stmts.hasContinue := hasContinue_one rfl rfl

@[simp] theorem hasContinue_blockStmt (b : Block) : (blockStmt b).hasContinue = b.hasContinue :=
  hasContinue_one rfl rfl

@[simp] theorem hasContinue_labeledStmt (span : Span) (label : Ident) (s : Stmt) :
    (labeledStmt span label s).hasContinue = s.hasContinue := hasContinue_one rfl rfl

@[simp] theorem hasContinue_intoBlock (s : Stmt) :
    (Build.intoBlock s).hasContinue = s.hasContinue := by
  unfold Build.intoBlock
  split
  · rw [hasContinue_blockStmt]
  · simp [Build.block, ofList]

theorem hasContinue_mapLoopBody {f : Stmt → Stmt} (hf : ∀ b, (f b).hasContinue = b.hasContinue)
    {c : Cat} (n : Node c) : (n.mapLoopBody f).hasContinue = n.hasContinue := by
  unfold mapLoopBody
  split
  next b => exact hasContinue_congr rfl (congrArg (fun x => [_, x]) (hf b))
  next b => exact hasContinue_congr rfl (congrArg (fun x => [_, x]) (hf b))
  next b => exact hasContinue_congr rfl (congrArg (fun x => [_, _, _, x]) (hf b))
  next b => exact hasContinue_congr rfl (congrArg (fun x => [_, _, x]) (hf b))
  next b => exact hasContinue_congr rfl (congrArg (fun x => [_, _, x]) (hf b))
  next => rfl

theorem Parts.isContinue_eq {P : ∀ {d : Cat}, Node d → Node d → Prop} {c : Cat} {n n' : Node c}
    (h : Parts P n n') : n.isContinue = n'.isContinue :=
  h.form_eq isContinue fun m => by cases m <;> rfl

/-- A tree of which the parts have no `continue`, and which is none itself. -/
theorem hasContinue_of_parts {P : ∀ {d : Cat}, Node d → Node d → Prop} {c : Cat} {n n' : Node c}
    (h : Parts P n n') (hn : n.isContinue = false)
    (hP : ∀ {d : Cat} {k k' : Node d}, P k k' → k'.hasContinue = false) :
    n'.hasContinue = false := by
  refine hasContinue_eq_false.mpr ⟨h.isContinue_eq ▸ hn, ?_⟩
  have hc := h.children
  generalize n.children = l at hc
  generalize n'.children = l' at hc
  induction hc with
  | nil => exact List.forall_mem_nil _
  | cons hk _ ih =>
    obtain ⟨hk⟩ := hk
    exact List.forall_mem_cons.mpr ⟨hP hk, ih⟩

theorem isLabeled_eq_false {c : Cat} {n : Node c} (h : ∀ (span : Span) (label : Ident)
    (body : Stmt), c = .stmt → n ≍ labeledStmt span label body → False) :
    n.isLabeled = false := by
  cases n <;> first | rfl | exact (h _ _ _ rfl .rfl).elim

theorem isContinue_eq_false {c : Cat} {n : Node c} (h : ∀ (span : Span) (label : Option Ident),
    c = .stmt → n ≍ continueStmt span label → False) : n.isContinue = false := by
  cases n <;> first | rfl | exact (h _ _ rfl .rfl).elim

end Node

end PlainJs

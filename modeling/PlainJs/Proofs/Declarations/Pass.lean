import PlainJs.Proofs.Balance
import PlainJs.Proofs.Declarations.Split

namespace PlainJs

open Node Declarations

/-- Whether no declaration stands outermost in the trees of a category. The items of a list are
looked at from the list. -/
def Cat.isClosed : Cat → Bool
  | .decl | .item => false
  | .list .item => true
  | .list c | .opt c => c.isClosed
  | _ => true

namespace Node

def isDeclVar : {c : Cat} → Node c → Bool
  | _, .declVar _ => true
  | _, _ => false

/-- Whether a tree is no variable declaration that its surroundings would have to split. -/
def isLoose : {c : Cat} → Node c → Bool
  | _, .declVar _ => false
  | _, .exportDecl _ (.declVar _) => false
  | .decl, _ | .item, _ => true
  | c, _ => c.isClosed

end Node

variable {known : List Diagnostic} {w w' : Measure known} {T : Terms} {c : Cat}

theorem isLoose_of_isClosed {d : Cat} {k : Node d} (h : d.isClosed = true) :
    k.isLoose = true := by
  cases k <;> first | exact h | cases h

theorem isLoose_list (l : Node (.list c)) : l.isLoose = (Cat.list c).isClosed := by
  cases l <;> rfl

theorem isClosed_list (hc : c ≠ .item) : (Cat.list c).isClosed = c.isClosed := by
  cases c <;> first | rfl | exact absurd rfl hc

theorem isLoose_part {n : Node c} (hn : n.isLoose = true)
    (h₃ : ∀ (span : Span) (v : VarDecl) (rest : Node (.list .item)), c = .list .item →
      n ≍ cons (.exportDecl span (.declVar v)) rest → False)
    (h₄ : ∀ v : VarDecl, c = .stmt → n ≍ declStmt (.declVar v) → False)
    {d : Cat} {k : Node d} (hk : ⟨d, k⟩ ∈ n.children) : k.isLoose = true := by
  have key : ∀ k ∈ n.children, k.2.isLoose = true := by
    cases n with
    | @cons c a l =>
      rw [isLoose_list] at hn
      refine List.forall_mem_cons.mpr ⟨?_, List.forall_mem_singleton.mpr ?_⟩
      swap
      · rw [isLoose_list, hn]
      by_cases hc : c = .item
      · subst hc
        cases a with
        | exportDecl span d =>
          cases d with
          | declVar v => exact (h₃ _ _ _ rfl .rfl).elim
          | _ => rfl
        | _ => rfl
      · exact isLoose_of_isClosed (isClosed_list hc ▸ hn)
    | @some c a => exact List.forall_mem_singleton.mpr (isLoose_of_isClosed hn)
    | declStmt d =>
      cases d with
      | declVar v => exact (h₄ _ rfl .rfl).elim
      | _ => exact List.forall_mem_singleton.mpr rfl
    | exportDecl span d =>
      cases d with
      | declVar v => cases hn
      | _ => exact List.forall_mem_singleton.mpr rfl
    | _ =>
      repeat'
        first
          | exact List.forall_mem_nil _
          | refine List.forall_mem_cons.mpr ⟨isLoose_of_isClosed rfl, ?_⟩
  exact key _ hk

theorem of_reexport (w : Measure known) (fr : Frame) (names : NameSupply) (span : Span) (a : Stmt) :
    w.of fr (reexport names span a) = w.of fr a := by
  unfold reexport
  split
  · split <;> simp
  · exact Measure.of_stmtItem a

theorem all_map_of_eq {d : Cat} {f : Node d → Node c} {fr : Frame}
    (h : ∀ a, w.of fr (f a) = w.of fr a) (l : List (Node d)) :
    w.all fr (l.map f) = w.all fr l := by
  induction l with
  | nil => rfl
  | cons a l ih => simp [h, ih]

/-- The pass keeps what a tree declares on its surface. -/
theorem outline_splitDeclarations (n : Node c) (s : Context) :
    SameOutline n ((splitDeclarations n).run s).1 := by
  induction c, n using splitDeclarations.induct generalizing s with
  | case1 | case2 | case3 | case4 => exact .of_isMute rfl _ _
  | case5 c n h₁ h₂ h₃ h₄ ih =>
    rw [splitDeclarations.eq_5 n h₁ h₂ h₃ h₄]
    exact .of_parts (parts_traverse lowering (fun k hk s => ih k hk s) s)

section

variable (hturn : w.Turns w' isDeclVar)
include hturn

theorem Measure.Turns.of_declVar (fr : Frame) (v : VarDecl) :
    w.of fr (.declVar v) = w.of fr v := by
  rw [Measure.of_eq, hturn.rewritten rfl, Nat.zero_add]
  exact Nat.add_zero _

/-- A tree that the pass only goes through counts what it has counted before. -/
theorem own_of_outline
    (hswitch : ∀ {fr : Frame} {c : Cat} {n : Node c}, n.isSwitch = true → w'.own fr n = 0)
    {n n' : Node c} (hloose : n.isLoose = true ∨ ∀ fr v, w'.own fr (.declVar v) = 0) {fr : Frame}
    (h : Parts SameOutline n n') : w'.own fr n' = w.own fr n := by
  by_cases hs : n.isSwitch = true
  · have hs' : n'.isSwitch = true :=
      (h.form_eq isSwitch fun m => by cases m <;> rfl).symm.trans hs
    have hd : n.isDeclVar = false := by cases n <;> first | rfl | cases hs
    rw [hswitch hs', ← hturn.agree hd, hswitch hs]
  · have hown : w'.own fr n = w'.own fr n' :=
      w'.own_parts (h.imp fun _ hk => ⟨hk, fun hs' => absurd hs' hs⟩)
    cases hd : n.isDeclVar with
    | false => rw [← hown, hturn.agree hd]
    | true =>
      cases n with
      | declVar v =>
        rw [← hown, hturn.rewritten rfl, hloose.resolve_left nofun]
      | _ => cases hd

/-- The pass keeps weights that do not look at declarations; what it leaves of declarations counts
nothing. -/
theorem costs_splitDeclarations
    (hswitch : ∀ {fr : Frame} {c : Cat} {n : Node c}, n.isSwitch = true → w'.own fr n = 0)
    (n : Node c) (hloose : n.isLoose = true ∨ ∀ fr v, w'.own fr (.declVar v) = 0) (fr : Frame) :
    w.Costs T (w'.of fr) (w.of fr n) (splitDeclarations n) := by
  induction c, n using splitDeclarations.induct generalizing fr with
  | case1 v rest ihv ihrest =>
    rw [splitDeclarations]
    have hv := ihv (.inl (isLoose_of_isClosed rfl)) fr
    have hrest := ihrest (.inl (isLoose_of_isClosed rfl)) fr
    refine (hv.bind (b := w.of fr rest) fun v' => ?_).congr ?_
    · refine (Measure.Costs.of_held hturn.held hturn.admits (w'.costs_splitIfNeeded fr v')).bind fun stmts => ?_
      rw [Nat.add_comm]
      exact hrest.bind fun rest' => .pure (by simp [prepend, Nat.add_comm])
    · simp [hturn.of_declVar]
  | case2 v rest ihv ihrest =>
    rw [splitDeclarations]
    have hv := ihv (.inl (isLoose_of_isClosed rfl)) fr
    have hrest := ihrest (.inl (isLoose_of_isClosed rfl)) fr
    refine (hv.bind (b := w.of fr rest) fun v' => ?_).congr ?_
    · refine (Measure.Costs.of_held hturn.held hturn.admits (w'.costs_splitIfNeeded fr v')).bind fun stmts => ?_
      rw [Nat.add_comm]
      exact hrest.bind fun rest' => .pure (by
        simp [prepend, all_map_of_eq Measure.of_stmtItem, Nat.add_comm])
    · simp [hturn.of_declVar]
  | case3 span v rest ihv ihrest =>
    rw [splitDeclarations]
    have hv := ihv (.inl (isLoose_of_isClosed rfl)) fr
    have hrest := ihrest (.inl (isLoose_of_isClosed rfl)) fr
    refine (hv.bind (b := w.of fr rest) fun v' => ?_).congr ?_
    · split
      next =>
        refine (Measure.Costs.of_held hturn.held hturn.admits (w'.costs_split fr v')).bind fun stmts => ?_
        refine .look fun cx => ?_
        rw [Nat.add_comm]
        exact hrest.bind fun rest' => .pure (by
          simp [prepend, all_map_of_eq (of_reexport w' fr cx.names span), Nat.add_comm])
      next h =>
        have hsettled : w'.of fr (.declVar v') = w'.of fr v' :=
          Measure.of_declVar (Measure.needsSplit_eq_false (Bool.eq_false_iff.mpr h))
        rw [Nat.add_comm]
        exact hrest.bind fun rest' => .pure (by simp [hsettled, Nat.add_comm])
    · simp [hturn.of_declVar]
  | case4 v ihv =>
    rw [splitDeclarations]
    refine ((ihv (.inl (isLoose_of_isClosed rfl)) fr).bind (b := 0) fun v' => ?_).congr ?_
    · split
      next =>
        exact (Measure.Costs.of_held hturn.held hturn.admits (w'.costs_split fr v')).bind fun stmts =>
          .pure (by simp)
      next h =>
        have hsettled : w'.of fr (.declVar v') = w'.of fr v' :=
          Measure.of_declVar (Measure.needsSplit_eq_false (Bool.eq_false_iff.mpr h))
        exact .pure (by simp [hsettled])
    · simp [hturn.of_declVar]
  | case5 c n h₁ h₂ h₃ h₄ ih =>
    rw [splitDeclarations.eq_5 n h₁ h₂ h₃ h₄]
    refine Measure.Costs.traverse (fun k _ s => outline_splitDeclarations k s) ?_ fun k hk => ?_
    · intro n' hparts
      exact own_of_outline hturn hswitch hloose hparts
    · exact ih k hk (hloose.imp_left fun h => isLoose_part h h₃ h₄ hk) _

end

end PlainJs

import PlainJs.Proofs.Loops.Iterators

namespace PlainJs

namespace Decimal

theorem stripZeros_value (fuel n : Nat) {e : Int} (he : 0 ≤ e) :
    0 ≤ (stripZeros fuel n e).2 ∧
      (stripZeros fuel n e).1 * Nat.pow 10 (stripZeros fuel n e).2.toNat = n * Nat.pow 10 e.toNat := by
  induction fuel generalizing n e with
  | zero => exact ⟨he, rfl⟩
  | succ fuel ih =>
    rw [stripZeros]
    split
    next h =>
      obtain ⟨h₁, h₂⟩ := ih (n / 10) (e := e + 1) (by omega)
      have hn : n / 10 * 10 = n := by
        have hmod : n % 10 = 0 := beq_iff_eq.mp (Bool.and_eq_true_iff.mp h).1
        omega
      have he' : (e + 1).toNat = e.toNat + 1 := by omega
      refine ⟨h₁, h₂.trans ?_⟩
      rw [he', Nat.pow_eq, Nat.pow_eq, Nat.pow_succ, Nat.mul_comm (10 ^ _), ← Nat.mul_assoc, hn]
    next => exact ⟨he, rfl⟩

theorem toNat?_ofNat (n : Nat) : (ofNat n).toNat? = some n := by
  unfold ofNat canonical
  split
  next h =>
    obtain rfl : n = 0 := by simpa using h
    rfl
  next =>
    obtain ⟨h₁, h₂⟩ := stripZeros_value n.log2 n (Int.le_refl 0)
    simp only [toNat?, Bool.false_and, Bool.false_eq_true, if_false, if_pos h₁, h₂]
    rw [Int.toNat_zero, Nat.pow_eq, Nat.pow_zero, Nat.mul_one]

end Decimal

/-- An interpretation in which all code throws zero. -/
def Interp.throwing : Interp Unit Decimal where
  undefined := .ofNat 0
  bool b := .ofNat b.toNat
  num := id
  truthy v := v != .ofNat 0
  strictEq v w := v == w
  atMost v w := decide (v.toNat?.getD 0 ≤ w.toNat?.getD 0)
  truthy_bool b := by cases b <;> rfl
  atMost_num m n := by simp [Decimal.toNat?_ofNat]
  field v _ := v
  expr _ _ := throw (.ofNat 0)
  leaf _ _ := throw (.ofNat 0)
  declareName _ _ _ := throw (.ofNat 0)
  declarePattern _ _ _ := throw (.ofNat 0)
  assign _ _ _ := throw (.ofNat 0)
  bindHead _ _ _ := throw (.ofNat 0)
  catchName _ _ := id
  catchPattern _ _ _ := throw (.ofNat 0)
  iterator _ _ := throw (.ofNat 0)
  keyHelper := "keys"
  keys _ := throw (.ofNat 0)
  next _ _ := throw (.ofNat 0)
  close _ _ := throw (.ofNat 0)
  enterWith _ := throw (.ofNat 0)
  leaveWith := id

theorem Run.evaluating_throw {S V A : Type} (v : V) (k : A → Effect S (Completion V)) :
    evaluating (throw v) k = pure (.throw v) := by
  change (pure (Except.error v) >>= fun (x : Except V A) => _) = _
  rw [pure_bind]

namespace Interp

theorem lift_throw {U V A : Type} (v : V) :
    lift (throw v : Action U V A) = (throw v : Action (State U V) V A) := by
  funext s
  exact Part.map_some _ _

theorem value_throwing (temps : List String) :
    throwing.value temps (Node.Build.call (Node.Build.name "f") []) = throw (.ofNat 0) := by
  have hcall : Node.Build.call (Node.Build.name "f") [] =
      .call .none 0 (.exprCallee (.ref (.ofName "f"))) .nil := rfl
  have hother : loopCall throwing temps (.nil : Node (.list .arg))
      (.exprCallee (.ref (.ofName "f"))) = .other := by
    rw [loopCall, loopCall.ofCallee, if_neg fun h => absurd h.1 (by decide)]
  rw [hcall, value_eq, codeOf_call, codeOf_exprCallee, codeOf_ref, codeOf_nil,
    eval_call_other _ hother]
  exact lift_throw _

end Interp

end PlainJs

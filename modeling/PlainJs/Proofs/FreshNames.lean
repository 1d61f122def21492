import Mathlib.Data.List.Dedup
import Mathlib.Data.List.Nodup
import Mathlib.Data.List.Perm.Subperm
import PlainJs.Lowering.Context

namespace PlainJs

namespace NameSupply

/-- What the names of new variables are made from. -/
def hints : List String :=
  ["tmp", "key", "iter", "keys", "step", "matched", "disc", "caseIndex", "threw", "err", "e"]

/-- What the names of new labels are made from. -/
def labelHints : List String := ["L", "S"]

theorem numbered_injective (hint : String) : Function.Injective (numbered hint) := by
  intro m n h
  have hd : Nat.toDigits 10 m = Nat.toDigits 10 n := by
    have hl := congrArg String.toList h
    simpa [numbered] using hl
  rw [← Nat.ofDigitChars_ten_toDigits (n := m), hd, Nat.ofDigitChars_ten_toDigits]

/-- The search passes over candidates in use, and stops before the last one only at a free one. -/
theorem firstFree_eq_numbered (reserved : List String) (hint : String) (count n : Nat) :
    ∃ k ≤ count, firstFree reserved hint count n = numbered hint (n + k) ∧
      (∀ i < k, numbered hint (n + i) ∈ reserved) ∧
      (k < count → numbered hint (n + k) ∉ reserved) := by
  induction count generalizing n with
  | zero =>
    exact ⟨0, Nat.le_refl 0, rfl, fun i hi => absurd hi (Nat.not_lt_zero i),
      fun h => absurd h (Nat.lt_irrefl 0)⟩
  | succ count ih =>
    rw [firstFree]
    split
    next hused =>
      obtain ⟨k, hk, heq, hbefore, hfree⟩ := ih (n + 1)
      have hshift (i : Nat) : n + 1 + i = n + (i + 1) := by omega
      simp only [hshift] at heq hbefore hfree
      refine ⟨k + 1, Nat.succ_le_succ hk, heq, fun i hi => ?_, fun h => hfree (by omega)⟩
      cases i with
      | zero => exact hused
      | succ i => exact hbefore i (by omega)
    next hfree =>
      exact ⟨0, Nat.zero_le _, rfl, fun i hi => absurd hi (Nat.not_lt_zero i), fun _ => hfree⟩

/-- Names that differ from each other are not more than the names they are among. -/
theorem le_length_dedup_of_injective {f : Nat → String} (hf : f.Injective) {names : List String}
    {k : Nat} (h : ∀ i < k, f i ∈ names) : k ≤ names.dedup.length := by
  have hnodup : ((List.range k).map f).Nodup := List.nodup_range.map hf
  have hsub : (List.range k).map f ⊆ names.dedup := by
    intro x hx
    obtain ⟨i, hi, rfl⟩ := List.mem_map.mp hx
    exact List.mem_dedup.mpr (h i (List.mem_range.mp hi))
  simpa using (hnodup.subperm hsub).length_le

theorem firstFree_notMem (reserved : List String) (hint : String) (n : Nat) :
    firstFree reserved hint reserved.length n ∉ reserved := by
  intro hmem
  obtain ⟨k, hk, heq, hbefore, hfree⟩ := firstFree_eq_numbered reserved hint reserved.length n
  rw [heq] at hmem
  have hlast : k = reserved.length := by
    by_contra hne
    exact hfree (by omega) hmem
  -- All candidates up to the last one are in use, one more than there are names.
  have hused : ∀ i < k + 1, numbered hint (n + i) ∈ reserved := by
    intro i hi
    rcases Nat.lt_succ_iff_lt_or_eq.mp hi with hi | rfl
    · exact hbefore i hi
    · exact hmem
  have hinj : Function.Injective fun i => numbered hint (n + i) :=
    fun i j hij => Nat.add_left_cancel (numbered_injective hint hij)
  have hle := le_length_dedup_of_injective hinj hused
  have hdedup := (List.dedup_sublist reserved).length_le
  omega

/-- A name that a hint can give: the hint itself, or the hint with a number behind it. -/
def Stems (hint name : String) : Prop := name = hint ∨ ∃ n, name = numbered hint n

theorem stems_firstFree (reserved : List String) (hint : String) (count n : Nat) :
    Stems hint (firstFree reserved hint count n) := by
  obtain ⟨k, -, heq, -⟩ := firstFree_eq_numbered reserved hint count n
  exact .inr ⟨n + k, heq⟩

theorem stems_pick (s : NameSupply) (hint : String) : Stems hint (s.pick hint) := by
  unfold pick
  split
  · exact stems_firstFree _ _ _ _
  · exact .inl rfl

theorem Stems.isPrefix {hint name : String} (h : Stems hint name) : hint.toList <+: name.toList := by
  rcases h with rfl | ⟨n, rfl⟩
  · exact List.prefix_rfl
  · rw [numbered, String.toList_append]
    exact List.prefix_append _ _

theorem pick_notMem (s : NameSupply) (hint : String) : s.pick hint ∉ s.reserved := by
  unfold pick
  split
  · exact firstFree_notMem _ _ _
  · assumption

end NameSupply

end PlainJs

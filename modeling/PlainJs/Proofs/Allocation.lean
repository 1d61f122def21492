import Mathlib.Algebra.GroupWithZero.Nat
import Mathlib.Data.Finset.Card
import PlainJs.Proofs.FreshNames

namespace PlainJs

namespace NameSupply

/-- The candidates in the order in which they are tried: the hint, then the hint with the numbers
from one on. -/
def candidate (hint : String) : Nat → String
  | 0 => hint
  | n + 1 => hint ++ toString (n + 1)

theorem numbered_eq (hint : String) (n : Nat) : numbered hint n = hint ++ toString n := by
  rw [numbered, Nat.toString_eq_ofList_toDigits]

theorem candidate_succ (hint : String) (n : Nat) :
    candidate hint (n + 1) = numbered hint (n + 1) :=
  (numbered_eq hint (n + 1)).symm

theorem hint_ne_numbered (hint : String) (n : Nat) : hint ≠ numbered hint n := by
  intro h
  have hlist : hint.toList = hint.toList ++ Nat.toDigits 10 n := by
    simpa [numbered] using congrArg String.toList h
  exact Nat.toDigits_ne_nil (List.self_eq_append_right.mp hlist)

theorem candidate_injective (hint : String) : (candidate hint).Injective := by
  intro m n h
  cases m with
  | zero =>
    cases n with
    | zero => rfl
    | succ n => exact absurd (h.trans (candidate_succ hint n)) (hint_ne_numbered hint _)
  | succ m =>
    cases n with
    | zero => exact absurd (h.symm.trans (candidate_succ hint m)) (hint_ne_numbered hint _)
    | succ n =>
      rw [candidate_succ, candidate_succ] at h
      exact numbered_injective hint h

/-- The names in use, each counted once. -/
def inUse (s : NameSupply) : Finset String := s.reserved.toFinset

/-- The name that is picked is the first free candidate, with a number that is not larger than the
number of names in use. -/
theorem pick_eq_candidate (s : NameSupply) (hint : String) :
    ∃ n ≤ s.inUse.card, s.pick hint = candidate hint n ∧
      ∀ m < n, candidate hint m ∈ s.reserved := by
  suffices h : ∃ n, s.pick hint = candidate hint n ∧ ∀ m < n, candidate hint m ∈ s.reserved by
    obtain ⟨n, heq, hbefore⟩ := h
    refine ⟨n, ?_, heq, hbefore⟩
    rw [inUse, List.card_toFinset]
    exact le_length_dedup_of_injective (candidate_injective hint) hbefore
  unfold pick
  split
  next hused =>
    obtain ⟨k, -, heq, hbefore, -⟩ := firstFree_eq_numbered s.reserved hint s.reserved.length 1
    refine ⟨k + 1, ?_, fun m hm => ?_⟩
    · rw [heq, candidate_succ, Nat.add_comm]
    · cases m with
      | zero => exact hused
      | succ m =>
        rw [candidate_succ, Nat.add_comm]
        exact hbefore m (by omega)
  next => exact ⟨0, rfl, fun m hm => absurd hm (Nat.not_lt_zero m)⟩

/-- What an unbounded search with a counter of 32 bits, which goes from its last number to zero, has
found after `rounds` candidates from `n` on. -/
def wordSearch (reserved : List String) (hint : String) : (rounds : Nat) → UInt32 → Option String
  | 0, _ => none
  | rounds + 1, n =>
    let name := hint ++ toString n.toNat
    if name ∈ reserved then wordSearch reserved hint rounds (n + 1) else some name

theorem wordSearch_eq {reserved : List String} {hint : String} {k rounds : Nat} {n : UInt32}
    (hrounds : k < rounds) (hword : n.toNat + k < 2 ^ 32)
    (hbefore : ∀ i < k, numbered hint (n.toNat + i) ∈ reserved)
    (hfree : numbered hint (n.toNat + k) ∉ reserved) :
    wordSearch reserved hint rounds n = some (numbered hint (n.toNat + k)) := by
  induction rounds generalizing k n with
  | zero => exact absurd hrounds (Nat.not_lt_zero k)
  | succ rounds ih =>
    rw [wordSearch, ← numbered_eq]
    cases k with
    | zero => exact if_neg hfree
    | succ k =>
      have hused : numbered hint n.toNat ∈ reserved := hbefore 0 (Nat.zero_lt_succ k)
      -- The counter does not start again, since the free candidate has a larger number.
      have hnext : (n + 1).toNat = n.toNat + 1 := by
        rw [UInt32.toNat_add, UInt32.toNat_one]
        exact Nat.mod_eq_of_lt (by omega)
      have hshift (i : Nat) : n.toNat + (i + 1) = (n + 1).toNat + i := by omega
      rw [hshift] at hfree hword ⊢
      rw [if_pos hused]
      refine ih (Nat.lt_of_succ_lt_succ hrounds) hword (fun i hi => ?_) hfree
      rw [← hshift]
      exact hbefore (i + 1) (Nat.succ_lt_succ hi)

/-- A request for the name of a variable or of a label. -/
inductive Request where
  | name (hint : String)
  | label (hint : String)

def Request.hint : Request → String
  | .name hint | .label hint => hint

def grant (s : NameSupply) : Request → String × NameSupply
  | .name hint => s.fresh hint
  | .label hint => s.freshLabel hint

/-- The names for a sequence of requests, and the supply after them. -/
def grantAll (s : NameSupply) : List Request → List String × NameSupply
  | [] => ([], s)
  | r :: rs =>
    let (x, t) := s.grant r
    let (xs, u) := t.grantAll rs
    (x :: xs, u)

/-- A request is granted with the name `x`: it is the first free candidate, and from `s` to `t`
nothing changes but that it is in use and known as made. -/
structure Grants (s : NameSupply) (r : Request) (x : String) (t : NameSupply) : Prop where
  first : ∃ n ≤ s.inUse.card, x = candidate r.hint n ∧ ∀ m < n, candidate r.hint m ∈ s.reserved
  free : x ∉ s.reserved
  reserved : ∀ y, y ∈ t.reserved ↔ y = x ∨ y ∈ s.reserved
  made : ∀ y, t.isMade y = true ↔ y = x ∨ s.isMade y = true
  madeLabels : ∀ y, t.isMadeLabel y = true ↔
    (r = .label r.hint ∧ y = x) ∨ s.isMadeLabel y = true

theorem grants_grant (s : NameSupply) (r : Request) :
    s.Grants r (s.grant r).1 (s.grant r).2 := by
  cases r with
  | name hint =>
    exact {
      first := s.pick_eq_candidate hint
      free := s.pick_notMem hint
      reserved := fun _ => List.mem_cons
      made := fun y => by simp [grant, fresh, isMade]
      madeLabels := fun y => by simp [grant, fresh, isMadeLabel] }
  | label hint =>
    exact {
      first := s.pick_eq_candidate hint
      free := s.pick_notMem hint
      reserved := fun _ => List.mem_cons
      made := fun y => by simp [grant, freshLabel, fresh, isMade]
      madeLabels := fun y => by simp [grant, freshLabel, fresh, isMadeLabel, Request.hint] }

/-- A counter of 32 bits finds the name within as many rounds as there are names in use. -/
theorem wordSearch_eq_grant (s : NameSupply) (r : Request) (hused : r.hint ∈ s.reserved)
    (hsize : s.inUse.card < 2 ^ 32) :
    wordSearch s.reserved r.hint s.inUse.card 1 = some (s.grant r).1 := by
  have hgrant := s.grants_grant r
  obtain ⟨n, hn, heq, hbefore⟩ := hgrant.first
  have hfree := hgrant.free
  rw [heq] at hfree ⊢
  cases n with
  | zero => exact absurd hused hfree
  | succ k =>
    rw [candidate_succ, Nat.add_comm] at hfree ⊢
    refine wordSearch_eq hn (by rw [UInt32.toNat_one]; omega) (fun i hi => ?_) hfree
    have hmem := hbefore (i + 1) (Nat.succ_lt_succ hi)
    rwa [candidate_succ, Nat.add_comm] at hmem

/-- Requests are granted with the names `xs`: they are new and differ from each other, and from `s`
to `t` nothing changes but that they are in use and known as made. -/
structure GrantsAll (s : NameSupply) (rs : List Request) (xs : List String) (t : NameSupply) :
    Prop where
  length : xs.length = rs.length
  nodup : xs.Nodup
  free : ∀ x ∈ xs, x ∉ s.reserved
  reserved : ∀ y, y ∈ t.reserved ↔ y ∈ xs ∨ y ∈ s.reserved
  made : ∀ y, t.isMade y = true ↔ y ∈ xs ∨ s.isMade y = true
  madeLabels : ∀ y, t.isMadeLabel y = true ↔
    (∃ hint, (.label hint, y) ∈ rs.zip xs) ∨ s.isMadeLabel y = true

namespace GrantsAll

theorem nil (s : NameSupply) : s.GrantsAll [] [] s where
  length := rfl
  nodup := .nil
  free x hx := absurd hx List.not_mem_nil
  reserved y := by simp
  made y := by simp
  madeLabels y := by simp

theorem cons {s t u : NameSupply} {r : Request} {rs : List Request} {x : String}
    {xs : List String} (h : s.Grants r x t) (h' : t.GrantsAll rs xs u) :
    s.GrantsAll (r :: rs) (x :: xs) u where
  length := congrArg (· + 1) h'.length
  nodup := by
    -- The name `x` is in use when the others are looked for.
    have hx : x ∉ xs := fun hmem => h'.free x hmem ((h.reserved x).mpr (.inl rfl))
    exact List.nodup_cons.mpr ⟨hx, h'.nodup⟩
  free := by
    refine List.forall_mem_cons.mpr ⟨h.free, fun y hy hmem => ?_⟩
    exact h'.free y hy ((h.reserved y).mpr (.inr hmem))
  reserved y := by
    rw [h'.reserved, h.reserved, List.mem_cons]
    tauto
  made y := by
    rw [h'.made, h.made, List.mem_cons]
    tauto
  madeLabels y := by
    have hhead : (∃ hint, (Request.label hint, y) = (r, x)) ↔ r = .label r.hint ∧ y = x := by
      cases r <;> simp [Request.hint]
    rw [h'.madeLabels, h.madeLabels, ← hhead]
    simp only [List.zip_cons_cons, List.mem_cons, exists_or]
    tauto

end GrantsAll

theorem grantsAll_grantAll (s : NameSupply) (rs : List Request) :
    s.GrantsAll rs (s.grantAll rs).1 (s.grantAll rs).2 := by
  induction rs generalizing s with
  | nil => exact .nil s
  | cons r rs ih => exact .cons (s.grants_grant r) (ih (s.grant r).2)

/-- Every request gets the first free candidate of its hint, which a counter of 32 bits reaches while
fewer than `2 ^ 32` names are in use, and the names for any sequence of requests differ. -/
theorem grant_first_free_distinct (s : NameSupply) :
    (∀ r, s.Grants r (s.grant r).1 (s.grant r).2 ∧
      (r.hint ∈ s.reserved → s.inUse.card < 2 ^ 32 →
        wordSearch s.reserved r.hint s.inUse.card 1 = some (s.grant r).1)) ∧
      ∀ rs, s.GrantsAll rs (s.grantAll rs).1 (s.grantAll rs).2 :=
  ⟨fun r => ⟨s.grants_grant r, s.wordSearch_eq_grant r⟩, s.grantsAll_grantAll⟩

/-- Hints of which one is a numbered form of the other. -/
def overlappingRequests : List Request := [.label "L", .name "L1", .name "L", .label "L1"]

theorem grant_first_free_distinct_overlapping :
    "L" ∈ (avoiding ["L", "L1"]).reserved ∧ (avoiding ["L", "L1"]).inUse.card = 2 ∧
      wordSearch ["L", "L1"] "L" 2 1 = some "L2" ∧
      ((avoiding ["L", "L1"]).grantAll overlappingRequests).1 = ["L2", "L11", "L3", "L12"] ∧
      ["L2", "L11", "L3", "L12"].Nodup := by
  have hused : "L" ∈ (avoiding ["L", "L1"]).reserved := List.mem_cons_self
  have hsize : (avoiding ["L", "L1"]).inUse.card = 2 := by decide
  have hnames : ((avoiding ["L", "L1"]).grantAll overlappingRequests).1 =
      ["L2", "L11", "L3", "L12"] := by decide
  have hfirst : ((avoiding ["L", "L1"]).grant (.label "L")).1 = "L2" :=
    (List.cons.inj hnames).1
  obtain ⟨hgrant, hall⟩ := grant_first_free_distinct (avoiding ["L", "L1"])
  have hword := (hgrant (.label "L")).2 hused (by rw [hsize]; decide)
  rw [hsize, hfirst] at hword
  exact ⟨hused, hsize, hword, hnames, hnames ▸ (hall overlappingRequests).nodup⟩

end NameSupply

end PlainJs

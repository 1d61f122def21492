namespace PlainJs

/-- A range of byte positions; positions count from 1 and `hi` is one past the last byte. -/
structure Span where
  lo : Nat
  hi : Nat
deriving DecidableEq, Repr, Inhabited

namespace Span

/-- The range of nodes that stand for no source text. -/
def none : Span := ⟨0, 0⟩

/-- The first position of the block that is reserved for nodes without source text. -/
def reserved : Nat := 4294901759

/-- A dummy range belongs to generated code. -/
def isDummy (s : Span) : Bool :=
  (s.lo == 0 && s.hi == 0) || reserved ≤ s.lo

def contains (outer inner : Span) : Bool :=
  outer.lo ≤ inner.lo && inner.hi ≤ outer.hi

theorem isDummy_none : none.isDummy = true := rfl

theorem contains_refl (s : Span) : s.contains s = true := by
  simp [contains]

theorem contains_trans {a b c : Span} (hab : a.contains b = true) (hbc : b.contains c = true) :
    a.contains c = true := by
  simp only [contains, Bool.and_eq_true, decide_eq_true_eq] at *
  omega

end Span

end PlainJs

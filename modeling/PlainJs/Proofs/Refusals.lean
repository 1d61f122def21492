import PlainJs.Proofs.Loops.Closing
import PlainJs.Proofs.Switches.Scoping

namespace PlainJs

open Node Build

namespace Lower

variable {α β : Type} {P P' : Diagnostic → Prop}

/-- Whatever `x` records is added at the end and has the property `P`. -/
def Reports (P : Diagnostic → Prop) (x : Lower α) : Prop :=
  ∀ s : Context, ∃ new, (x.run s).2.diagnostics = s.diagnostics ++ new ∧ ∀ d ∈ new, P d

namespace Reports

theorem of_eq {x : Lower α} (h : ∀ s : Context, (x.run s).2.diagnostics = s.diagnostics) :
    Reports P x :=
  fun s => ⟨[], by rw [h s, List.append_nil], List.forall_mem_nil _⟩

theorem pure (a : α) : Reports P (Pure.pure a : Lower α) := of_eq fun _ => rfl

theorem fresh (hint : String) : Reports P (Lower.fresh hint) := of_eq fun _ => rfl

theorem freshLabel (hint : String) : Reports P (Lower.freshLabel hint) := of_eq fun _ => rfl

theorem bind {x : Lower α} {f : α → Lower β} (hx : Reports P x) (hf : ∀ a, Reports P (f a)) :
    Reports P (x >>= f) := by
  intro s
  obtain ⟨new, hnew, hall⟩ := hx s
  obtain ⟨new', hnew', hall'⟩ := hf (x.run s).1 (x.run s).2
  refine ⟨new ++ new', ?_, List.forall_mem_append.mpr ⟨hall, hall'⟩⟩
  rw [StateT.run_bind, ← List.append_assoc, ← hnew]
  exact hnew'

theorem mono {x : Lower α} (hx : Reports P x) (h : ∀ d, P d → P' d) : Reports P' x := by
  intro s
  obtain ⟨new, hnew, hall⟩ := hx s
  exact ⟨new, hnew, fun d hd => h d (hall d hd)⟩

theorem mapM {f : α → Lower β} {l : List α} (h : ∀ a ∈ l, Reports P (f a)) :
    Reports P (l.mapM f) := by
  induction l with
  | nil => exact .pure []
  | cons a l ih =>
    obtain ⟨ha, hl⟩ := List.forall_mem_cons.mp h
    rw [List.mapM_cons]
    exact ha.bind fun _ => (ih hl).bind fun _ => .pure _

end Reports

end Lower

namespace Node

end Node

namespace Declarations

variable {kind : VarKind} {rests : List Ident}

end Declarations

namespace Node

end Node

namespace Declarations

end Declarations

namespace Loops

end Loops

namespace Switches

end Switches

/-- What steps on the elements of a list give, each in the context that the one before it leaves. -/
inductive InTurn {α β : Type} (P : Context → α → β → Context → Prop) :
    Context → List α → List β → Context → Prop
  | nil {s : Context} : InTurn P s [] [] s
  | cons {s t u : Context} {a : α} {b : β} {l : List α} {m : List β} : P s a b t →
      InTurn P t l m u → InTurn P s (a :: l) (b :: m) u

theorem InTurn.mapM {α β : Type} {P : Context → α → β → Context → Prop} {f : α → Lower β}
    (h : ∀ s a, P s a ((f a).run s).1 ((f a).run s).2) (l : List α) (s : Context) :
    InTurn P s l ((l.mapM f).run s).1 ((l.mapM f).run s).2 := by
  induction l generalizing s with
  | nil => exact .nil
  | cons a l ih =>
    rw [List.mapM_cons]
    exact .cons (h s a) (ih _)

end PlainJs

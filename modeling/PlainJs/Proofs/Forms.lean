import PlainJs.Node.Children

namespace PlainJs

/-- Parts of the given categories. -/
def Args : List Cat → Type
  | [] => Unit
  | d :: ds => Node d × Args ds

/-- What takes parts of the given categories and makes a node of them. -/
def Maker (c : Cat) : List Cat → Type
  | [] => Node c
  | d :: ds => Node d → Maker c ds

namespace Args

variable {c : Cat} {m : Type → Type} [Monad m]

def toList : {ds : List Cat} → Args ds → List (Sigma Node)
  | [], _ => []
  | _ :: _, args => ⟨_, args.1⟩ :: args.2.toList

def fill : {ds : List Cat} → Args ds → Maker c ds → Node c
  | [], _, n => n
  | _ :: _, args, make => args.2.fill (make args.1)

def map (g : ∀ {d : Cat}, Node d → Node d) : {ds : List Cat} → Args ds → Args ds
  | [], args => args
  | _ :: _, args => (g args.1, args.2.map g)

/-- Visits the parts in turn and goes on with what the visits give. -/
def visit {α : Type} : {ds : List Cat} → (args : Args ds) →
    ({d : Cat} → (k : Node d) → ⟨d, k⟩ ∈ args.toList → m (Node d)) → (Args ds → m α) → m α
  | [], args, _, next => next args
  | _ :: _, args, f, next =>
    f args.1 (.head _) >>= fun a =>
      args.2.visit (fun k hk => f k (.tail _ hk)) fun rest => next (a, rest)

theorem map_id {ds : List Cat} (args : Args ds) : (args.map fun k => k) = args := by
  induction ds with
  | nil => rfl
  | cons d ds ih => exact congrArg (args.1, ·) (ih args.2)

theorem visit_pure [LawfulMonad m] {α : Type} (g : ∀ {d : Cat}, Node d → Node d) {ds : List Cat}
    (args : Args ds) (next : Args ds → m α) :
    args.visit (fun k _ => pure (g k)) next = next (args.map g) := by
  induction ds with
  | nil => rfl
  | cons d ds ih =>
    rw [visit, pure_bind]
    exact ih args.2 fun rest => next (g args.1, rest)

end Args

/-- A form of nodes: what a node is apart from its parts, with the places of these. -/
structure Form (c : Cat) where
  places : List Cat
  make : Maker c places
  children : ∀ args : Args places, (args.fill make).children = args.toList
  traverse : ∀ {m : Type → Type} [Monad m] (args : Args places)
    (f : {d : Cat} → (k : Node d) → ⟨d, k⟩ ∈ (args.fill make).children → m (Node d)),
    ((args.fill make).traverse fun k hk => f k hk) =
      args.visit (fun k hk => f k (children args ▸ hk)) fun args => pure (args.fill make)

namespace Form

variable {c : Cat}

/-- The node of this form with the given parts. -/
def node (form : Form c) (args : Args form.places) : Node c := args.fill form.make

theorem children_node (form : Form c) (args : Args form.places) :
    (form.node args).children = args.toList := form.children args

theorem traverse_node {m : Type → Type} [Monad m] (form : Form c) (args : Args form.places)
    (f : {d : Cat} → (k : Node d) → ⟨d, k⟩ ∈ (form.node args).children → m (Node d)) :
    ((form.node args).traverse fun k hk => f k hk) =
      args.visit (fun k hk => f k (form.children_node args ▸ hk)) fun args =>
        pure (form.node args) :=
  form.traverse args f

end Form

/-- Every node is a form that is filled with its parts. -/
theorem Node.exists_form {c : Cat} (n : Node c) :
    ∃ (form : Form c) (args : Args form.places), form.node args = n := by
  cases n with
  -- in these two a part comes before other data
  | template span exprs quasis =>
    exact ⟨⟨[_], (.template span · quasis), by intro; rfl, by intros; rfl⟩, (exprs, ()), rfl⟩
  | tagged span ctxt tag textSpan exprs quasis =>
    exact ⟨⟨[_, _], (.tagged span ctxt · textSpan · quasis), by intro; rfl, by intros; rfl⟩,
      (tag, exprs, ()), rfl⟩
  | _ =>
    first
      | exact ⟨⟨[], _, by intro; rfl, by intros; rfl⟩, (), rfl⟩
      | exact ⟨⟨[_], _, by intro; rfl, by intros; rfl⟩, (_, ()), rfl⟩
      | exact ⟨⟨[_, _], _, by intro; rfl, by intros; rfl⟩, (_, _, ()), rfl⟩
      | exact ⟨⟨[_, _, _], _, by intro; rfl, by intros; rfl⟩, (_, _, _, ()), rfl⟩
      | exact ⟨⟨[_, _, _, _], _, by intro; rfl, by intros; rfl⟩, (_, _, _, _, ()), rfl⟩

end PlainJs

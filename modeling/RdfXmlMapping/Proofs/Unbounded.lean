import RdfXmlMapping.Proofs.Steps

/-!
Recursion that nothing guards. A step may then go on forever, in which case it has no result;
`settled x` and `ended f` are the steps that have the results of `x` and of `f`. A definition calls
itself by a name that `apply` gives it, as a call written out would keep its place in the file.
-/

namespace RdfXmlMapping

variable {ε σ α β : Type}

/-! ### Steps without a state -/

def settled (x : Except ε α) : ExceptT ε Option α := some x

theorem settled_bind_of {x : Except ε α} {f : α → ExceptT ε Option β} {g : α → Except ε β}
    (same : ∀ a, x = .ok a → f a = settled (g a)) : settled x >>= f = settled (x >>= g) := by
  cases x with
  | error e => rfl
  | ok a => exact same a rfl

theorem settled_mapM {f : α → ExceptT ε Option β} {g : α → Except ε β} {xs : List α}
    (same : ∀ x ∈ xs, f x = settled (g x)) : xs.mapM f = settled (xs.mapM g) := by
  induction xs with
  | nil => rfl
  | cons x xs ih =>
    obtain ⟨first, rest⟩ := List.forall_mem_cons.mp same
    rw [List.mapM_cons, List.mapM_cons, first, ih rest]
    apply settled_bind_of
    intro y _
    apply settled_bind_of
    intro ys _
    rfl

/-! ### Steps over a state -/

/-- A step over a state that may fail, and may go on forever. -/
abbrev Unbounded (σ ε α : Type) := StateT σ (ExceptT ε Option) α

def ended (f : StateT σ (Except ε) α) : Unbounded σ ε α := fun s => settled (f s)

/-- The step that goes on forever. -/
def endless : Unbounded σ ε α := fun _ => (none : Option (Except ε (α × σ)))

theorem ended_bind_of {f : StateT σ (Except ε) α} {g : α → Unbounded σ ε β}
    {h : α → StateT σ (Except ε) β} (same : ∀ a, g a = ended (h a)) :
    ended f >>= g = ended (f >>= h) := by
  funext s
  exact settled_bind_of (x := f s) fun r _ => congrFun (same r.1) r.2

theorem ended_map {f : StateT σ (Except ε) α} {g : α → β} : g <$> ended f = ended (g <$> f) := by
  funext s
  exact settled_bind_of (x := f s) (g := fun r => .ok (g r.1, r.2)) fun _ _ => rfl

/-- In one state, where the steps need not have the same outcome in all states. -/
theorem settled_bind_run {f : StateT σ (Except ε) α} {f' : Unbounded σ ε α}
    {g : α → StateT σ (Except ε) β} {g' : α → Unbounded σ ε β} {s : σ}
    (first : f' s = settled (f s)) (rest : ∀ a t, f s = .ok (a, t) → g' a t = settled (g a t)) :
    (f' >>= g') s = settled ((f >>= g) s) := by
  show f' s >>= (fun r => g' r.1 r.2) = _
  rw [first]
  exact settled_bind_of fun r run => rest r.1 r.2 run

theorem ended_lift_bind {x : Except ε α} {g : α → Unbounded σ ε β}
    {h : α → StateT σ (Except ε) β} (same : ∀ a, x = .ok a → g a = ended (h a)) :
    (ended (liftM x) >>= g) = ended (liftM x >>= h) := by
  cases x with
  | error e => rfl
  | ok a => exact same a rfl

theorem ended_mapM {f : α → Unbounded σ ε β} {g : α → StateT σ (Except ε) β} {xs : List α}
    (same : ∀ x ∈ xs, f x = ended (g x)) : xs.mapM f = ended (xs.mapM g) := by
  induction xs with
  | nil => rfl
  | cons x xs ih =>
    obtain ⟨first, rest⟩ := List.forall_mem_cons.mp same
    rw [List.mapM_cons, List.mapM_cons, first, ih rest]
    apply ended_bind_of
    intro y
    apply ended_bind_of
    intro ys
    rfl

end RdfXmlMapping

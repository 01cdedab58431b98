import Mathlib.Data.List.Forall2
import RdfXmlMapping.GenerationError

/-!
Runs of generators that succeed. A generator is a chain of steps over a state, each of which may
fail; `bind_ok` takes the first step off a chain that does not.
-/

namespace RdfXmlMapping

variable {ε σ α β : Type}

theorem forall₂_mem_left {R : α → β → Prop} {xs : List α} {ys : List β} (h : List.Forall₂ R xs ys)
    {x : α} (member : x ∈ xs) : ∃ y ∈ ys, R x y := by
  induction h with
  | nil => cases member
  | cons first _ ih =>
    rcases List.mem_cons.mp member with rfl | member
    · exact ⟨_, List.mem_cons_self, first⟩
    · obtain ⟨y, present, related⟩ := ih member
      exact ⟨y, List.mem_cons_of_mem _ present, related⟩

theorem forall₂_mem_right {R : α → β → Prop} {xs : List α} {ys : List β} (h : List.Forall₂ R xs ys)
    {y : β} (member : y ∈ ys) : ∃ x ∈ xs, R x y := forall₂_mem_left h.flip member

theorem forall₂_mem_zip {R : α → β → Prop} {xs : List α} {ys : List β} (h : List.Forall₂ R xs ys)
    {x : α} (member : x ∈ xs) : ∃ y, (x, y) ∈ xs.zip ys := by
  induction h with
  | nil => cases member
  | cons _ _ ih =>
    rcases List.mem_cons.mp member with rfl | member
    · exact ⟨_, List.mem_cons_self⟩
    · obtain ⟨y, present⟩ := ih member
      exact ⟨y, List.mem_cons_of_mem _ present⟩

theorem forall₂_map_eq {γ : Type} {f : α → γ} {g : β → γ} {xs : List α} {ys : List β}
    (h : List.Forall₂ (fun x y => f x = g y) xs ys) : xs.map f = ys.map g := by
  rw [← List.forall₂_eq_eq_eq, List.forall₂_map_left_iff, List.forall₂_map_right_iff]
  exact h

theorem exists_first {P : α → Prop} {xs : List α} (occurs : ∃ x ∈ xs, P x) :
    ∃ before x after, xs = before ++ x :: after ∧ (∀ y ∈ before, ¬ P y) ∧ P x := by
  classical
  obtain ⟨x, found⟩ : ∃ x, xs.find? (P ·) = some x := by
    simpa [← Option.isSome_iff_exists] using occurs
  obtain ⟨holds, before, after, split, first⟩ := List.find?_eq_some_iff_append.mp found
  exact ⟨before, x, after, split, by simpa using first, by simpa using holds⟩

theorem mapM_congr {m : Type → Type} [Monad m] [LawfulMonad m] {γ : Type} {f g : α → m γ}
    {xs : List α} (same : ∀ x ∈ xs, f x = g x) : xs.mapM f = xs.mapM g := by
  induction xs with
  | nil => rfl
  | cons x xs ih =>
    obtain ⟨first, rest⟩ := List.forall_mem_cons.mp same
    rw [List.mapM_cons, List.mapM_cons, first, ih rest]

theorem foldlM_congr {m : Type → Type} [Monad m] {f g : β → α → m β} {xs : List α}
    (same : ∀ x ∈ xs, ∀ b, f b x = g b x) (b : β) : xs.foldlM f b = xs.foldlM g b := by
  induction xs generalizing b with
  | nil => rfl
  | cons x xs ih =>
    obtain ⟨first, rest⟩ := List.forall_mem_cons.mp same
    rw [List.foldlM_cons, List.foldlM_cons, first]
    exact bind_congr fun b' => ih rest b'

theorem mapM_of_forall₂ {m : Type → Type} [Monad m] [LawfulMonad m] {f : α → m β} {xs : List α}
    {ys : List β} (h : List.Forall₂ (fun x y => f x = pure y) xs ys) : xs.mapM f = pure ys := by
  induction h with
  | nil => rfl
  | cons first _ ih => rw [List.mapM_cons, first, pure_bind, ih, pure_bind]

/-! ### Steps without a state -/

theorem except_isOk {x : Except ε α} (h : x.isOk = true) : ∃ a, x = .ok a := by
  cases x with
  | ok a => exact ⟨a, rfl⟩
  | error e => cases h

theorem except_bind_ok {x : Except ε α} {f : α → Except ε β} {b : β} (h : x >>= f = .ok b) :
    ∃ a, x = .ok a ∧ f a = .ok b := by
  cases x with
  | error e => cases h
  | ok a => exact ⟨a, rfl, h⟩

/-- What comes after a step matters only for the result that the step has. -/
theorem except_bind_congr {x : Except ε α} {f g : α → Except ε β}
    (same : ∀ a, x = .ok a → f a = g a) : x >>= f = x >>= g := by
  cases x with
  | error e => rfl
  | ok a => exact same a rfl

theorem except_map_ok {x : Except ε α} {f : α → β} {b : β} (h : f <$> x = .ok b) :
    ∃ a, x = .ok a ∧ f a = b := by
  cases x with
  | error e => cases h
  | ok a => exact ⟨a, rfl, Except.ok.inj h⟩

theorem except_mapM_ok {f : α → Except ε β} {xs : List α} {ys : List β} (h : xs.mapM f = .ok ys) :
    List.Forall₂ (fun x y => f x = .ok y) xs ys := by
  induction xs generalizing ys with
  | nil =>
    obtain rfl := Except.ok.inj h
    exact .nil
  | cons x xs ih =>
    rw [List.mapM_cons] at h
    obtain ⟨y, first, h⟩ := except_bind_ok h
    obtain ⟨zs, rest, h⟩ := except_bind_ok h
    obtain rfl := Except.ok.inj h
    exact .cons first (ih rest)

theorem except_bind_error {x : Except ε α} {f : α → Except ε β} {e : ε}
    (h : x >>= f = .error e) : x = .error e ∨ ∃ a, x = .ok a ∧ f a = .error e := by
  cases x with
  | error e' => exact .inl (congrArg Except.error (Except.error.inj h))
  | ok a => exact .inr ⟨a, rfl, h⟩

theorem except_map_error {x : Except ε α} {f : α → β} {e : ε} (h : f <$> x = .error e) :
    x = .error e := by
  cases x with
  | error e' => exact congrArg Except.error (Except.error.inj h)
  | ok a => cases h

theorem except_mapM_error {f : α → Except ε β} {xs : List α} {e : ε}
    (h : xs.mapM f = .error e) : ∃ x ∈ xs, f x = .error e := by
  induction xs with
  | nil => cases h
  | cons x xs ih =>
    rw [List.mapM_cons] at h
    rcases except_bind_error h with first | ⟨y, _, h⟩
    · exact ⟨x, List.mem_cons_self, first⟩
    · rcases except_bind_error h with rest | ⟨ys, _, h⟩
      · obtain ⟨z, member, failed⟩ := ih rest
        exact ⟨z, List.mem_cons_of_mem _ member, failed⟩
      · cases h

/-- The first element that fails decides how the whole fails. -/
theorem except_mapM_fails {f : α → Except ε β} {before : List α} {x : α} {ys : List β} {e : ε}
    (run : before.mapM f = .ok ys) (failed : f x = .error e) (after : List α) :
    (before ++ x :: after).mapM f = .error e := by
  rw [List.mapM_append, run]
  change ((x :: after).mapM f >>= _) = _
  rw [List.mapM_cons, failed]
  rfl

theorem except_mapM_succeeds {f : α → Except ε β} {xs : List α}
    (each : ∀ x ∈ xs, ∃ y, f x = .ok y) : ∃ ys, xs.mapM f = .ok ys := by
  cases run : xs.mapM f with
  | ok ys => exact ⟨ys, rfl⟩
  | error e =>
    obtain ⟨x, member, failed⟩ := except_mapM_error run
    obtain ⟨y, made⟩ := each x member
    cases made.symm.trans failed

/-- What each element of a fold preserves holds in the end, and what it ensures holds of all. -/
theorem except_foldlM_ok {f : β → α → Except ε β} {P : β → Prop} {Q : α → Prop} {xs : List α}
    {b b' : β} (each : ∀ x ∈ xs, ∀ b b', P b → f b x = .ok b' → P b' ∧ Q x) (before : P b)
    (h : xs.foldlM f b = .ok b') : P b' ∧ ∀ x ∈ xs, Q x := by
  induction xs generalizing b with
  | nil =>
    obtain rfl := Except.ok.inj h
    exact ⟨before, fun x member => by cases member⟩
  | cons x xs ih =>
    rw [List.foldlM_cons] at h
    obtain ⟨between, first, h⟩ := except_bind_ok h
    obtain ⟨here, others⟩ := List.forall_mem_cons.mp each
    obtain ⟨after, holds⟩ := here b between before first
    obtain ⟨last, rest⟩ := ih others after h
    exact ⟨last, List.forall_mem_cons.mpr ⟨holds, rest⟩⟩

/-- A fold that fails has come to an element that fails. -/
theorem except_foldlM_error {f : β → α → Except ε β} {xs : List α} {b : β} {e : ε}
    (h : xs.foldlM f b = .error e) : ∃ before x after c, xs = before ++ x :: after ∧
      before.foldlM f b = .ok c ∧ f c x = .error e := by
  induction xs generalizing b with
  | nil => cases h
  | cons x xs ih =>
    rw [List.foldlM_cons] at h
    rcases except_bind_error h with first | ⟨c, first, h⟩
    · exact ⟨[], x, xs, b, rfl, rfl, first⟩
    · obtain ⟨before, y, after, d, split, run, failed⟩ := ih h
      refine ⟨x :: before, y, after, d, by rw [split]; rfl, ?_, failed⟩
      rw [List.foldlM_cons, first]
      exact run

theorem except_foldlM_succeeds {f : β → α → Except ε β} {xs : List α}
    (each : ∀ x ∈ xs, ∀ b, ∃ b', f b x = .ok b') (b : β) : ∃ b', xs.foldlM f b = .ok b' := by
  cases run : xs.foldlM f b with
  | ok b' => exact ⟨b', rfl⟩
  | error e =>
    obtain ⟨before, x, after, c, split, _, failed⟩ := except_foldlM_error run
    obtain ⟨b', made⟩ := each x (by simp [split]) c
    cases made.symm.trans failed

/-! ### Steps over a state -/

theorem bind_ok {f : StateT σ (Except ε) α} {g : α → StateT σ (Except ε) β} {s : σ} {r : β × σ}
    (h : (f >>= g) s = .ok r) : ∃ a t, f s = .ok (a, t) ∧ g a t = .ok r := by
  obtain ⟨⟨a, t⟩, first, rest⟩ := except_bind_ok h
  exact ⟨a, t, first, rest⟩

theorem bind_of_ok {f : StateT σ (Except ε) α} {g : α → StateT σ (Except ε) β} {s t : σ} {a : α}
    (h : f s = .ok (a, t)) : (f >>= g) s = g a t := by
  change (f s >>= fun r => g r.1 r.2) = _
  rw [h]
  rfl

theorem bind_of_error {f : StateT σ (Except ε) α} {g : α → StateT σ (Except ε) β} {s : σ} {e : ε}
    (h : f s = .error e) : (f >>= g) s = .error e := by
  change (f s >>= fun r => g r.1 r.2) = _
  rw [h]
  rfl

theorem bind_congr_run {f f' : StateT σ (Except ε) α} {g : α → StateT σ (Except ε) β} {s : σ}
    (same : f s = f' s) : (f >>= g) s = (f' >>= g) s := by
  change (f s >>= fun r => g r.1 r.2) = (f' s >>= fun r => g r.1 r.2)
  rw [same]

theorem pure_ok {a : α} {s : σ} {r : α × σ}
    (h : (pure a : StateT σ (Except ε) α) s = .ok r) : r = (a, s) := (Except.ok.inj h).symm

theorem map_ok {f : StateT σ (Except ε) α} {g : α → β} {s t : σ} {b : β}
    (h : (g <$> f) s = .ok (b, t)) : ∃ a, f s = .ok (a, t) ∧ g a = b := by
  obtain ⟨⟨a, t'⟩, first, same⟩ := except_map_ok (f := fun r : α × σ => (g r.1, r.2)) h
  obtain ⟨rfl, rfl⟩ := Prod.mk.inj same
  exact ⟨a, first, rfl⟩

theorem lift_ok {x : Except ε α} {s : σ} {r : α × σ}
    (h : (liftM x : StateT σ (Except ε) α) s = .ok r) : x = .ok r.1 ∧ s = r.2 := by
  cases x with
  | error e => cases h
  | ok a =>
    obtain rfl := Except.ok.inj h
    exact ⟨rfl, rfl⟩

theorem lift_ok_bind {a : α} {g : α → StateT σ (Except ε) β} :
    ((liftM (Except.ok a : Except ε α) : StateT σ (Except ε) α) >>= g) = g a := rfl

theorem lift_error_bind {e : ε} {g : α → StateT σ (Except ε) β} :
    ((liftM (Except.error e : Except ε α) : StateT σ (Except ε) α) >>= g) =
      fun _ => .error e := rfl

theorem lift_bind_congr {x : Except ε α} {f g : α → StateT σ (Except ε) β}
    (same : ∀ a, x = .ok a → f a = g a) :
    ((liftM x : StateT σ (Except ε) α) >>= f) = (liftM x : StateT σ (Except ε) α) >>= g := by
  cases x with
  | error e => rfl
  | ok a => exact same a rfl

theorem mapM_lift {f : α → Except ε β} (xs : List α) :
    xs.mapM (fun x => (liftM (f x) : StateT σ (Except ε) β)) = liftM (xs.mapM f) := by
  induction xs with
  | nil => rfl
  | cons x xs ih =>
    rw [List.mapM_cons, List.mapM_cons, ih]
    cases f x with
    | error e => rfl
    | ok y =>
      rw [lift_ok_bind]
      cases xs.mapM f <;> rfl

theorem lift_map_bind {γ : Type} {h : α → β} {x : Except ε α} {g : β → StateT σ (Except ε) γ} :
    ((liftM (h <$> x) : StateT σ (Except ε) β) >>= g) =
      (liftM x : StateT σ (Except ε) α) >>= fun a => g (h a) := by
  cases x <;> rfl

theorem bind_error {f : StateT σ (Except ε) α} {g : α → StateT σ (Except ε) β} {s : σ} {e : ε}
    (h : (f >>= g) s = .error e) : f s = .error e ∨ ∃ a t, f s = .ok (a, t) ∧ g a t = .error e := by
  rcases except_bind_error h with first | ⟨⟨a, t⟩, first, rest⟩
  · exact .inl first
  · exact .inr ⟨a, t, first, rest⟩

theorem lift_error {x : Except ε α} {s : σ} {e : ε}
    (h : (liftM x : StateT σ (Except ε) α) s = .error e) : x = .error e := by
  cases x with
  | error e' => exact congrArg Except.error (Except.error.inj h)
  | ok a => cases h

theorem throw_ok {e : ε} {s : σ} {r : α × σ}
    (h : (throw e : StateT σ (Except ε) α) s = .ok r) : False := by cases h

theorem get_ok {s : σ} {r : σ × σ} (h : (get : StateT σ (Except ε) σ) s = .ok r) : r = (s, s) :=
  (Except.ok.inj h).symm

theorem get_bind {g : σ → StateT σ (Except ε) β} {s : σ} :
    ((get : StateT σ (Except ε) σ) >>= g) s = g s s := rfl

theorem set_ok {s t : σ} {r : PUnit × σ} (h : (set t : StateT σ (Except ε) PUnit) s = .ok r) :
    r = (⟨⟩, t) := (Except.ok.inj h).symm

theorem modify_ok {f : σ → σ} {s : σ} {r : PUnit × σ}
    (h : (modify f : StateT σ (Except ε) PUnit) s = .ok r) : r = (⟨⟩, f s) :=
  (Except.ok.inj h).symm

/-- A step taken for each of several things, from the first to the last. -/
inductive Runs (f : α → StateT σ (Except ε) β) : List α → List β → σ → σ → Prop
  | nil (s : σ) : Runs f [] [] s s
  | cons {x : α} {xs : List α} {y : β} {ys : List β} {s t u : σ} :
      f x s = .ok (y, t) → Runs f xs ys t u → Runs f (x :: xs) (y :: ys) s u

/-- What each step ensures holds of all that are taken. -/
theorem runs_forall₂ {f : α → StateT σ (Except ε) β} {R : α → β → Prop} {xs : List α} {ys : List β}
    {s t : σ} (h : Runs f xs ys s t)
    (ensures : ∀ x ∈ xs, ∀ y s t, f x s = .ok (y, t) → R x y) : List.Forall₂ R xs ys := by
  induction h with
  | nil s => exact .nil
  | cons first _ ih =>
    refine .cons (ensures _ List.mem_cons_self _ _ _ first) (ih fun x member => ?_)
    exact ensures x (List.mem_cons_of_mem _ member)

/-- If every step grows the state, all steps together do, and what each ensures holds after all of
them if growth preserves it. -/
theorem runs_grow {f : α → StateT σ (Except ε) β} {G : σ → σ → Prop} {P : σ → α → β → Prop}
    (refl : ∀ s, G s s) (trans : ∀ s t u, G s t → G t u → G s u)
    (mono : ∀ s t x y, G s t → P s x y → P t x y) {xs : List α} {ys : List β} {s t : σ}
    (h : Runs f xs ys s t)
    (each : ∀ x ∈ xs, ∀ y s t, f x s = .ok (y, t) → G s t ∧ P t x y) :
    G s t ∧ List.Forall₂ (P t) xs ys := by
  induction h with
  | nil s => exact ⟨refl s, .nil⟩
  | cons first _ ih =>
    obtain ⟨step, holds⟩ := each _ List.mem_cons_self _ _ _ first
    obtain ⟨steps, rest⟩ := ih fun x member => each x (List.mem_cons_of_mem _ member)
    exact ⟨trans _ _ _ step steps, .cons (mono _ _ _ _ steps holds) rest⟩

/-- Each step has been taken, and the state after it grows into the one after all of them. -/
theorem runs_ends {f : α → StateT σ (Except ε) β} {G : σ → σ → Prop} (refl : ∀ s, G s s)
    (trans : ∀ s t u, G s t → G t u → G s u) {xs : List α} {ys : List β} {s t : σ}
    (h : Runs f xs ys s t) (each : ∀ x ∈ xs, ∀ y s t, f x s = .ok (y, t) → G s t) :
    List.Forall₂ (fun x y => ∃ s' t', f x s' = .ok (y, t') ∧ G t' t) xs ys := by
  refine (runs_grow (P := fun t x y => ∃ s' t', f x s' = .ok (y, t') ∧ G t' t) refl trans ?_ h ?_).2
  · rintro s t x y more ⟨s', t', run, grown⟩
    exact ⟨s', t', run, trans _ _ _ grown more⟩
  · intro x member y s t run
    exact ⟨each x member y s t run, s, t, run, refl t⟩

theorem runs_lift {f : α → Except ε β} {xs : List α} {ys : List β} {s t : σ}
    (h : Runs (fun x => (liftM (f x) : StateT σ (Except ε) β)) xs ys s t) :
    List.Forall₂ (fun x y => f x = .ok y) xs ys ∧ s = t := by
  induction h with
  | nil s => exact ⟨.nil, rfl⟩
  | cons first _ ih =>
    obtain ⟨value, rfl⟩ := lift_ok first
    exact ⟨.cons value ih.1, ih.2⟩

theorem mapM_ok {f : α → StateT σ (Except ε) β} {xs : List α} {ys : List β} {s t : σ}
    (h : xs.mapM f s = .ok (ys, t)) : Runs f xs ys s t := by
  induction xs generalizing ys s with
  | nil =>
    cases pure_ok (h : (pure [] : StateT σ (Except ε) (List β)) s = .ok (ys, t))
    exact .nil _
  | cons x xs ih =>
    rw [List.mapM_cons] at h
    obtain ⟨y, s₁, first, h⟩ := bind_ok h
    obtain ⟨zs, s₂, rest, h⟩ := bind_ok h
    cases pure_ok h
    exact .cons first (ih rest)

theorem mapM_error {f : α → StateT σ (Except ε) β} {xs : List α} {s : σ} {e : ε}
    (h : xs.mapM f s = .error e) : ∃ x ∈ xs, ∃ t, f x t = .error e := by
  induction xs generalizing s with
  | nil => cases h
  | cons x xs ih =>
    rw [List.mapM_cons] at h
    rcases bind_error h with first | ⟨y, t, _, h⟩
    · exact ⟨x, List.mem_cons_self, s, first⟩
    · rcases bind_error h with rest | ⟨ys, u, _, h⟩
      · obtain ⟨z, member, failed⟩ := ih rest
        exact ⟨z, List.mem_cons_of_mem _ member, failed⟩
      · cases h

end RdfXmlMapping

import RdfXmlMapping.Proofs.Steps

/-!
Two runs of generators side by side. They go alike if both fail, with causes that match, or both
succeed, with results that match. Runs that are put together from steps that go alike go alike.
-/

namespace RdfXmlMapping

variable {ε ε' σ σ' α α' β β' γ γ' : Type} {E : ε → ε' → Prop} {T : σ → σ' → Prop}
  {R : α → α' → Prop} {S : β → β' → Prop} {P : γ → γ' → Prop}

/-! ### Lists whose elements match -/

theorem forall₂_map {f : α → α'} {xs : List α} (each : ∀ x ∈ xs, R x (f x)) :
    List.Forall₂ R xs (xs.map f) :=
  List.forall₂_map_right_iff.mpr (List.forall₂_same.mpr each)

theorem forall₂_any {f : α → Bool} {g : α' → Bool} {xs : List α} {ys : List α'}
    (h : List.Forall₂ R xs ys) (each : ∀ x y, R x y → g y = f x) : ys.any g = xs.any f := by
  induction h with
  | nil => rfl
  | cons first _ ih => rw [List.any_cons, List.any_cons, each _ _ first, ih]

theorem forall₂_find? {f : α → Bool} {g : α' → Bool} {xs : List α} {ys : List α'}
    (h : List.Forall₂ R xs ys) (each : ∀ x y, R x y → g y = f x) :
    Option.Rel R (xs.find? f) (ys.find? g) := by
  induction h with
  | nil => exact .none
  | @cons x y _ _ first _ ih =>
    rw [List.find?_cons, List.find?_cons, each x y first]
    cases f x with
    | true => exact .some first
    | false => exact ih

theorem forall₂_filter {f : α → Bool} {g : α' → Bool} {xs : List α} {ys : List α'}
    (h : List.Forall₂ R xs ys) (each : ∀ x y, R x y → g y = f x) :
    List.Forall₂ R (xs.filter f) (ys.filter g) :=
  List.rel_filter (fun x y related => Bool.eq_iff_iff.mp (each x y related).symm) h

theorem forall₂_filterMap {f : α → Option β} {g : α' → Option β'} {xs : List α} {ys : List α'}
    (h : List.Forall₂ R xs ys) (each : ∀ x y, R x y → Option.Rel S (f x) (g y)) :
    List.Forall₂ S (xs.filterMap f) (ys.filterMap g) :=
  List.rel_filterMap (fun x y related => each x y related) h

theorem forall₂_flatMap {f : α → List β} {g : α' → List β'} {xs : List α} {ys : List α'}
    (h : List.Forall₂ R xs ys) (each : ∀ x y, R x y → List.Forall₂ S (f x) (g y)) :
    List.Forall₂ S (xs.flatMap f) (ys.flatMap g) :=
  List.rel_flatMap h fun x y related => each x y related

theorem forall₂_eq {xs ys : List α} (h : List.Forall₂ Eq xs ys) : xs = ys :=
  List.forall₂_eq_eq_eq ▸ h

/-! ### Runs without a state -/

/-- Both fail with causes that match, or both succeed with results that match. -/
inductive Alike (E : ε → ε' → Prop) (R : α → α' → Prop) : Except ε α → Except ε' α' → Prop
  | ok {a : α} {a' : α'} : R a a' → Alike E R (.ok a) (.ok a')
  | error {e : ε} {e' : ε'} : E e e' → Alike E R (.error e) (.error e')

namespace Alike

variable {x : Except ε α} {x' : Except ε' α'}

theorem refl {x : Except ε α} : Alike Eq Eq x x := by
  cases x with
  | ok a => exact .ok rfl
  | error e => exact .error rfl

theorem eq {x y : Except ε α} (h : Alike Eq Eq x y) : x = y := by
  cases h with
  | ok same => rw [same]
  | error same => rw [same]

theorem imp {S : α → α' → Prop} (h : Alike E R x x') (weaker : ∀ a a', R a a' → S a a') :
    Alike E S x x' := by
  cases h with
  | ok related => exact .ok (weaker _ _ related)
  | error related => exact .error related

theorem bind {f : α → Except ε β} {f' : α' → Except ε' β'} (h : Alike E R x x')
    (next : ∀ a a', R a a' → Alike E S (f a) (f' a')) : Alike E S (x >>= f) (x' >>= f') := by
  cases h with
  | ok related => exact next _ _ related
  | error related => exact .error related

theorem with_runs (h : Alike E R x x') :
    Alike E (fun a a' => x = .ok a ∧ x' = .ok a' ∧ R a a') x x' := by
  cases h with
  | ok related => exact .ok ⟨rfl, rfl, related⟩
  | error related => exact .error related

theorem map {f : α → β} {f' : α' → β'} (h : Alike E R x x')
    (next : ∀ a a', R a a' → S (f a) (f' a')) : Alike E S (f <$> x) (f' <$> x') := by
  cases h with
  | ok related => exact .ok (next _ _ related)
  | error related => exact .error related

theorem mapM {f : α → Except ε β} {f' : α' → Except ε' β'} {xs : List α} {ys : List α'}
    (h : List.Forall₂ R xs ys) (each : ∀ x y, R x y → Alike E S (f x) (f' y)) :
    Alike E (List.Forall₂ S) (xs.mapM f) (ys.mapM f') := by
  induction h with
  | nil => exact .ok .nil
  | cons first _ ih =>
    rw [List.mapM_cons, List.mapM_cons]
    refine (each _ _ first).bind fun b b' related => ih.bind fun bs bs' rest => ?_
    exact .ok (.cons related rest)

theorem foldlM {f : β → α → Except ε β} {f' : β' → α' → Except ε' β'} {xs : List α} {ys : List α'}
    (h : List.Forall₂ R xs ys)
    (each : ∀ b b' x y, S b b' → R x y → Alike E S (f b x) (f' b' y)) {b : β} {b' : β'}
    (start : S b b') : Alike E S (xs.foldlM f b) (ys.foldlM f' b') := by
  induction h generalizing b b' with
  | nil => exact .ok start
  | cons first _ ih =>
    rw [List.foldlM_cons, List.foldlM_cons]
    exact (each _ _ _ _ start first).bind fun c c' related => ih related

end Alike

/-! ### Runs with a state -/

/-- Steps that go alike from states that match, and lead to states that match. -/
def StepsAlike (E : ε → ε' → Prop) (T : σ → σ' → Prop) (R : α → α' → Prop)
    (f : StateT σ (Except ε) α) (f' : StateT σ' (Except ε') α') : Prop :=
  ∀ s s', T s s' → Alike E (fun r r' => R r.1 r'.1 ∧ T r.2 r'.2) (f s) (f' s')

namespace StepsAlike

variable {f : StateT σ (Except ε) α} {f' : StateT σ' (Except ε') α'}

theorem pure {a : α} {a' : α'} (h : R a a') :
    StepsAlike E T R (Pure.pure a : StateT σ (Except ε) α)
      (Pure.pure a' : StateT σ' (Except ε') α') :=
  fun _ _ states => .ok ⟨h, states⟩

theorem bind {g : α → StateT σ (Except ε) β} {g' : α' → StateT σ' (Except ε') β'}
    (h : StepsAlike E T R f f') (next : ∀ a a', R a a' → StepsAlike E T S (g a) (g' a')) :
    StepsAlike E T S (f >>= g) (f' >>= g') := fun s s' states =>
  Alike.bind (h s s' states) fun r r' both => next r.1 r'.1 both.1 r.2 r'.2 both.2

theorem refl {f : StateT σ (Except ε) α} : StepsAlike Eq Eq Eq f f := by
  rintro s _ rfl
  cases f s with
  | ok r => exact .ok ⟨rfl, rfl⟩
  | error e => exact .error rfl

theorem eq {f g : StateT σ (Except ε) α} (h : StepsAlike Eq Eq Eq f g) : f = g := by
  funext s
  exact Alike.eq ((h s s rfl).imp fun r r' both => Prod.ext both.1 both.2)

theorem map {g : α → β} {g' : α' → β'} (h : StepsAlike E T R f f')
    (next : ∀ a a', R a a' → S (g a) (g' a')) : StepsAlike E T S (g <$> f) (g' <$> f') :=
  fun s s' states => Alike.map (h s s' states) fun r r' both => ⟨next r.1 r'.1 both.1, both.2⟩

theorem lift {x : Except ε α} {x' : Except ε' α'} (h : Alike E R x x') :
    StepsAlike E T R (liftM x) (liftM x') := by
  intro s s' states
  cases h with
  | ok related => exact .ok ⟨related, states⟩
  | error related => exact .error related

theorem throw {e : ε} {e' : ε'} (h : E e e') :
    StepsAlike E T R (MonadExcept.throw e : StateT σ (Except ε) α)
      (MonadExcept.throw e' : StateT σ' (Except ε') α') :=
  fun _ _ _ => .error h

theorem get : StepsAlike E T T (MonadState.get : StateT σ (Except ε) σ)
    (MonadState.get : StateT σ' (Except ε') σ') :=
  fun _ _ states => .ok ⟨states, states⟩

theorem set {t : σ} {t' : σ'} (h : T t t') :
    StepsAlike E T (fun _ _ => True) (MonadStateOf.set t : StateT σ (Except ε) PUnit)
      (MonadStateOf.set t' : StateT σ' (Except ε') PUnit) :=
  fun _ _ _ => .ok ⟨trivial, h⟩

theorem update {g : σ → σ} {g' : σ' → σ'} (h : ∀ s s', T s s' → T (g s) (g' s')) :
    StepsAlike E T (fun _ _ => True) (modify g : StateT σ (Except ε) PUnit)
      (modify g' : StateT σ' (Except ε') PUnit) :=
  fun s s' states => .ok ⟨trivial, h s s' states⟩

theorem mapM {g : α → StateT σ (Except ε) β} {g' : α' → StateT σ' (Except ε') β'} {xs : List α}
    {ys : List α'} (h : List.Forall₂ R xs ys)
    (each : ∀ x y, R x y → StepsAlike E T S (g x) (g' y)) :
    StepsAlike E T (List.Forall₂ S) (xs.mapM g) (ys.mapM g') := by
  induction h with
  | nil => exact .pure .nil
  | cons first _ ih =>
    rw [List.mapM_cons, List.mapM_cons]
    refine (each _ _ first).bind fun b b' related => ih.bind fun bs bs' rest => ?_
    exact .pure (.cons related rest)

end StepsAlike

/-! ### Runs of which one may stop -/

/-- Both go alike, or the second one fails with one of some causes. -/
inductive Halts (C : ε → Prop) (R : α → α' → Prop) : Except ε α → Except ε α' → Prop
  | alike {x : Except ε α} {x' : Except ε α'} : Alike Eq R x x' → Halts C R x x'
  | stopped {x : Except ε α} {e : ε} : C e → Halts C R x (.error e)

theorem Halts.bind {C : ε → Prop} {x : Except ε α} {x' : Except ε α'} {f : α → Except ε β}
    {f' : α' → Except ε β'} (h : Halts C R x x')
    (next : ∀ a a', R a a' → Halts C S (f a) (f' a')) : Halts C S (x >>= f) (x' >>= f') := by
  cases h with
  | stopped cause => exact .stopped cause
  | alike both =>
    cases both with
    | ok related => exact next _ _ related
    | error same => exact .alike (.error same)

/-- Steps that go alike from one state, unless the second run stops. -/
def StepsHalt (C : ε → Prop) (R : α → α' → Prop) (f : StateT σ (Except ε) α)
    (f' : StateT σ (Except ε) α') : Prop :=
  ∀ s, Halts C (fun r r' => R r.1 r'.1 ∧ r.2 = r'.2) (f s) (f' s)

namespace StepsHalt

variable {C : ε → Prop} {f : StateT σ (Except ε) α} {f' : StateT σ (Except ε) α'}

theorem of_alike (h : StepsAlike Eq Eq R f f') : StepsHalt C R f f' := fun s => .alike (h s s rfl)

theorem refl {f : StateT σ (Except ε) α} : StepsHalt C Eq f f := of_alike .refl

theorem bind {g : α → StateT σ (Except ε) β} {g' : α' → StateT σ (Except ε) β'}
    (h : StepsHalt C R f f') (next : ∀ a a', R a a' → StepsHalt C S (g a) (g' a')) :
    StepsHalt C S (f >>= g) (f' >>= g') := by
  refine fun s => Halts.bind (h s) ?_
  rintro ⟨a, t⟩ ⟨a', _⟩ ⟨related, rfl⟩
  exact next a a' related t

theorem lift {x : Except ε α} {x' : Except ε α'} (h : Halts C R x x') :
    StepsHalt C R (liftM x : StateT σ (Except ε) α) (liftM x') := by
  intro s
  cases h with
  | stopped cause => exact .stopped cause
  | alike both => exact .alike (StepsAlike.lift both s s rfl)

theorem mapM {g : α → StateT σ (Except ε) β} {g' : α' → StateT σ (Except ε) β} {xs : List α}
    {ys : List α'} (h : List.Forall₂ R xs ys) (each : ∀ x y, R x y → StepsHalt C Eq (g x) (g' y)) :
    StepsHalt C Eq (xs.mapM g) (ys.mapM g') := by
  induction h with
  | nil => exact refl
  | cons first _ ih =>
    rw [List.mapM_cons, List.mapM_cons]
    refine (each _ _ first).bind ?_
    rintro b _ rfl
    refine ih.bind ?_
    rintro bs _ rfl
    exact refl

end StepsHalt

end RdfXmlMapping

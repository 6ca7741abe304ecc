import Mathlib.Data.List.Forall2
import ResourceTables.Fault

/-!
# Results that may be faults

Taking a checked computation apart: when a sequence of two steps succeeds and when it is refused,
and the same for a step on every element of a list, and for steps that hand a state on from element
to element. Two computations are compared step by step: they yield related results, or they are
refused with related faults.

## Main definitions

* `Checked.Related`: two computations that come to related ends.
* `Fault.Alike`: two faults that differ in files, lines and wording at most.
-/

namespace ResourceTables

namespace Checked

variable {ε α β γ δ : Type}

/-- A sequence succeeds if both of its steps do, the second on the result of the first. -/
theorem bind_eq_ok {x : Except ε α} {f : α → Except ε β} {b : β} :
    x >>= f = .ok b ↔ ∃ a, x = .ok a ∧ f a = .ok b := by
  cases x <;> simp [bind, Except.bind]

/-- A sequence is refused by its first step, or by the second on the result of the first. -/
theorem bind_eq_error {x : Except ε α} {f : α → Except ε β} {fault : ε} :
    x >>= f = .error fault ↔ x = .error fault ∨ ∃ a, x = .ok a ∧ f a = .error fault := by
  cases x <;> simp [bind, Except.bind]

/-- What only turns a result into another adds no fault. -/
@[simp] theorem map_eq_error_iff {x : Checked α} {f : α → β} {fault : Fault} :
    f <$> x = .error fault ↔ x = .error fault := by
  cases x <;> simp [Functor.map, Except.map]

/-- What a step yields on the elements of a list, it yields element by element. -/
theorem mapM_eq_ok_iff {f : α → Except ε β} {xs : List α} {ys : List β} :
    xs.mapM f = .ok ys ↔ List.Forall₂ (fun x y => f x = .ok y) xs ys := by
  induction xs generalizing ys with
  | nil => cases ys <;> simp [pure, Except.pure]
  | cons x xs ih =>
    rw [List.mapM_cons, bind_eq_ok, List.forall₂_cons_left_iff]
    constructor
    · rintro ⟨y, hy, hRest⟩
      obtain ⟨rest, hrest, hEq⟩ := bind_eq_ok.mp hRest
      cases hEq
      exact ⟨y, rest, hy, ih.mp hrest, rfl⟩
    · rintro ⟨y, rest, hy, hrest, rfl⟩
      exact ⟨y, hy, bind_eq_ok.mpr ⟨rest, ih.mpr hrest, rfl⟩⟩

/-- The elements of a list have partners one by one if each of them has one. -/
theorem exists_forall₂_iff {R : α → β → Prop} {xs : List α} :
    (∃ ys, List.Forall₂ R xs ys) ↔ ∀ x ∈ xs, ∃ y, R x y := by
  induction xs with
  | nil => simp
  | cons x xs ih =>
    simp only [List.forall_mem_cons, ← ih, List.forall₂_cons_left_iff]
    constructor
    · rintro ⟨_, y, ys, hy, hRest, -⟩
      exact ⟨⟨y, hy⟩, ys, hRest⟩
    · rintro ⟨⟨y, hy⟩, ys, hRest⟩
      exact ⟨y :: ys, y, ys, hy, hRest, rfl⟩

theorem mapM_isOk_iff {f : α → Except ε β} {xs : List α} :
    (∃ ys, xs.mapM f = .ok ys) ↔ ∀ x ∈ xs, ∃ y, f x = .ok y := by
  simp only [mapM_eq_ok_iff, exists_forall₂_iff]

/-- What refuses a list of elements refuses one of them. -/
theorem exists_of_mapM_eq_error {f : α → Checked β} {xs : List α} {fault : Fault}
    (h : xs.mapM f = .error fault) : ∃ x ∈ xs, f x = .error fault := by
  induction xs with
  | nil => cases h
  | cons x xs ih =>
    rw [List.mapM_cons, bind_eq_error] at h
    rcases h with hFirst | ⟨y, -, hRest⟩
    · exact ⟨x, List.mem_cons_self, hFirst⟩
    · rcases bind_eq_error.mp hRest with hOther | ⟨ys, -, hEq⟩
      · obtain ⟨other, hMem, hFault⟩ := ih hOther
        exact ⟨other, List.mem_cons_of_mem _ hMem, hFault⟩
      · cases hEq

/-- What has no fault succeeds. -/
theorem isOk_iff_forall_ne_error {x : Checked α} :
    (∃ a, x = .ok a) ↔ ∀ fault, x ≠ .error fault := by
  cases x <;> simp

/-- A list of elements is refused at the first of them that is refused. -/
theorem mapM_eq_error_iff {f : α → Except ε β} {xs : List α} {fault : ε} :
    xs.mapM f = .error fault ↔
      ∃ before x after, xs = before ++ x :: after ∧ (∀ y ∈ before, ∃ z, f y = .ok z) ∧
        f x = .error fault := by
  induction xs with
  | nil => simp [pure, Except.pure]
  | cons x xs ih =>
    rw [List.mapM_cons, bind_eq_error]
    constructor
    · rintro (hFirst | ⟨y, hy, hRest⟩)
      · exact ⟨[], x, xs, rfl, fun _ h => absurd h List.not_mem_nil, hFirst⟩
      · rcases bind_eq_error.mp hRest with hOther | ⟨ys, -, hEq⟩
        · obtain ⟨before, other, after, rfl, hBefore, hOther⟩ := ih.mp hOther
          exact ⟨x :: before, other, after, rfl, List.forall_mem_cons.mpr ⟨⟨y, hy⟩, hBefore⟩,
            hOther⟩
        · cases hEq
    · rintro ⟨before, other, after, hEq, hBefore, hOther⟩
      cases before with
      | nil =>
        cases hEq
        exact .inl hOther
      | cons first before =>
        cases hEq
        obtain ⟨⟨y, hy⟩, hBefore⟩ := List.forall_mem_cons.mp hBefore
        exact .inr ⟨y, hy, bind_eq_error.mpr (.inl (ih.mpr ⟨before, other, after, rfl, hBefore,
          hOther⟩))⟩

/-- Steps that hand a state on from element to element are refused at the first element that the
state before it does not admit. -/
theorem foldlM_eq_error_iff {σ : Type} {step : σ → α → Except ε σ} {xs : List α} {start : σ}
    {fault : ε} :
    xs.foldlM step start = .error fault ↔
      ∃ before x after, xs = before ++ x :: after ∧
        ∃ state, before.foldlM step start = .ok state ∧ step state x = .error fault := by
  induction xs generalizing start with
  | nil => simp [pure, Except.pure]
  | cons x xs ih =>
    rw [List.foldlM_cons, bind_eq_error]
    constructor
    · rintro (hFirst | ⟨next, hFirst, hRest⟩)
      · exact ⟨[], x, xs, rfl, start, rfl, hFirst⟩
      · obtain ⟨before, other, after, rfl, state, hBefore, hOther⟩ := ih.mp hRest
        refine ⟨x :: before, other, after, rfl, state, ?_, hOther⟩
        rw [List.foldlM_cons, hFirst]
        exact hBefore
    · rintro ⟨before, other, after, hEq, state, hBefore, hOther⟩
      cases before with
      | nil =>
        cases hEq
        cases hBefore
        exact .inl hOther
      | cons first before =>
        cases hEq
        rw [List.foldlM_cons] at hBefore
        obtain ⟨next, hFirst, hBefore⟩ := bind_eq_ok.mp hBefore
        exact .inr ⟨next, hFirst, ih.mpr ⟨before, other, after, rfl, state, hBefore, hOther⟩⟩

/-- What a computation yields is seen from what is left of it when a fault is nothing. -/
theorem map_toOption_eq_some_iff {x : Checked α} {f : α → β} {b : β} :
    x.toOption.map f = some b ↔ ∃ a, x = .ok a ∧ f a = b := by
  cases x <;> simp [Except.toOption]

instance {x : Checked α} {p : α → Prop} [DecidablePred p] :
    Decidable (∀ a, x = .ok a → p a) :=
  match x with
  | .error _ => isTrue fun _ h => nomatch h
  | .ok a => decidable_of_iff (p a) ⟨fun h _ hEq => Except.ok.inj hEq ▸ h, fun h => h a rfl⟩

/-! ## Two computations -/

/-- Two computations both yield a result, and the results are related by `R`, or both are refused,
and their faults are related by `F`. -/
inductive Related (F : Fault → Fault → Prop) (R : α → β → Prop) : Checked α → Checked β → Prop where
  | ok {a : α} {b : β} (h : R a b) : Related F R (.ok a) (.ok b)
  | error {fault other : Fault} (h : F fault other) : Related F R (.error fault) (.error other)

namespace Related

variable {F : Fault → Fault → Prop} {R : α → β → Prop} {S : γ → δ → Prop}

theorem refl {R : α → α → Prop} (hF : ∀ fault, F fault fault) (hR : ∀ a, R a a) (x : Checked α) :
    Related F R x x := by
  cases x with
  | ok a => exact .ok (hR a)
  | error fault => exact .error (hF fault)

/-- Sequences are related if their first steps are, and their second steps on related results. -/
theorem bind {x : Checked α} {y : Checked β} {f : α → Checked γ} {g : β → Checked δ}
    (h : Related F R x y)
    (hNext : ∀ a b, x = .ok a → y = .ok b → R a b → Related F S (f a) (g b)) :
    Related F S (x >>= f) (y >>= g) := by
  cases h with
  | ok hR => exact hNext _ _ rfl rfl hR
  | error hF => exact .error hF

/-- The second steps are taken on one result if the first steps yield the same. -/
theorem bind_same {x y : Checked α} {f : α → Checked γ} {g : α → Checked δ}
    (h : Related F Eq x y)
    (hNext : ∀ a, x = .ok a → y = .ok a → Related F S (f a) (g a)) :
    Related F S (x >>= f) (y >>= g) :=
  h.bind fun a _ hx hy hSame => hSame ▸ hNext a hx (hSame ▸ hy)

/-- The results may be related otherwise. -/
theorem imp {S : α → β → Prop} {x : Checked α} {y : Checked β} (h : Related F R x y)
    (hResults : ∀ a b, x = .ok a → y = .ok b → R a b → S a b) : Related F S x y := by
  cases h with
  | ok hR => exact .ok (hResults _ _ rfl rfl hR)
  | error hF => exact .error hF

/-- Steps on the elements of two lists are related if they are related element by element. -/
theorem mapM {xs : List α} {ys : List β} {f : α → Checked γ} {g : β → Checked δ}
    (h : List.Forall₂ (fun x y => Related F S (f x) (g y)) xs ys) :
    Related F (List.Forall₂ S) (xs.mapM f) (ys.mapM g) := by
  induction h with
  | nil => exact .ok .nil
  | cons hFirst _ ih =>
    rw [List.mapM_cons, List.mapM_cons]
    exact hFirst.bind fun _ _ _ _ hS => ih.bind fun _ _ _ _ hRest => .ok (.cons hS hRest)

end Related

end Checked

/-! ## Faults that tell the same -/

/-- Two faults tell the same, but for the files, the lines and the wording: they have one kind, and
blame the same version and the same keys. -/
structure Fault.Alike (fault other : Fault) : Prop where
  kind : other.kind = fault.kind
  version? : other.version? = fault.version?
  key? : other.key? = fault.key?
  keys : other.keys = fault.keys

/-- Two computations yield results that are related, or are refused with faults that tell the
same. -/
abbrev Checked.Alike {α β : Type} (R : α → β → Prop) : Checked α → Checked β → Prop :=
  Checked.Related Fault.Alike R

theorem Checked.Alike.refl {α : Type} (x : Checked α) : Checked.Alike Eq x x :=
  Checked.Related.refl (fun _ => ⟨rfl, rfl, rfl, rfl⟩) (fun _ => rfl) x

end ResourceTables

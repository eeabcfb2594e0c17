/-!
# Outcomes

How a computation that may fail has come to its outcome, and when two outcomes are alike.
-/
namespace Cartridge

/-! ## One outcome -/

section

variable {ε ε' α β : Type}

theorem ok_mapError (wrap : ε → ε') (x : α) :
    (.ok x : Except ε α).mapError wrap = .ok x := rfl

theorem ok_mapError_bind (wrap : ε → ε') (x : α) (f : α → Except ε' β) :
    ((.ok x : Except ε α).mapError wrap >>= f) = f x := rfl

theorem error_mapError_bind (wrap : ε → ε') (e : ε) (f : α → Except ε' β) :
    ((.error e : Except ε α).mapError wrap >>= f) = .error (wrap e) := rfl

theorem bind_eq_ok {x : Except ε α} {f : α → Except ε β} {y : β} :
    (x >>= f) = .ok y ↔ ∃ a, x = .ok a ∧ f a = .ok y := by
  cases x <;> simp [bind, Except.bind]

theorem map_eq_ok {f : α → β} {x : Except ε α} {y : β} :
    x.map f = .ok y ↔ ∃ a, x = .ok a ∧ f a = y := by
  cases x <;> simp [Except.map]

theorem mapError_eq_ok {wrap : ε → ε'} {x : Except ε α} {a : α} :
    x.mapError wrap = .ok a ↔ x = .ok a := by
  cases x with
  | ok b => rw [ok_mapError, Except.ok.injEq, Except.ok.injEq]
  | error e => exact iff_of_false nofun nofun

theorem eq_ok_of_toOption {x : Except ε α} {a : α} (h : x.toOption = some a) :
    x = .ok a := by
  cases x with
  | error e => cases h
  | ok b => rw [Option.some.inj h]

theorem eq_of_ite_ok {c : Prop} [Decidable c] {a b : α} {e : ε}
    (h : (if c then .ok a else .error e : Except ε α) = .ok b) : a = b := by
  split at h
  · exact Except.ok.inj h
  · cases h

end

/-! ## Two outcomes -/

/-- Two outcomes are both answers or both errors, and related as such. -/
inductive Matches {α β ε ε' : Type} (V : α → β → Prop) (E : ε → ε' → Prop) :
    Except ε α → Except ε' β → Prop
  | ok {x : α} {y : β} (h : V x y) : Matches V E (.ok x) (.ok y)
  | error {e : ε} {e' : ε'} (h : E e e') : Matches V E (.error e) (.error e')

namespace Matches

variable {α β α' β' ε ε' δ δ' : Type} {V : α → β → Prop} {W : α' → β' → Prop} {E : ε → ε' → Prop}
  {D : δ → δ' → Prop} {x : Except ε α} {y : Except ε' β}

theorem imp_error {F : ε → ε' → Prop} (h : Matches V E x y) (hE : ∀ e e', E e e' → F e e') :
    Matches V F x y := by
  cases h with
  | ok h => exact .ok h
  | error h => exact .error (hE _ _ h)

theorem eq_ok_or_eq_error (h : Matches V E x y) :
    (∃ v w, x = .ok v ∧ y = .ok w ∧ V v w) ∨ ∃ e e', x = .error e ∧ y = .error e' ∧ E e e' := by
  cases h with
  | ok h => exact Or.inl ⟨_, _, rfl, rfl, h⟩
  | error h => exact Or.inr ⟨_, _, rfl, rfl, h⟩

theorem eq_iff {x y : Except ε α} : Matches Eq Eq x y ↔ x = y := by
  constructor
  · rintro (⟨rfl⟩ | ⟨rfl⟩) <;> rfl
  · rintro rfl
    cases x with
    | ok v => exact .ok rfl
    | error e => exact .error rfl

theorem bind (h : Matches V E x y) {f : α → Except ε α'} {g : β → Except ε' β'}
    (hfg : ∀ v w, V v w → Matches W E (f v) (g w)) : Matches W E (x >>= f) (y >>= g) := by
  cases h with
  | ok h => exact hfg _ _ h
  | error h => exact .error h

theorem mapError (h : Matches V E x y) {f : ε → δ} {g : ε' → δ'}
    (hE : ∀ e e', E e e' → D (f e) (g e')) : Matches V D (x.mapError f) (y.mapError g) := by
  cases h with
  | ok h => exact .ok h
  | error h => exact .error (hE _ _ h)

end Matches

end Cartridge

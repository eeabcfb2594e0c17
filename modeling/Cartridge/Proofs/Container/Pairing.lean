import Cartridge.Proofs.Container.Procedure
import Cartridge.Proofs.Outcome

/-!
# Two procedures side by side

Two procedures work on two containers that are related. Step by step they answer alike, and leave
containers that are related again. The rules go with those for one container.
-/
namespace Cartridge

namespace Procedure

variable {α β α' β' ε ε' : Type} {R : Container → Container → Prop}
  {E : ContainerError → ContainerError → Prop} {V : α → β → Prop} {W : α' → β' → Prop}
  {a : Procedure α} {b : Procedure β}

/-- From related containers the two procedures reach related outcomes and related containers. -/
def Pairs (R : Container → Container → Prop) (E : ContainerError → ContainerError → Prop)
    (V : α → β → Prop) (a : Procedure α) (b : Procedure β) : Prop :=
  ∀ s t : Session, R s.container t.container →
    Matches V E (a.perform s).1 (b.perform t).1 ∧
      R (a.perform s).2.container (b.perform t).2.container

namespace Pairs

theorem of_runs
    (h : ∀ c d, R c d → ∃ x y c' d', Runs a c x c' ∧ Runs b d y d' ∧ Matches V E x y ∧ R c' d') :
    Pairs R E V a b := by
  intro s t hst
  obtain ⟨x, y, c', d', ha, hb, hxy, hnext⟩ := h s.container t.container hst
  rw [ha.outcome_eq, hb.outcome_eq, ha.container_eq, hb.container_eq]
  exact ⟨hxy, hnext⟩

theorem of_pure {x : α} {y : β} (h : V x y) : Pairs R E V (pure x) (pure y) :=
  fun _ _ hst => ⟨.ok h, hst⟩

theorem of_throw {e e' : ContainerError} (h : E e e') :
    Pairs R E V (throw e : Procedure α) (throw e' : Procedure β) :=
  fun _ _ hst => ⟨.error h, hst⟩

/-- What fails leaves nothing to be done. -/
theorem of_throw_bind {f : α → Procedure α'} {g : β → Procedure β'} {e e' : ContainerError}
    (h : E e e') : Pairs R E W ((throw e : Procedure α) >>= f) ((throw e' : Procedure β) >>= g) :=
  fun _ _ hst => ⟨.error h, hst⟩

/-- What is logged need not be the same. -/
theorem of_append (lines lines' : Log) : Pairs R E Eq (append lines) (append lines') :=
  fun _ _ hst => ⟨.ok rfl, hst⟩

theorem of_note (severity : Severity) (text text' : String) :
    Pairs R E Eq (note severity text) (note severity text') :=
  of_append _ _

theorem of_update {f g : Container → Container} (h : ∀ c d, R c d → R (f c) (g d)) :
    Pairs R E Eq (update f) (update g) :=
  fun s t hst => ⟨.ok rfl, h s.container t.container hst⟩

theorem of_ofExcept {F : ε → ε' → Prop} {wrap : ε → ContainerError} {wrap' : ε' → ContainerError}
    {x : Except ε α} {y : Except ε' β} (h : Matches V F x y)
    (hwrap : ∀ e e', F e e' → E (wrap e) (wrap' e')) :
    Pairs R E V (ofExcept wrap x) (ofExcept wrap' y) := by
  cases h with
  | ok h => exact of_pure h
  | error h => exact of_throw (hwrap _ _ h)

theorem bind {f : α → Procedure α'} {g : β → Procedure β'} (hab : Pairs R E V a b)
    (hfg : ∀ x y, V x y → Pairs R E W (f x) (g y)) : Pairs R E W (a >>= f) (b >>= g) := by
  intro s t hst
  obtain ⟨hout, hnext⟩ := hab s t hst
  rw [perform_bind, perform_bind]
  cases ha : a.perform s with
  | mk x s' =>
    cases hb : b.perform t with
    | mk y t' =>
      rw [ha, hb] at hout hnext
      cases hout with
      | ok h => exact hfg _ _ h s' t' hnext
      | error h => exact ⟨.error h, hnext⟩

/-- Steps that answer the same. -/
theorem bind_eq {b : Procedure α} {f : α → Procedure α'} {g : α → Procedure β'}
    (hab : Pairs R E Eq a b) (hfg : ∀ x, Pairs R E W (f x) (g x)) :
    Pairs R E W (a >>= f) (b >>= g) := by
  refine hab.bind fun x y hxy => ?_
  rw [← hxy]
  exact hfg x

theorem attempt (h : Pairs R E V a b) :
    Pairs R E (Matches V E) (Procedure.attempt a) (Procedure.attempt b) := by
  intro s t hst
  obtain ⟨hout, hnext⟩ := h s t hst
  exact ⟨.ok hout, hnext⟩

/-- Procedures that start by reading their containers may rely on what these are to each other. -/
theorem container_bind {f : Container → Procedure α} {g : Container → Procedure β}
    (h : ∀ c d, R c d → Pairs R E V (f c) (g d)) :
    Pairs R E V (container >>= f) (container >>= g) := by
  intro s t hst
  rw [perform_bind, perform_bind]
  exact h s.container t.container hst s t hst

/-- A step that both take, or neither. -/
theorem optional {p : Prop} [Decidable p] {a b : Procedure Unit} {f : Unit → Procedure α}
    {g : Unit → Procedure β} (hab : Pairs R E Eq a b) (hfg : Pairs R E V (f ()) (g ())) :
    Pairs R E V (if p then a >>= f else f ()) (if p then b >>= g else g ()) := by
  split
  · exact hab.bind_eq fun _ => hfg
  · exact hfg

end Pairs

end Procedure

end Cartridge

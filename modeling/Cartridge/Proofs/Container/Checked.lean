import Cartridge.Proofs.Container.Loading
import Cartridge.Proofs.Storage.Positions

/-!
# Procedures that stop at an overflow

In `Option` a number that does not fit ends the program: there is neither an outcome nor a session
after it. A procedure agrees with its plain form on the containers on which this does not happen,
which is told step by step: what a step is started on is known from the step before.
-/
namespace Cartridge

/-- A procedure that a number that does not fit brings to an end. -/
abbrev Checked := ProcedureOver Option

namespace Procedure

variable {α β : Type} {P : Container → Prop} {Q : α → Container → Prop}
  {R : β → Container → Prop} {a : Procedure α} {f : α → Procedure β}

/-- If the procedure succeeds, `Q` holds of its answer and of the container after it. -/
def Yields (P : Container → Prop) (a : Procedure α) (Q : α → Container → Prop) : Prop :=
  ∀ s : Session, P s.container → ∀ x t, a.perform s = (.ok x, t) → Q x t.container

namespace Yields

theorem of_keeps (h : Keeps P a) : Yields P a fun _ => P := by
  intro s hs x t hrun
  have hkept := h s hs
  rw [hrun] at hkept
  exact hkept

theorem of_any (a : Procedure α) : Yields P a fun _ _ => True := fun _ _ _ _ _ => trivial

theorem of_runs (h : ∀ c, P c → ∃ outcome next, Runs a c outcome next ∧
    ∀ x, outcome = .ok x → Q x next) : Yields P a Q := by
  intro s hs x t hrun
  obtain ⟨outcome, next, hruns, hnext⟩ := h s.container hs
  have houtcome := hruns.outcome_eq
  have hcontainer := hruns.container_eq
  rw [hrun] at houtcome hcontainer
  rw [← hcontainer] at hnext
  exact hnext x houtcome.symm

theorem of_pure {x : α} (h : ∀ c, P c → Q x c) : Yields P (pure x) Q := by
  intro s hs y t hrun
  cases hrun
  exact h s.container hs

theorem of_throw (e : ContainerError) : Yields P (throw e : Procedure α) Q := by
  intro s _ x t hrun
  cases hrun

theorem bind (ha : Yields P a Q) (hf : ∀ x, Yields (Q x) (f x) R) : Yields P (a >>= f) R := by
  intro s hs y t hrun
  rw [perform_bind] at hrun
  cases ha' : a.perform s with
  | mk outcome middle =>
    rw [ha'] at hrun
    cases outcome with
    | error e => cases hrun
    | ok x => exact hf x middle (ha s hs x middle ha') y t hrun

theorem container_bind {f : Container → Procedure β} (h : ∀ c, P c → Yields P (f c) R) :
    Yields P (container >>= f) R := by
  intro s hs y t hrun
  rw [perform_bind] at hrun
  exact h s.container hs s hs y t hrun

/-- What holds after a success is known of an attempt that has succeeded. -/
theorem attempt (ha : Yields P a Q) (hkeeps : Keeps P a) :
    Yields P (Procedure.attempt a) fun outcome c => P c ∧ ∀ x, outcome = .ok x → Q x c := by
  intro s hs outcome t hrun
  rw [perform_attempt] at hrun
  cases hrun
  refine ⟨hkeeps s hs, fun x hx => ha s hs x _ ?_⟩
  rw [← hx]

end Yields

end Procedure

namespace Checked

open Procedure (Keeps Yields attempt container note ofExcept update)

variable {α β ε : Type} {P : Container → Prop} {Q : α → Container → Prop} {a : Checked α}
  {b : Procedure α} {f : α → Checked β} {g : α → Procedure β}

theorem run_bind (a : Checked α) (f : α → Checked β) (s : Session) :
    (a >>= f) s = match a s with
      | some (.ok x, t) => f x t
      | some (.error e, t) => some (.error e, t)
      | none => none := by
  show (a s).bind _ = _
  cases a s with
  | none => rfl
  | some answer =>
    obtain ⟨outcome, t⟩ := answer
    cases outcome with
    | ok x => rfl
    | error e => rfl

/-- The checked procedure does what the plain one does, on every container with this property. -/
def Agrees (P : Container → Prop) (a : Checked α) (b : Procedure α) : Prop :=
  ∀ s : Session, P s.container → a s = some (b.perform s)

namespace Agrees

/-! ## Steps -/

theorem of_pure (x : α) : Agrees P (pure x) (pure x) := fun _ _ => rfl

theorem of_throw (e : ContainerError) : Agrees P (throw e : Checked α) (throw e) := fun _ _ => rfl

theorem of_append (lines : Log) : Agrees P (Procedure.append lines) (Procedure.append lines) :=
  fun _ _ => rfl

theorem of_note (severity : Severity) (text : String) :
    Agrees P (note severity text) (note severity text) :=
  of_append _

theorem of_update (h : Container → Container) : Agrees P (update h) (update h) := fun _ _ => rfl

theorem of_ofExcept (wrap : ε → ContainerError) (outcome : Except ε α) :
    Agrees P (ofExcept wrap outcome) (ofExcept wrap outcome) := by
  cases outcome with
  | ok value => exact of_pure value
  | error e => exact of_throw (wrap e)

theorem attempt (h : Agrees P a b) : Agrees P (Procedure.attempt a) (Procedure.attempt b) := by
  intro s hs
  show (a s).bind _ = _
  rw [h s hs]
  rfl

/-! ## One step after another -/

theorem mono {P' : Container → Prop} (h : Agrees P a b) (himp : ∀ c, P' c → P c) :
    Agrees P' a b :=
  fun s hs => h s (himp s.container hs)

theorem bind (hab : Agrees P a b) (hyields : Yields P b Q) (hfg : ∀ x, Agrees (Q x) (f x) (g x)) :
    Agrees P (a >>= f) (b >>= g) := by
  intro s hs
  rw [run_bind, hab s hs, Procedure.perform_bind]
  cases hb : b.perform s with
  | mk outcome t =>
    cases outcome with
    | ok x => exact hfg x t (hyields s hs x t hb)
    | error e => rfl

/-- A step after which the property holds as before. -/
theorem bind_keeps (hab : Agrees P a b) (hkeeps : Keeps P b) (hfg : ∀ x, Agrees P (f x) (g x)) :
    Agrees P (a >>= f) (b >>= g) :=
  bind hab (.of_keeps hkeeps) hfg

/-- A step that leaves nothing to rely on. -/
theorem bind_any (hab : Agrees P a b) (hfg : ∀ x, Agrees (fun _ => True) (f x) (g x)) :
    Agrees P (a >>= f) (b >>= g) :=
  bind hab (.of_any b) hfg

/-- A number that both come to without a check that fails. -/
theorem bind_eq {x : α} (ha : a = pure x) (hb : b = pure x) (hfg : Agrees P (f x) (g x)) :
    Agrees P (a >>= f) (b >>= g) := by
  rw [ha, hb, pure_bind, pure_bind]
  exact hfg

/-- A sum that fits is what it is without the check. -/
theorem sum_bind {x y : UInt64} {f : UInt64 → Checked β} {g : UInt64 → Procedure β}
    (hfits : x.toNat + y.toNat < 2 ^ 64) (hfg : Agrees P (f (x + y)) (g (x + y))) :
    Agrees P (Arithmetic.sum x y >>= f) (Arithmetic.sum x y >>= g) :=
  bind_eq (Arithmetic.sum_of_fits hfits) (Arithmetic.sum_of_fits hfits) hfg

/-- Media units always fit. -/
theorem unitBytes_bind {units : UInt32} {f : UInt64 → Checked β} {g : UInt64 → Procedure β}
    (hfg : Agrees P (f (unitBytes units)) (g (unitBytes units))) :
    Agrees P (unitBytesM units >>= f) (unitBytesM units >>= g) :=
  bind_eq (unitBytesM_eq units) (unitBytesM_eq units) hfg

/-- What follows starts on the container that was read. -/
theorem container_bind {f : Container → Checked β} {g : Container → Procedure β}
    (h : ∀ c, P c → Agrees (· = c) (f c) (g c)) :
    Agrees P (container >>= f) (container >>= g) :=
  fun s hs => h s.container hs s rfl

/-- What follows needs no more of the container than what was known of it. -/
theorem container_bind_keeps {f : Container → Checked β} {g : Container → Procedure β}
    (h : ∀ c, Agrees P (f c) (g c)) : Agrees P (container >>= f) (container >>= g) :=
  container_bind fun c hc => mono (h c) fun _ hsame => hsame ▸ hc

theorem note_bind {severity : Severity} {text : String} {f : Unit → Checked β}
    {g : Unit → Procedure β} (hfg : Agrees P (f ()) (g ())) :
    Agrees P (note severity text >>= f) (note severity text >>= g) :=
  bind_keeps (of_note _ _) (.of_note _ _) fun _ => hfg

theorem ofExcept_bind {wrap : ε → ContainerError} {outcome : Except ε α}
    (hfg : ∀ x, Agrees P (f x) (g x)) :
    Agrees P (ofExcept wrap outcome >>= f) (ofExcept wrap outcome >>= g) :=
  bind_keeps (of_ofExcept _ _) (.of_ofExcept _ _) hfg

/-- A step that is taken on some condition, before what is done in any case. -/
theorem optional {p : Prop} [Decidable p] {a : Checked Unit} {b : Procedure Unit}
    {f : Unit → Checked β} {g : Unit → Procedure β} (hab : Agrees P a b) (hkeeps : Keeps P b)
    (hfg : Agrees P (f ()) (g ())) :
    Agrees P (if p then a >>= f else f ()) (if p then b >>= g else g ()) := by
  split
  · exact bind_keeps hab hkeeps fun _ => hfg
  · exact hfg

end Agrees

end Checked

end Cartridge

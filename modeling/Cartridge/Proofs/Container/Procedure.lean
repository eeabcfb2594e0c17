import Cartridge.Container.Session
import Cartridge.Proofs.Arithmetic

/-!
# Reasoning about procedures

What a procedure does to the container it works on, step by step. `Runs` says it of one
container, `Keeps` of a property of containers. The log is left out: no outcome depends on it.
-/
namespace Cartridge

/-- A container of which nothing has been read, and an empty log. -/
def Session.begin (path : Path) (offset : UInt64) (naming : Naming) : Session :=
  ⟨(Container.new path offset).withNaming naming, []⟩

namespace Procedure

variable {α β ε : Type} {s : Session} {a : Procedure α} {f : α → Procedure β}

theorem perform_throw (e : ContainerError) :
    (throw e : Procedure α).perform s = (.error e, s) := rfl

/-- A plain procedure adds without a check. -/
theorem sum_eq_pure (x y : UInt64) : (Arithmetic.sum x y : Procedure UInt64) = pure (x + y) := rfl

theorem perform_container : container.perform s = (.ok s.container, s) := rfl

theorem perform_attempt (a : Procedure α) :
    (attempt a).perform s = (.ok (a.perform s).1, (a.perform s).2) := rfl

theorem perform_bind (a : Procedure α) (f : α → Procedure β) :
    (a >>= f).perform s =
      match a.perform s with
      | (.ok x, t) => (f x).perform t
      | (.error e, t) => (.error e, t) := by
  show ((a.run >>= ExceptT.bindCont f).run s) = _
  unfold ProcedureOver.perform
  cases h : a.run.run s with
  | mk outcome t =>
    have hbind : (a.run >>= ExceptT.bindCont f).run s = (ExceptT.bindCont f outcome).run t := by
      show (ExceptT.bindCont f (a.run.run s).1).run (a.run.run s).2 = _
      rw [h]
    rw [hbind]
    cases outcome <;> rfl

/-- On this container, whatever the log, the procedure has this outcome and leaves that
container. -/
def Runs (a : Procedure α) (c : Container) (outcome : Except ContainerError α)
    (next : Container) : Prop :=
  ∀ log, ∃ after, a.perform ⟨c, log⟩ = (outcome, ⟨next, after⟩)

namespace Runs

variable {c d next : Container} {outcome : Except ContainerError β}

theorem of_pure (x : α) : Runs (pure x) c (.ok x) c := fun log => ⟨log, rfl⟩

/-- A number that is computed without a check. -/
theorem of_eq_pure {x : α} (h : a = pure x) : Runs a c (.ok x) c := by
  rw [h]
  exact of_pure x

theorem of_sum (x y : UInt64) : Runs (Arithmetic.sum x y) c (.ok (x + y)) c :=
  of_eq_pure (sum_eq_pure x y)

theorem of_throw (e : ContainerError) : Runs (throw e : Procedure α) c (.error e) c :=
  fun log => ⟨log, rfl⟩

theorem of_update (g : Container → Container) : Runs (update g) c (.ok ()) (g c) :=
  fun log => ⟨log, rfl⟩

theorem of_append (lines : Log) : Runs (append lines) c (.ok ()) c := fun _ => ⟨_, rfl⟩

theorem of_note (severity : Severity) (text : String) : Runs (note severity text) c (.ok ()) c :=
  of_append _

theorem of_ok {wrap : ε → ContainerError} (x : α) :
    Runs (ofExcept wrap (.ok x)) c (.ok x) c :=
  of_pure x

theorem of_error {wrap : ε → ContainerError} (e : ε) :
    Runs (ofExcept wrap (.error e) : Procedure α) c (.error (wrap e)) c :=
  of_throw (wrap e)

theorem bind {x : α} (ha : Runs a c (.ok x) d) (hf : Runs (f x) d outcome next) :
    Runs (a >>= f) c outcome next := by
  intro log
  obtain ⟨middle, hmiddle⟩ := ha log
  obtain ⟨after, hafter⟩ := hf middle
  refine ⟨after, ?_⟩
  rw [perform_bind, hmiddle]
  exact hafter

/-- What fails leaves nothing to be done. -/
theorem bind_error {e : ContainerError} (ha : Runs a c (.error e) d) :
    Runs (a >>= f) c (.error e) d := by
  intro log
  obtain ⟨after, hafter⟩ := ha log
  refine ⟨after, ?_⟩
  rw [perform_bind, hafter]

theorem container_bind {f : Container → Procedure β} (h : Runs (f c) c outcome next) :
    Runs (container >>= f) c outcome next :=
  bind (fun log => ⟨log, rfl⟩) h

/-- The outcome of an attempt is an answer, whichever it is. -/
theorem attempt {outcome : Except ContainerError α} (ha : Runs a c outcome next) :
    Runs (Procedure.attempt a) c (.ok outcome) next := by
  intro log
  obtain ⟨after, hafter⟩ := ha log
  refine ⟨after, ?_⟩
  rw [perform_attempt, hafter]

/-- A procedure whose answer is only wrapped up. -/
theorem map {outcome : Except ContainerError α} (ha : Runs a c outcome next) (g : α → β) :
    Runs (do return g (← a)) c (outcome.map g) next := by
  cases outcome with
  | ok x => exact bind ha (of_pure (g x))
  | error e => exact bind_error ha

/-- A note that is made on some condition. -/
theorem optional {p : Prop} [Decidable p] {a : Procedure Unit} {b : Unit → Procedure β}
    (ha : Runs a c (.ok ()) c) (hb : Runs (b ()) c outcome next) :
    Runs (if p then a >>= b else b ()) c outcome next := by
  split
  · exact bind ha hb
  · exact hb

theorem outcome_eq {outcome : Except ContainerError α} (h : Runs a s.container outcome next) :
    (a.perform s).1 = outcome := by
  obtain ⟨after, hafter⟩ := h s.log
  exact congrArg Prod.fst hafter

theorem container_eq {outcome : Except ContainerError α} (h : Runs a s.container outcome next) :
    (a.perform s).2.container = next := by
  obtain ⟨after, hafter⟩ := h s.log
  exact congrArg (fun answer => answer.2.container) hafter

end Runs

/-- The procedure leaves `P` true, whether it succeeds or fails. -/
def Keeps (P : Container → Prop) (a : Procedure α) : Prop :=
  ∀ s : Session, P s.container → P (a.perform s).2.container

namespace Keeps

variable {P : Container → Prop}

theorem of_runs (h : ∀ c, P c → ∃ outcome next, Runs a c outcome next ∧ P next) :
    Keeps P a := by
  intro s hs
  obtain ⟨outcome, next, hrun, hnext⟩ := h s.container hs
  rw [hrun.container_eq]
  exact hnext

theorem of_pure (x : α) : Keeps P (pure x) := fun _ h => h

theorem of_eq_pure {x : α} (h : a = pure x) : Keeps P a := by
  rw [h]
  exact of_pure x

theorem of_sum (x y : UInt64) : Keeps P (Arithmetic.sum x y) := of_eq_pure (sum_eq_pure x y)

theorem of_throw (e : ContainerError) : Keeps P (throw e : Procedure α) := fun _ h => h

theorem of_append (lines : Log) : Keeps P (append lines) := fun _ h => h

theorem of_note (severity : Severity) (text : String) : Keeps P (note severity text) :=
  of_append _

theorem of_update {g : Container → Container} (h : ∀ c, P c → P (g c)) : Keeps P (update g) :=
  fun s hs => h s.container hs

theorem of_ofExcept (wrap : ε → ContainerError) (outcome : Except ε α) :
    Keeps P (ofExcept wrap outcome) := by
  cases outcome with
  | ok value => exact of_pure value
  | error e => exact of_throw (wrap e)

theorem bind (ha : Keeps P a) (hf : ∀ x, Keeps P (f x)) : Keeps P (a >>= f) := by
  intro s hs
  have hstep := ha s hs
  rw [perform_bind]
  cases hrun : a.perform s with
  | mk outcome t =>
    rw [hrun] at hstep
    cases outcome with
    | ok x => exact hf x t hstep
    | error e => exact hstep

theorem attempt (ha : Keeps P a) : Keeps P (Procedure.attempt a) := ha

/-- A step that is taken on some condition, before what is done in any case. -/
theorem optional {p : Prop} [Decidable p] {a : Procedure Unit} {b : Unit → Procedure β}
    (ha : Keeps P a) (hb : Keeps P (b ())) : Keeps P (if p then a >>= b else b ()) := by
  split
  · exact bind ha fun _ => hb
  · exact hb

/-- A procedure that starts by reading the container may rely on `P` for what it has read. -/
theorem container_bind {f : Container → Procedure β} (h : ∀ c, P c → Keeps P (f c)) :
    Keeps P (container >>= f) := by
  intro s hs
  rw [perform_bind]
  exact h s.container hs s hs

end Keeps

end Procedure

end Cartridge

import Cartridge.Command.Run
import Cartridge.Proofs.Storage.Writing

/-!
# Reasoning about commands

Which files a program stores, step by step. A program that fails has stored the first of the
files that it was to store; one that succeeds has stored at least those that it cannot do without.
-/
namespace Cartridge.Command

variable {α β ε ι : Type} {w after : World} {a : Program α} {f : α → Program β} {e : Failure}

/-! ## Runs -/

theorem run_bind_of_ok {x : α} (h : a.run.run w = (.ok x, after)) :
    (a >>= f).run.run w = (f x).run.run after := by
  show (ExceptT.bindCont f (a.run.run w).1).run (a.run.run w).2 = _
  rw [h]
  rfl

theorem run_bind_of_error (h : a.run.run w = (.error e, after)) :
    (a >>= f).run.run w = (.error e, after) := by
  show (ExceptT.bindCont f (a.run.run w).1).run (a.run.run w).2 = _
  rw [h]
  rfl

theorem run_get_bind (g : World → Program α) : (get >>= g).run.run w = (g w).run.run w := rfl

section

variable {session next : Session} {procedure : FileSystem → Procedure α}

theorem run_onContainer_of_ok {x : α}
    (h : (procedure w.fileSystem).perform session = (.ok x, next)) :
    (onContainer session procedure).run.run w = (.ok (x, next), w) := by
  unfold onContainer
  rw [run_get_bind, h]
  rfl

theorem run_onContainer_of_error {e : ContainerError}
    (h : (procedure w.fileSystem).perform session = (.error e, next)) :
    (onContainer session procedure).run.run w = (.error (.load e), w) := by
  unfold onContainer
  rw [run_get_bind, h]
  rfl

end

section

variable {wrap : ε → Failure} {change : FileSystem → Except ε FileSystem}

theorem run_onFiles_of_ok {now : FileSystem} (h : change w.fileSystem = .ok now) :
    (onFiles wrap change).run.run w = (.ok (), { w with fileSystem := now }) := by
  unfold onFiles
  rw [run_get_bind, h]
  rfl

theorem run_onFiles_of_error {e : ε} (h : change w.fileSystem = .error e) :
    (onFiles wrap change).run.run w = (.error (wrap e), w) := by
  unfold onFiles
  rw [run_get_bind, h]
  rfl

end

/-! ## Runs that succeed -/

theorem run_bind_eq_ok {y : β} : (a >>= f).run.run w = (.ok y, after) ↔
    ∃ x middle, a.run.run w = (.ok x, middle) ∧ (f x).run.run middle = (.ok y, after) := by
  cases hrun : a.run.run w with
  | mk outcome middle =>
    cases outcome with
    | ok x =>
      rw [run_bind_of_ok hrun]
      constructor
      · intro h
        exact ⟨x, middle, rfl, h⟩
      · rintro ⟨_, _, ⟨⟩, h⟩
        exact h
    | error e =>
      rw [run_bind_of_error hrun]
      exact iff_of_false nofun nofun

theorem run_onContainer_eq_ok {session next : Session} {procedure : FileSystem → Procedure α}
    {x : α} : (onContainer session procedure).run.run w = (.ok (x, next), after) ↔
      (procedure w.fileSystem).perform session = (.ok x, next) ∧ after = w := by
  cases hrun : (procedure w.fileSystem).perform session with
  | mk outcome other =>
    cases outcome with
    | ok y =>
      rw [run_onContainer_of_ok hrun]
      constructor
      · rintro ⟨⟩
        exact ⟨rfl, rfl⟩
      · rintro ⟨⟨⟩, rfl⟩
        rfl
    | error e =>
      rw [run_onContainer_of_error hrun]
      exact iff_of_false nofun nofun

theorem run_onFiles_eq_ok {wrap : ε → Failure} {change : FileSystem → Except ε FileSystem} :
    (onFiles wrap change).run.run w = (.ok (), after) ↔
      ∃ now, change w.fileSystem = .ok now ∧ after = { w with fileSystem := now } := by
  cases hchange : change w.fileSystem with
  | ok now =>
    rw [run_onFiles_of_ok hchange]
    constructor
    · rintro ⟨⟩
      exact ⟨now, rfl, rfl⟩
    · rintro ⟨_, ⟨⟩, rfl⟩
      rfl
  | error e =>
    rw [run_onFiles_of_error hchange]
    exact iff_of_false nofun nofun

/-! ## What is stored -/

/-- From this world the program stores the first of the planned files, with those that are needed
among them if it succeeds. -/
def Stores (needed planned : List Path) (a : Program α) (w : World) : Prop :=
  ∃ written, written <+: planned ∧ (∀ x, (a.run.run w).1 = .ok x → needed <+: written) ∧
    w.fileSystem.Stores written (a.run.run w).2.fileSystem

namespace Stores

variable {needed planned first : List Path}

theorem of_unchanged (h : (a.run.run w).2.fileSystem = w.fileSystem) : Stores [] [] a w :=
  ⟨[], List.nil_prefix, fun _ _ => List.nil_prefix, by rw [h]; exact .refl _⟩

theorem of_pure (x : α) : Stores [] [] (pure x) w := of_unchanged rfl

/-- What fails without a change need not have stored anything. -/
theorem of_error (h : a.run.run w = (.error e, after)) (hsame : after.fileSystem = w.fileSystem) :
    Stores needed planned a w := by
  refine ⟨[], List.nil_prefix, ?_, ?_⟩
  · rw [h]
    nofun
  · rw [h, hsame]
    exact .refl _

theorem of_orFail (wrap : ε → Failure) (outcome : Except ε α) :
    Stores [] [] (orFail wrap outcome) w := by
  cases outcome with
  | ok x => exact of_pure x
  | error e => exact of_error rfl rfl

theorem of_modify {g : World → World} (h : w.fileSystem.Stores planned (g w).fileSystem) :
    Stores planned planned (modify g : Program Unit) w :=
  ⟨planned, List.prefix_refl _, fun _ _ => List.prefix_refl _, h⟩

theorem of_onContainer (session : Session) (procedure : FileSystem → Procedure α) :
    Stores [] [] (onContainer session procedure) w := by
  cases hrun : (procedure w.fileSystem).perform session with
  | mk outcome next =>
    cases outcome with
    | ok x => exact of_unchanged (by rw [run_onContainer_of_ok hrun])
    | error e => exact of_error (run_onContainer_of_error hrun) rfl

theorem of_onFiles {wrap : ε → Failure} {change : FileSystem → Except ε FileSystem}
    (h : ∀ now, change w.fileSystem = .ok now → w.fileSystem.Stores planned now) :
    Stores planned planned (onFiles wrap change) w := by
  cases hchange : change w.fileSystem with
  | ok now =>
    refine ⟨planned, List.prefix_refl _, fun _ _ => List.prefix_refl _, ?_⟩
    rw [run_onFiles_of_ok hchange]
    exact h now hchange
  | error e => exact of_error (run_onFiles_of_error hchange) rfl

theorem mono {few many : List Path} (h : Stores needed planned a w) (hfew : few <+: needed)
    (hmany : planned <+: many) : Stores few many a w := by
  obtain ⟨written, hplanned, hneeded, hstores⟩ := h
  exact ⟨written, hplanned.trans hmany, fun x hx => hfew.trans (hneeded x hx), hstores⟩

/-- What comes after a program adds to the files that this one has stored, if it succeeds. -/
theorem bind (ha : Stores first first a w)
    (hf : ∀ x after, a.run.run w = (.ok x, after) → Stores needed planned (f x) after) :
    Stores (first ++ needed) (first ++ planned) (a >>= f) w := by
  obtain ⟨written, hplanned, hneeded, hstores⟩ := ha
  cases hrun : a.run.run w with
  | mk outcome after =>
    rw [hrun] at hneeded hstores
    cases outcome with
    | error e =>
      refine ⟨written, hplanned.trans (List.prefix_append _ _), ?_, ?_⟩
      · rw [run_bind_of_error hrun]
        nofun
      · rw [run_bind_of_error hrun]
        exact hstores
    | ok x =>
      obtain rfl : written = first := hplanned.eq_of_length_le (hneeded x rfl).length_le
      obtain ⟨more, hmore, hlast, hrest⟩ := hf x after hrun
      refine ⟨written ++ more, (List.prefix_append_right_inj written).mpr hmore, ?_, ?_⟩
      · rw [run_bind_of_ok hrun]
        intro y hy
        exact (List.prefix_append_right_inj written).mpr (hlast y hy)
      · rw [run_bind_of_ok hrun]
        exact hstores.trans hrest

/-- A step that stores nothing, before what is stored. -/
theorem nil_bind (ha : Stores [] [] a w)
    (hf : ∀ x after, a.run.run w = (.ok x, after) → Stores needed planned (f x) after) :
    Stores needed planned (a >>= f) w :=
  bind ha hf

/-- What comes after need not store what it may store. -/
theorem bind_optional (ha : Stores first first a w)
    (hf : ∀ x after, a.run.run w = (.ok x, after) → Stores [] planned (f x) after) :
    Stores first (first ++ planned) (a >>= f) w := by
  have hboth := bind ha hf
  rwa [List.append_nil] at hboth

/-- A step that stores nothing, after what is stored. -/
theorem bind_nil (ha : Stores first first a w)
    (hf : ∀ x after, a.run.run w = (.ok x, after) → Stores [] [] (f x) after) :
    Stores first first (a >>= f) w := by
  have hboth := bind_optional ha hf
  rwa [List.append_nil] at hboth

theorem get_bind {g : World → Program α} (h : Stores needed planned (g w) w) :
    Stores needed planned (get >>= g) w := h

/-- A loop stores the files of its rounds, one after the other. -/
theorem forM {target : ι → Path} {body : ι → Program PUnit} (items : List ι)
    (h : ∀ item ∈ items, ∀ w, Stores [target item] [target item] (body item) w) (w : World) :
    Stores (items.map target) (items.map target) (items.forM body) w := by
  induction items generalizing w with
  | nil => exact of_pure _
  | cons item rest ih =>
    have hrest := ih fun other hother => h other (List.mem_cons_of_mem _ hother)
    exact bind (h item List.mem_cons_self w) fun _ after _ => hrest after

end Stores

end Cartridge.Command

import Cartridge.Container.Operation
import Cartridge.Proofs.Container.Loading

/-!
# What lasts

A property of containers is steady if loading keeps it: then every operation keeps it that neither
looks for override files nor changes the naming conventions. It lasts if these two cannot break it
either: then every history keeps it.
-/
namespace Cartridge

/-- The operations that neither look for override files nor change the naming conventions. -/
def Operation.isQuiet : Operation → Bool
  | .findOverrides | .useNaming _ => false
  | _ => true

open Procedure

namespace Container

variable {P : Container → Prop} {path : Path} {fs : FileSystem}

/-- Opening the file keeps all that holds of a container whose file was opened just now. -/
theorem keeps_openFile
    (h : ∀ c file, P c → c.file = none → fs.openPath c.path = .ok file →
      P { c with file := some file, stage := .opened }) :
    Keeps P (openFile fs) := by
  refine .of_runs fun c hc => ⟨_, _, openFile_runs fs c, ?_⟩
  unfold openResult
  cases hfile : c.file with
  | some file => exact hc
  | none =>
    cases hopen : fs.openPath c.path with
    | error e => exact hc
    | ok file => exact h c file hc hfile hopen

theorem keeps_findOverrides (h : ∀ c found, P c → P { c with overrides := found }) :
    Keeps P (findOverrides fs) :=
  .of_runs fun c hc => ⟨_, _, findOverrides_runs fs c, h c _ hc⟩

/-- A property of containers that loading keeps, and asking for the file after it. -/
structure Steady (fs : FileSystem) (P : Container → Prop) : Prop where
  load : Keeps P (load fs)
  /-- The file is only asked for again once there is a header, or a RomFS is noted. -/
  reopen : ∀ c, P c → c.header.isSome ∨ c.hasRomfs = true → Keeps P (openFile fs)

/-- A steady property that no step outside of loading can break. -/
structure Lasting (fs : FileSystem) (P : Container → Prop) : Prop extends Steady fs P where
  overrides : ∀ c found, P c → P { c with overrides := found }
  naming : ∀ c naming, P c → P (c.withNaming naming)

namespace Steady

variable (h : Steady fs P)
include h

theorem ensureHeader : Keeps P (ensureHeader fs) := by
  unfold Container.ensureHeader
  refine .bind (.attempt h.load) fun outcome => ?_
  cases outcome with
  | ok _ => exact .of_pure ()
  | error e =>
    refine .container_bind fun c _ => ?_
    split
    · exact .of_note _ _
    · exact .of_throw e

theorem readOverrideSection (name : String) : Keeps P (readOverrideSection fs name) := by
  unfold Container.readOverrideSection
  refine .bind h.load fun _ => .container_bind fun c _ => .optional (.of_throw _) ?_
  split
  · split
    · exact .bind (.of_note _ _) fun _ => .of_pure _
    · exact .bind (.of_note _ _) fun _ => .of_throw _
  · exact .of_throw _

theorem readLogo {c : Container} (hc : P c) (hheader : c.header.isSome) (region : Region) :
    Keeps P (readLogo fs region) := by
  unfold Container.readLogo
  refine .bind (h.reopen c hc (.inl hheader)) fun file => .container_bind fun d _ => ?_
  refine .bind (.of_eq_pure (unitBytesM_eq _)) fun _ => .bind (.of_sum _ _) fun _ => ?_
  refine .bind (.of_eq_pure (unitBytesM_eq _)) fun _ => ?_
  split
  · exact .of_pure _
  · exact .bind (.of_note _ _) fun _ => .of_throw _

omit h in
theorem readStoredSection (name : String) : Keeps P (readStoredSection fs name) := by
  unfold Container.readStoredSection
  refine .container_bind fun c _ => ?_
  split
  · split
    · refine .bind (.of_note _ _) fun _ => .bind (.of_sum _ _) fun _ => ?_
      refine .bind (.of_sum _ _) fun _ => .bind (.of_ofExcept _ _) fun bytes => ?_
      split
      · exact .of_ofExcept _ _
      · exact .of_pure bytes
    · exact .of_throw _
  · exact .of_throw _

theorem readSection (name : String) : Keeps P (readSection fs name) := by
  unfold Container.readSection
  refine .bind h.load fun _ => .bind (.attempt (h.readOverrideSection name)) fun outcome => ?_
  cases outcome with
  | ok bytes => exact .of_pure bytes
  | error e =>
    refine .optional (.of_throw e) (.container_bind fun c hc => ?_)
    have hstored : Keeps P (Container.readStoredSection fs name) := readStoredSection name
    split
    · cases hheader : c.header with
      | none => exact .bind (.of_note _ _) fun _ => hstored
      | some header =>
        dsimp only
        split
        · exact h.readLogo hc (by rw [hheader]; rfl) header.logo
        · exact .bind (.of_note _ _) fun _ => hstored
    · exact hstored

theorem locateOverrideRomfs : Keeps P (locateOverrideRomfs fs) := by
  unfold Container.locateOverrideRomfs
  refine .bind h.ensureHeader fun _ => .container_bind fun c _ => ?_
  split
  · split
    · exact .bind (.of_note _ _) fun _ => .of_pure _
    · exact .bind (.of_note _ _) fun _ => .of_throw _
  · exact .of_throw _

theorem locateEmbeddedRomfs : Keeps P (locateEmbeddedRomfs fs) := by
  unfold Container.locateEmbeddedRomfs
  refine .container_bind fun c hc => ?_
  split
  · rename_i hromfs
    refine .bind (.of_eq_pure (unitBytesM_eq _)) fun _ => .bind (.of_sum _ _) fun _ => ?_
    refine .bind (.of_eq_pure (unitBytesM_eq _)) fun _ => ?_
    exact .bind (.of_note _ _) fun _ => .bind (.of_note _ _) fun _ =>
      .bind (h.reopen c hc (.inr hromfs)) fun _ => .of_pure _
  · exact .bind (.of_note _ _) fun _ => .of_throw _

theorem locateRomfs : Keeps P (locateRomfs fs) := by
  unfold Container.locateRomfs
  refine .bind h.ensureHeader fun _ => .bind (.attempt h.locateOverrideRomfs) fun outcome => ?_
  cases outcome with
  | ok range => exact .of_pure range
  | error e => exact h.locateEmbeddedRomfs

theorem readProgramId : Keeps P (readProgramId fs) := by
  unfold Container.readProgramId
  refine .bind h.ensureHeader fun _ => .container_bind fun c _ => ?_
  split
  · exact .of_pure _
  · exact .of_pure _

/-- Every quiet operation keeps a steady property, but for the one that opens the file. -/
theorem perform (op : Operation) (hquiet : op.isQuiet)
    (hop : op = .openFile → Keeps P (openFile fs)) : Keeps P (op.perform fs) := by
  cases op with
  | openFile => exact .bind (.bind (hop rfl) fun _ => .of_pure _) fun _ => .of_pure _
  | load => exact .bind h.load fun _ => .of_pure _
  | findOverrides => cases hquiet
  | useNaming naming => cases hquiet
  | readSection name => exact .bind (h.readSection name) fun _ => .of_pure _
  | readOverrideSection name => exact .bind (h.readOverrideSection name) fun _ => .of_pure _
  | locateRomfs => exact .bind h.locateRomfs fun _ => .of_pure _
  | locateOverrideRomfs => exact .bind h.locateOverrideRomfs fun _ => .of_pure _
  | readProgramId => exact .bind h.readProgramId fun _ => .of_pure _

end Steady

/-- Every operation keeps a lasting property, but for the one that opens the file. -/
theorem Lasting.perform (h : Lasting fs P) (op : Operation)
    (hop : op = .openFile → Keeps P (openFile fs)) : Keeps P (op.perform fs) := by
  cases op with
  | findOverrides => exact .bind (keeps_findOverrides h.overrides) fun _ => .of_pure _
  | useNaming naming => exact .bind (.of_update fun c => h.naming c naming) fun _ => .of_pure _
  | _ => exact h.toSteady.perform _ rfl hop

/-! ## Histories -/

@[simp] theorem runAll_nil (s : Session) : s.runAll [] = s := rfl

@[simp] theorem runAll_cons (s : Session) (fs : FileSystem) (op : Operation)
    (rest : List (FileSystem × Operation)) :
    s.runAll ((fs, op) :: rest) = (s.run fs op).2.runAll rest := rfl

theorem runAll_append (s : Session) (before after : List (FileSystem × Operation)) :
    s.runAll (before ++ after) = (s.runAll before).runAll after :=
  List.foldl_append

/-- What every operation keeps, every history keeps. -/
theorem keeps_runAll (h : ∀ fs, Lasting fs P) (hopen : ∀ fs, Keeps P (openFile fs))
    (history : List (FileSystem × Operation)) {s : Session} (hs : P s.container) :
    P (s.runAll history).container := by
  induction history generalizing s with
  | nil => exact hs
  | cons step rest ih =>
    obtain ⟨fs, op⟩ := step
    exact ih ((h fs).perform op (fun _ => hopen fs) s hs)

/-- What holds after a history, and did not before, came to hold at one of its steps. -/
theorem exists_step (history : List (FileSystem × Operation)) {s : Session} (hs : ¬P s.container)
    (h : P (s.runAll history).container) :
    ∃ before fs op after, history = before ++ (fs, op) :: after ∧
      ¬P (s.runAll before).container ∧ P ((s.runAll before).run fs op).2.container := by
  induction history generalizing s with
  | nil => exact absurd h hs
  | cons step rest ih =>
    obtain ⟨fs, op⟩ := step
    by_cases hnext : P (s.run fs op).2.container
    · exact ⟨[], fs, op, rest, rfl, hs, hnext⟩
    · obtain ⟨before, now, next, after, hrest, hbefore, hafter⟩ := ih hnext h
      refine ⟨(fs, op) :: before, now, next, after, ?_, hbefore, hafter⟩
      rw [hrest, List.cons_append]

end Container
end Cartridge

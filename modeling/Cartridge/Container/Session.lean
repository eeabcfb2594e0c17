import Cartridge.Container.Basic

/-!
# Sessions

A session is a container in use and the log of what was done with it. A procedure may fail;
what it did to the container and wrote to the log up to then stays. Procedures are written over the
monad that they compute numbers in; a plain procedure computes them in `Id`.
-/
namespace Cartridge

structure Session where
  container : Container
  log : Log
  deriving DecidableEq

abbrev ProcedureOver (m : Type → Type) := ExceptT ContainerError (StateT Session m)

abbrev Procedure := ProcedureOver Id

namespace Procedure

variable {m : Type → Type} [Monad m] {α ε : Type}

def container : ProcedureOver m Container := return (← get).container

def update (f : Container → Container) : ProcedureOver m Unit :=
  modify fun s => { s with container := f s.container }

/-- Writes lines to the log. -/
def append (lines : Log) : ProcedureOver m Unit := modify fun s => { s with log := s.log ++ lines }

/-- Writes a line to the log. -/
def note (severity : Severity) (text : String) : ProcedureOver m Unit := append [⟨severity, text⟩]

/-- Runs a procedure for its outcome, which is then an answer in any case. -/
def attempt (a : ProcedureOver m α) : ProcedureOver m (Except ContainerError α) := fun s => do
  let (outcome, next) ← a s
  return (.ok outcome, next)

/-- An outcome as a procedure that does nothing else. -/
def ofExcept (wrap : ε → ContainerError) (outcome : Except ε α) : ProcedureOver m α :=
  match outcome with
  | .ok value => pure value
  | .error e => throw (wrap e)

end Procedure

/-- A plain procedure on a session: the outcome and the session after it. -/
def ProcedureOver.perform {α : Type} (a : ProcedureOver Id α) (s : Session) :
    Except ContainerError α × Session :=
  a.run.run s

end Cartridge

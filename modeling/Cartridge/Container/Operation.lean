import Cartridge.Container.Read

/-!
# Operations

All that can be done with a container, as one type. A history is a list of operations, each with
the file system that it meets: between two of them the files may change in any way.
-/
namespace Cartridge

inductive Operation where
  | openFile
  | load
  | findOverrides
  | useNaming (naming : Naming)
  | readSection (name : String)
  | readOverrideSection (name : String)
  | locateRomfs
  | locateOverrideRomfs
  | readProgramId
  deriving DecidableEq, Repr

/-- What an operation answers if it succeeds. -/
inductive Answer where
  | done
  | bytes (bytes : Bytes)
  | range (range : FileRange)
  | programId (id : UInt64)
  deriving DecidableEq, Repr

namespace Operation

def perform {m : Type → Type} [Monad m] [Arithmetic m] (fs : FileSystem) :
    Operation → ProcedureOver m Answer
  | .openFile => do
    discard (Container.openFile fs)
    return .done
  | .load => do
    Container.load fs
    return .done
  | .findOverrides => do
    Container.findOverrides fs
    return .done
  | .useNaming naming => do
    Procedure.update fun c => c.withNaming naming
    return .done
  | .readSection name => return .bytes (← Container.readSection fs name)
  | .readOverrideSection name => return .bytes (← Container.readOverrideSection fs name)
  | .locateRomfs => return .range (← Container.locateRomfs fs)
  | .locateOverrideRomfs => return .range (← Container.locateOverrideRomfs fs)
  | .readProgramId => return .programId (← Container.readProgramId fs)

end Operation

namespace Session

/-- The outcome of one operation, and the session after it. -/
def run (s : Session) (fs : FileSystem) (op : Operation) :
    Except ContainerError Answer × Session :=
  (op.perform fs).perform s

/-- The same where a number that does not fit into 64 bits ends the program. -/
def run? (s : Session) (fs : FileSystem) (op : Operation) :
    Option (Except ContainerError Answer × Session) :=
  (op.perform fs).run.run s

/-- The session after a history. -/
def runAll (s : Session) (history : List (FileSystem × Operation)) : Session :=
  history.foldl (fun s (fs, op) => (s.run fs op).2) s

/-- The outcomes of a history, in order. -/
def outcomes (s : Session) : List (FileSystem × Operation) → List (Except ContainerError Answer)
  | [] => []
  | (fs, op) :: rest => (s.run fs op).1 :: (s.run fs op).2.outcomes rest

end Session

end Cartridge

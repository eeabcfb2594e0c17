/-!
# Logs

What a program tells about its work besides its answers: lines with a severity, in the
order in which they were written.
-/
namespace Cartridge

inductive Severity where
  | error
  | warning
  | info
  | debug
  deriving DecidableEq, Repr

structure LogLine where
  severity : Severity
  text : String
  deriving DecidableEq, Repr

abbrev Log := List LogLine

end Cartridge

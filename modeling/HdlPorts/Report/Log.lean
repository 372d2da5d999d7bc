import HdlPorts.Report.Diagnostic

/-! The log that diagnostics are recorded in.

Draining the log empties it and leaves the number of errors as it is: the number counts every error
ever recorded.
-/

set_option autoImplicit false

namespace HdlPorts

/-- Recorded diagnostics, oldest first, and the number of errors recorded so far. -/
structure Log where
  entries : List Diagnostic := []
  errors : Nat := 0
  deriving DecidableEq

namespace Log

def empty : Log := {}

def record (log : Log) (diagnostic : Diagnostic) : Log where
  entries := log.entries ++ [diagnostic]
  errors := if diagnostic.isError then log.errors + 1 else log.errors

def drain (log : Log) : List Diagnostic × Log := (log.entries, { log with entries := [] })

def hasErrors (log : Log) : Bool := 0 < log.errors

end Log

end HdlPorts

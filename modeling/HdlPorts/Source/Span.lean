import HdlPorts.Fault

/-! Places in source texts.

A span is a range of bytes in one file. Declarations made without a source carry the dummy span,
whose file number belongs to no file.
-/

set_option autoImplicit false

namespace HdlPorts

/-- The bytes of a file from `start` up to, not including, `stop`. -/
structure Span where
  file : UInt32
  start : UInt32
  stop : UInt32
  deriving DecidableEq

namespace Span

/-- The file number of a declaration that has no source. -/
def noFile : UInt32 := 4294967295

def dummy : Span := ⟨noFile, 0, 0⟩

def isDummy (span : Span) : Bool := span.file == noFile

def isEmpty (span : Span) : Bool := span.start == span.stop

def length (span : Span) : Nat := span.stop.toNat - span.start.toNat

/-- The smallest span over both; a dummy adds nothing. Both have to be in one file. -/
def cover (a b : Span) : Checked Span :=
  if a.isDummy then .ok b
  else if b.isDummy then .ok a
  else if a.file = b.file then .ok ⟨a.file, min a.start b.start, max a.stop b.stop⟩
  else .error .separateFiles

end Span

end HdlPorts

import LaneDot.Backend
import LaneDot.Dispatch

/-!
# Bulk conversion

Codes are converted to singles in place: one index runs over the codes and the
output buffer, eight elements at a time, then at most four at once, then one by
one.  Every load and every store is checked against its buffer, so a conversion
that leaves a buffer has no result.
-/

namespace LaneDot

/-- Why a checked conversion is refused: the input and the output differ in length. -/
structure LengthMismatch where
  source : Nat
  target : Nat
  deriving DecidableEq

def LengthMismatch.message (mismatch : LengthMismatch) : String :=
  let source := mismatch.source
  let target := mismatch.target
  s!"conversion length mismatch: src {source} != dst {target}"

/-- A buffer with some elements from an index on replaced, if the buffer holds them all. -/
def overwrite? {α : Type} (buffer : Array α) (start : Nat) (values : Array α) : Option (Array α) :=
  if start + values.size ≤ buffer.size then
    some (buffer.extract 0 start ++ values ++ buffer.extract (start + values.size) buffer.size)
  else none

/-- A computation that changes an output buffer; it has no result when it leaves a buffer. -/
abbrev FillM := StateT (Array Single) Option

def targetLength : FillM Nat := fun target => some (target.size, target)

def loadCodes (source : Array Code) (start width : Nat) : FillM (Vector Code width) := fun target =>
  if inside : start + width ≤ source.size then
    some (Vector.ofFn fun lane : Fin width => source[start + lane.val], target)
  else none

def storeSingles {width : Nat} (start : Nat) (values : Lanes width) : FillM Unit := fun target =>
  (overwrite? target start values.toArray).map fun stored => ((), stored)

def convertChunk {width : Nat} (source : Array Code) (decode : Vector Code width → Lanes width)
    (index : Nat) : FillM Unit := do
  let codes ← loadCodes source index width
  storeSingles index (decode codes)

def convertLoneChunk {width : Nat} (source : Array Code) (decode : Vector Code width → Lanes width)
    (count index : Nat) : FillM Nat := do
  if index + width ≤ count then
    convertChunk source decode index
    pure (index + width)
  else pure index

/-- Convert chunks of one width while they end by a count, and give the index reached. -/
def convertChunks {extra : Nat} (source : Array Code)
    (decode : Vector Code (extra + 1) → Lanes (extra + 1)) (count index : Nat) : FillM Nat := do
  if index + (extra + 1) ≤ count then
    convertChunk source decode index
    convertChunks source decode count (index + (extra + 1))
  else pure index
termination_by count - index

namespace Backend

def convert (backend : Backend) (source : Array Code) (count : Nat) : FillM Unit := do
  let index ← convertChunks source backend.decodeWide count 0
  let index ← convertLoneChunk source backend.decodeNarrow count index
  let _ ← convertChunks source (Vector.map Code.decode : Vector Code 1 → Lanes 1) count index

end Backend

def checkedConvert (source : Array Code) : DispatchT FillM (Except LengthMismatch Unit) := do
  let length ← targetLength
  if source.size = length then
    let level ← askLevel
    level.backend.convert source source.size
    pure (.ok ())
  else pure (.error ⟨source.size, length⟩)

end LaneDot

import LaneDot.Backend

/-!
# Buffers and accesses

A kernel reads singles from `x` by index, reads codes from `y` by byte address
and writes sums by index.  Every access is checked against its buffer and
recorded, so a run that leaves a buffer has no result, and a run that has one
carries the list of all its accesses.
-/

namespace LaneDot

/-- A byte address; arithmetic on addresses wraps. -/
abbrev Address := UInt64

def codeBytes (count : Nat) : Address := .ofNat (2 * count)

/-- Codes in consecutive bytes from an origin on. -/
structure CodeBuffer where
  codes : Array Code
  origin : Address

namespace CodeBuffer

def address (buffer : CodeBuffer) (index : Nat) : Address :=
  buffer.origin + codeBytes index

/-- The index of the code at an address, counted from the origin around the address space. -/
def index (buffer : CodeBuffer) (address : Address) : Nat :=
  (address - buffer.origin).toNat / 2

end CodeBuffer

/-- One access of a kernel; a read covers `width` elements from `start` on. -/
inductive Access where
  | readX (start width : Nat)
  | readRow (row start width : Nat)
  | writeSum (index : Nat)
  deriving DecidableEq

/-- What a kernel changes: the output buffer, and the record of accesses, the latest first. -/
structure Memory where
  sum : Array Single
  accesses : List Access

namespace Memory

def ofSum (sum : Array Single) : Memory := ⟨sum, []⟩

def record (memory : Memory) (access : Access) : Memory :=
  { memory with accesses := access :: memory.accesses }

end Memory

/-- A computation that accesses buffers; it has no result when an access leaves its buffer. -/
abbrev AccessM := StateT Memory Option

def sumLength : AccessM Nat := fun memory => some (memory.sum.size, memory)

def readX (x : Array Single) (start width : Nat) : AccessM (Lanes width) := fun memory =>
  if inside : start + width ≤ x.size then
    let lanes := Vector.ofFn fun lane : Fin width => x[start + lane.val]
    some (lanes, memory.record (.readX start width))
  else none

def readRow (y : CodeBuffer) (row : Nat) (cursor : Address) (width : Nat) :
    AccessM (Vector Code width) := fun memory =>
  let start := y.index cursor
  if inside : start + width ≤ y.codes.size then
    let codes := Vector.ofFn fun lane : Fin width => y.codes[start + lane.val]
    some (codes, memory.record (.readRow row start width))
  else none

def writeSum (index : Nat) (value : Single) : AccessM Unit := fun memory =>
  if inside : index < memory.sum.size then
    let sum := memory.sum.set index value
    some ((), { memory with sum }.record (.writeSum index))
  else none

/-- A read of singles inside the buffer has a result and is recorded. -/
theorem readX_of_le {x : Array Single} {start width : Nat} (inside : start + width ≤ x.size)
    (memory : Memory) :
    readX x start width memory =
      some (Vector.ofFn fun lane : Fin width => x[start + lane.val],
        memory.record (.readX start width)) :=
  dif_pos inside

theorem readRow_of_le {y : CodeBuffer} {cursor : Address} {width : Nat}
    (inside : y.index cursor + width ≤ y.codes.size) (row : Nat) (memory : Memory) :
    readRow y row cursor width memory =
      some (Vector.ofFn fun lane : Fin width => y.codes[y.index cursor + lane.val],
        memory.record (.readRow row (y.index cursor) width)) :=
  dif_pos inside

theorem writeSum_of_lt {index : Nat} {memory : Memory} (inside : index < memory.sum.size)
    (value : Single) :
    writeSum index value memory =
      some ((), { memory with sum := memory.sum.set index value }.record (.writeSum index)) :=
  dif_pos inside

end LaneDot

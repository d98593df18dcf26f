import LaneDot.Extents
import Mathlib

/-!
# Where rows lie

A cursor that moves inside a buffer keeps its index and its address in step,
since the bytes of a buffer fit the address space.  Row `row` of a task
therefore begins `2 * stride * row` codes after the first row whenever that
code is in the buffer, although addresses wrap and the stride is doubled with
wrapping.
-/

namespace LaneDot

/-! ## Cursors -/

theorem codeBytes_zero : codeBytes 0 = 0 := rfl

theorem codeBytes_add (first second : Nat) :
    codeBytes first + codeBytes second = codeBytes (first + second) := by
  rw [codeBytes, codeBytes, codeBytes, ← UInt64.ofNat_add, Nat.mul_add]

theorem addressSpace_eq : addressSpace = 2 ^ 64 := rfl

/-- A cursor inside a buffer moves by as many indices as it passes codes. -/
theorem CodeBuffer.index_add_codeBytes {buffer : CodeBuffer}
    (addressable : 2 * buffer.codes.size ≤ addressSpace) (cursor : Address) {count : Nat}
    (inside : buffer.index cursor + count < buffer.codes.size) :
    buffer.index (cursor + codeBytes count) = buffer.index cursor + count := by
  have moved : cursor + codeBytes count - buffer.origin =
      cursor - buffer.origin + codeBytes count := by
    rw [UInt64.sub_eq_add_neg, UInt64.sub_eq_add_neg, UInt64.add_assoc, UInt64.add_assoc,
      UInt64.add_comm (codeBytes count)]
  have bytes : (codeBytes count).toNat = 2 * count % 2 ^ 64 := UInt64.toNat_ofNat'
  rw [addressSpace_eq] at addressable
  unfold index at inside ⊢
  rw [moved, UInt64.toNat_add, bytes]
  omega

/-! ## Rows of a task -/

namespace Task

def cursor (task : Task) (start : Address) (row offset : Nat) : Address :=
  start + .ofNat row * task.rowBytes + codeBytes offset

def rowStart (task : Task) (start : Address) (row : Nat) : Nat :=
  task.y.index (start + .ofNat row * task.rowBytes)

def codeAt (task : Task) (start : Address) (row offset : Nat) : Code :=
  task.y.codes[task.rowStart start row + offset]!

def single (task : Task) (index : Nat) : Single :=
  task.x[index]!

theorem cursor_zero (task : Task) (start : Address) (row : Nat) :
    task.cursor start row 0 = start + .ofNat row * task.rowBytes := by
  rw [cursor, codeBytes_zero, UInt64.add_zero]

theorem cursor_add (task : Task) (start : Address) (row offset count : Nat) :
    task.cursor start row offset + codeBytes count = task.cursor start row (offset + count) := by
  rw [cursor, cursor, UInt64.add_assoc, codeBytes_add]

/--
The stream and all windows of some rows lie inside their buffers.  A buffer of
codes fits the address space, and an empty task reads no window.
-/
structure Readable (task : Task) (fusion : Nat) (start : Address) : Prop where
  addressable : 2 * task.y.codes.size ≤ addressSpace
  stream : task.length ≤ task.x.size
  windows : ∀ row < fusion, ∀ offset < task.length,
    task.rowStart start row + offset < task.y.codes.size

namespace Readable

variable {task : Task} {fusion : Nat} {start : Address}

theorem index_cursor (readable : task.Readable fusion start) {row offset : Nat}
    (isRow : row < fusion) (inside : offset < task.length) :
    task.y.index (task.cursor start row offset) = task.rowStart start row + offset :=
  CodeBuffer.index_add_codeBytes readable.addressable _ (readable.windows row isRow offset inside)

end Readable

theorem toNat_rowBytes (task : Task) : task.rowBytes.toNat = 4 * task.stride.toNat % 2 ^ 64 := by
  have bound := task.stride.toNat_lt
  have two : (2 : UInt64).toNat = 2 := rfl
  rw [rowBytes, UInt64.toNat_mul, UInt64.toNat_add, two]
  omega

/-- A row whose first code is in the buffer starts twice the stride after the row before it. -/
theorem rowStart_address {task : Task} (addressable : 2 * task.y.codes.size ≤ addressSpace)
    {base row : Nat} (inside : base + 2 * task.stride.toNat * row < task.y.codes.size) :
    task.rowStart (task.y.address base) row = base + 2 * task.stride.toNat * row := by
  have moved : task.y.address base + .ofNat row * task.rowBytes - task.y.origin =
      codeBytes base + .ofNat row * task.rowBytes := by
    rw [CodeBuffer.address, UInt64.add_assoc, UInt64.add_comm, UInt64.add_sub_cancel]
  have first : (codeBytes base).toNat = 2 * base % 2 ^ 64 := UInt64.toNat_ofNat'
  have later : (UInt64.ofNat row * task.rowBytes).toNat =
      2 * (2 * task.stride.toNat * row) % 2 ^ 64 := by
    have regrouped : row * (4 * task.stride.toNat) = 2 * (2 * task.stride.toNat * row) := by ring
    rw [UInt64.toNat_mul, UInt64.toNat_ofNat', toNat_rowBytes, ← Nat.mul_mod, regrouped]
  rw [addressSpace_eq] at addressable
  rw [rowStart, CodeBuffer.index, moved, UInt64.toNat_add, first, later]
  omega

/-- The buffers cover a task: its stream, the windows of its rows, and its sums. -/
structure Covers (task : Task) (fusion : Nat) (start : Address) (sums : Nat) : Prop
    extends task.Readable fusion start where
  output : fusion ≤ sums

instance (task : Task) (fusion : Nat) (start : Address) (sums : Nat) :
    Decidable (task.Covers fusion start sums) :=
  decidable_of_iff (2 * task.y.codes.size ≤ addressSpace ∧ task.length ≤ task.x.size ∧
      (∀ row < fusion, ∀ offset < task.length,
        task.rowStart start row + offset < task.y.codes.size) ∧ fusion ≤ sums)
    ⟨fun ⟨addressable, stream, windows, output⟩ => ⟨⟨addressable, stream, windows⟩, output⟩,
      fun covers => ⟨covers.addressable, covers.stream, covers.windows, covers.output⟩⟩

end Task

end LaneDot

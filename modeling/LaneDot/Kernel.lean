import LaneDot.Code.Formula
import LaneDot.Memory

/-!
# Dot product kernels

A kernel multiplies one stream of singles with several rows of codes.  It moves
over the stream in steps of a fixed width.  A step reads its part of `x` once
and then, row by row, reads the codes under the row's cursor, combines them
into the row's accumulator and moves the cursor on.

The fused kernel takes steps of eight and then single steps, with eight lanes
an accumulator, and adds the lanes up at the end.  The sequential kernel takes
single steps, rounds each product and adds it to one running sum.
-/

namespace LaneDot

/-- The buffers of a dot product, half the distance between rows in codes, and the length. -/
structure Task where
  x : Array Single
  y : CodeBuffer
  stride : UInt64
  length : Nat

/-- The distance between the starts of two rows in bytes: the stride is doubled to count codes. -/
def Task.rowBytes (task : Task) : Address :=
  2 * (task.stride + task.stride)

/-- A row in progress: its number, the address of its next code and its accumulator. -/
structure Row (Acc : Type) where
  index : Nat
  cursor : Address
  acc : Acc

namespace Row

def chain {Acc : Type} (start : Acc) (rowBytes : Address) :
    Nat → Nat → Address → List (Row Acc)
  | 0, _, _ => []
  | count + 1, index, cursor =>
      ⟨index, cursor, start⟩ :: chain start rowBytes count (index + 1) (cursor + rowBytes)

theorem length_chain {Acc : Type} (start : Acc) (rowBytes : Address) (count index : Nat)
    (cursor : Address) : (chain start rowBytes count index cursor).length = count := by
  induction count generalizing index cursor with
  | zero => rfl
  | succ count ih => rw [chain, List.length_cons, ih]

/-- The row at a place of a chain starts that many steps after the first row. -/
theorem getElem?_chain {Acc : Type} (start : Acc) (rowBytes : Address)
    (count index : Nat) (cursor : Address) (place : Nat) (inside : place < count) :
    (chain start rowBytes count index cursor)[place]? =
      some ⟨index + place, cursor + .ofNat place * rowBytes, start⟩ := by
  induction count generalizing index cursor place with
  | zero => exact absurd inside (Nat.not_lt_zero place)
  | succ count ih =>
      cases place with
      | zero => simp [chain]
      | succ place =>
          have next := ih (index + 1) (cursor + rowBytes) place (Nat.lt_of_succ_lt_succ inside)
          rw [chain, List.getElem?_cons_succ, next]
          congr 2
          · omega
          · rw [UInt64.add_assoc]
            congr 1
            simp [UInt64.ofNat_add, UInt64.add_mul, UInt64.add_comm]

def advance {Acc : Type} {width : Nat} (y : CodeBuffer)
    (combine : Vector Code width → Acc → Acc) (row : Row Acc) : AccessM (Row Acc) := do
  let codes ← readRow y row.index row.cursor width
  pure ⟨row.index, row.cursor + codeBytes width, combine codes row.acc⟩

def finish {Acc : Type} (total : Acc → Single) (row : Row Acc) : AccessM Unit :=
  writeSum row.index (total row.acc)

end Row

/-- Take a number of steps over the stream from an index on, all rows in each step. -/
def sweep {Acc : Type} (task : Task) (width : Nat)
    (combine : Lanes width → Vector Code width → Acc → Acc) :
    Nat → Nat → List (Row Acc) → AccessM (List (Row Acc))
  | 0, _, rows => pure rows
  | steps + 1, start, rows => do
      let xs ← readX task.x start width
      let rows ← rows.mapM (Row.advance task.y (combine xs))
      sweep task width combine steps (start + width) rows

def laneCount : Nat := 8

namespace Backend

def combineWide (backend : Backend) (xs : Lanes 8) (codes : Vector Code 8) (acc : Lanes 8) :
    Lanes 8 :=
  xs.mulAdd (backend.decodeWide codes) acc

def combineOne (backend : Backend) (xs : Lanes 1) (codes : Vector Code 1) (acc : Lanes 8) :
    Lanes 8 :=
  backend.addProduct (Layout.only xs) (Layout.only codes) acc

/-- The fused kernel on `fusion` rows, the first of which starts at an address. -/
def fused (backend : Backend) (fusion : Nat) (task : Task) (start : Address) : AccessM Unit := do
  let rows := Row.chain Lanes.zero task.rowBytes fusion 0 start
  let steps := task.length / laneCount
  let rows ← sweep task 8 backend.combineWide steps 0 rows
  let rows ← sweep task 1 backend.combineOne (task.length % laneCount) (laneCount * steps) rows
  rows.forM (Row.finish backend.total)

end Backend

def combineRounded (xs : Lanes 1) (codes : Vector Code 1) (acc : Single) : Single :=
  acc.add ((Layout.only xs).mul (Layout.only codes).formula)

def sequential (fusion : Nat) (task : Task) (start : Address) : AccessM Unit := do
  let rows := Row.chain Single.zero task.rowBytes fusion 0 start
  let rows ← sweep task 1 combineRounded task.length 0 rows
  rows.forM (Row.finish id)

end LaneDot

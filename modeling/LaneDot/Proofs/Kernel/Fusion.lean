import LaneDot.Proofs.Kernel.RowSum

/-!
# Fusing rows changes nothing

A kernel reads the stream once for all its rows, and yet the sum of a row is
the one that the row gets alone: it depends on the stream and on the codes of
that row.  So a row may be computed by itself, at any stride, from the address
where it begins, and fewer rows get the same sums as the first of more rows.
-/

namespace LaneDot

/-! ## A row by itself -/

namespace Task

variable {task : Task} {fusion base row : Nat} {sums : Nat}

/-- The bytes between two rows are those of twice the stride in codes, also where both wrap. -/
theorem address_add_rowBytes (task : Task) (base row : Nat) :
    task.y.address base + .ofNat row * task.rowBytes =
      task.y.address (base + 2 * task.stride.toNat * row) := by
  have regrouped : 2 * (2 * task.stride.toNat * row) =
      row * (2 * (task.stride.toNat + task.stride.toNat)) := by ring
  have bytes : codeBytes (2 * task.stride.toNat * row) = .ofNat row * task.rowBytes := by
    rw [codeBytes, regrouped, UInt64.ofNat_mul, UInt64.ofNat_mul, UInt64.ofNat_add,
      UInt64.ofNat_toNat]
    rfl
  rw [CodeBuffer.address, CodeBuffer.address, ← codeBytes_add, bytes, UInt64.add_assoc]

def withStride (task : Task) (stride : UInt64) : Task :=
  { task with stride }

/-- The first row from where a row begins begins there, at any stride. -/
theorem rowStart_withStride (task : Task) (stride : UInt64) (base row : Nat) :
    (task.withStride stride).rowStart (task.y.address (base + 2 * task.stride.toNat * row)) 0 =
      task.rowStart (task.y.address base) row := by
  have first : UInt64.ofNat 0 * (task.withStride stride).rowBytes = 0 := UInt64.zero_mul
  rw [rowStart, rowStart, task.address_add_rowBytes, first, UInt64.add_zero]
  rfl

theorem codeAt_withStride (task : Task) (stride : UInt64) (base row : Nat) :
    (task.withStride stride).codeAt (task.y.address (base + 2 * task.stride.toNat * row)) 0 =
      task.codeAt (task.y.address base) row := by
  funext offset
  rw [codeAt, codeAt, rowStart_withStride]
  rfl

namespace Covers

/-- Buffers that cover some rows cover each of them by itself. -/
theorem withStride (covers : task.Covers fusion (task.y.address base) sums)
    (isRow : row < fusion) (stride : UInt64) {room : Nat} (output : 0 < room) :
    (task.withStride stride).Covers 1 (task.y.address (base + 2 * task.stride.toNat * row)) room where
  addressable := covers.addressable
  stream := covers.stream
  windows first isFirst offset inside := by
    obtain rfl := Nat.lt_one_iff.mp isFirst
    rw [rowStart_withStride]
    exact covers.windows row isRow offset inside
  output := output

theorem fewer {start : Address} (covers : task.Covers fusion start sums) {count room : Nat}
    (rows : count ≤ fusion) (output : count ≤ room) : task.Covers count start room where
  addressable := covers.addressable
  stream := covers.stream
  windows row isRow := covers.windows row (isRow.trans_le rows)
  output := output

end Covers

end Task

/-! ## Runs on more and on fewer rows -/

/-- A kernel that leaves in each sum a value of the stream and of the codes of that row. -/
def SumsRows (kernel : Nat → Task → Address → AccessM Unit)
    (value : (Nat → Single) → (Nat → Code) → Nat → Single) : Prop :=
  ∀ {fusion : Nat} {task : Task} {start : Address} {sum : Array Single},
    task.Covers fusion start sum.size →
      ∃ sums, sumsAfter (kernel fusion task start) sum = some sums ∧ sums.size = sum.size ∧
        ∀ row < fusion, sums[row]? = some (value task.single (task.codeAt start row) task.length)

theorem Backend.fused_sumsRows (backend : Backend) : SumsRows backend.fused backend.rowSum :=
  fun covers => covers.exists_fused_sums backend

theorem sequential_sumsRows : SumsRows sequential sequentialSum :=
  fun covers => covers.exists_sequential_sums

/-- The sums of a kernel for some rows are those of its runs on one row and on fewer rows. -/
structure SumsUnfused (kernel : Nat → Task → Address → AccessM Unit) (fusion : Nat) (task : Task)
    (base : Nat) (sums : Array Single) : Prop where
  alone : ∀ row < fusion, ∀ (stride : UInt64) (old : Array Single), 0 < old.size →
    ∃ single bits,
      sumsAfter (kernel 1 (task.withStride stride)
        (task.y.address (base + 2 * task.stride.toNat * row))) old = some single ∧
      single[0]? = some bits ∧ sums[row]? = some bits
  fewer : ∀ count ≤ fusion, ∀ old : Array Single, count ≤ old.size →
    ∃ first, sumsAfter (kernel count task (task.y.address base)) old = some first ∧
      ∀ row < count, ∃ bits, first[row]? = some bits ∧ sums[row]? = some bits

/-- A kernel whose sums are values of single rows does not fuse them. -/
theorem SumsRows.exists_sumsUnfused {kernel : Nat → Task → Address → AccessM Unit}
    {value : (Nat → Single) → (Nat → Code) → Nat → Single} (rows : SumsRows kernel value)
    {task : Task} {fusion base : Nat} {sum : Array Single}
    (covers : task.Covers fusion (task.y.address base) sum.size) :
    ∃ sums, sumsAfter (kernel fusion task (task.y.address base)) sum = some sums ∧
      SumsUnfused kernel fusion task base sums := by
  obtain ⟨sums, ran, -, atRow⟩ := rows covers
  refine ⟨sums, ran, ?_, ?_⟩
  · intro row isRow stride old room
    obtain ⟨single, ranAlone, -, atFirst⟩ := rows (covers.withStride isRow stride room)
    have value := atFirst 0 Nat.one_pos
    rw [Task.codeAt_withStride] at value
    exact ⟨single, _, ranAlone, value, atRow row isRow⟩
  · intro count fewer old room
    obtain ⟨first, ranFirst, -, atFirst⟩ := rows (covers.fewer fewer room)
    exact ⟨first, ranFirst, fun row isRow =>
      ⟨_, atFirst row isRow, atRow row (isRow.trans_le fewer)⟩⟩

/--
Fusing rows changes nothing.  On covered buffers the fused kernel of every
level and the sequential kernel have a result, whose sum for a row is the one
that the kernel leaves for that row alone, started where the row begins and at
any stride; and the sums of fewer rows are the first sums of more rows.
-/
theorem Task.Covers.sums_unfused {task : Task} {fusion base : Nat} {sum : Array Single}
    (covers : task.Covers fusion (task.y.address base) sum.size) :
    (∀ level : Level, ∃ sums,
      sumsAfter (level.backend.fused fusion task (task.y.address base)) sum = some sums ∧
      SumsUnfused level.backend.fused fusion task base sums) ∧
    ∃ sums, sumsAfter (sequential fusion task (task.y.address base)) sum = some sums ∧
      SumsUnfused sequential fusion task base sums :=
  ⟨fun level => SumsRows.exists_sumsUnfused level.backend.fused_sumsRows covers,
    SumsRows.exists_sumsUnfused sequential_sumsRows covers⟩

/-- The second row of ones overlaps the first one, and alone it begins six codes later. -/
theorem Task.Covers.sums_unfused_unitProducts :
    unitProducts.Covers 2 (unitProducts.y.address 0) (#[.half, .half] : Array Single).size ∧
    ∃ sums single bits,
      sumsAfter (Backend.avx2.fused 2 unitProducts (unitProducts.y.address 0)) #[.half, .half] =
        some sums ∧
      sumsAfter (Backend.avx2.fused 1 (unitProducts.withStride 0) (unitProducts.y.address 6))
        #[.one] = some single ∧
      single[0]? = some bits ∧ sums[1]? = some bits := by
  have covers : unitProducts.Covers 2 (unitProducts.y.address 0)
      (#[.half, .half] : Array Single).size := by decide
  obtain ⟨sums, ran, unfused⟩ := (Task.Covers.sums_unfused covers).1 .avx2
  obtain ⟨single, bits, ranAlone, first, second⟩ := unfused.alone 1 (by decide) 0 #[.one] (by decide)
  exact ⟨covers, sums, single, bits, ran, ranAlone, first, second⟩

end LaneDot

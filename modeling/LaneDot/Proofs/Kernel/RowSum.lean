import LaneDot.Proofs.Code.Formula
import LaneDot.Proofs.Kernel.LaneSum

/-!
# The sums of rows

A kernel on covered buffers leaves, for each of its rows, a sum that depends on
the stream and on the codes of that row only.  For the portable backend this is
the tree over the lane sums.
-/

namespace LaneDot

def sumsAfter (kernel : AccessM Unit) (sum : Array Single) : Option (Array Single) :=
  (kernel (.ofSum sum)).map fun result => result.2.sum

theorem sumsAfter_of_apply {kernel : AccessM Unit} {sum : Array Single} {count : Nat}
    {value : Nat → Single} {accesses : List Access}
    (ran : kernel (.ofSum sum) =
      some ((), ((Memory.ofSum sum).withSums count value).recordAll accesses)) :
    sumsAfter kernel sum = some (writeSums sum count value) := by
  rw [sumsAfter, ran]
  rfl

def Backend.rowSum (backend : Backend) (x : Nat → Single) (codes : Nat → Code) (length : Nat) :
    Single :=
  backend.total (backend.lanes x codes length)

/-- The formula is exact, so the sequential kernel multiplies by the value of a code. -/
theorem combineRounded_eq (xs : Lanes 1) (codes : Vector Code 1) (acc : Single) :
    combineRounded xs codes acc = acc.add ((Layout.only xs).mul (Layout.only codes).value) := by
  rw [combineRounded, Code.formula_eq_value]

def sequentialSum (x : Nat → Single) (codes : Nat → Code) (length : Nat) : Single :=
  foldWindows combineRounded x codes length 0 .zero

section

variable {x x' : Nat → Single} {codes codes' : Nat → Code} {length : Nat}

/-- The sum of a row depends on the stream and on the codes inside the row only. -/
theorem Backend.rowSum_congr (backend : Backend) (stream : ∀ index < length, x index = x' index)
    (row : ∀ index < length, codes index = codes' index) :
    backend.rowSum x codes length = backend.rowSum x' codes' length := by
  have bulk := bulk_le length
  have rest := bulk_add_rest length
  have wide : foldWindows backend.combineWide x codes (length / laneCount) 0 Lanes.zero =
      foldWindows backend.combineWide x' codes' (length / laneCount) 0 Lanes.zero :=
    foldWindows_congr (fun index below => stream index (by omega))
      (fun index below => row index (by omega)) _
  rw [rowSum, rowSum, lanes, lanes, wide]
  exact congrArg backend.total (foldWindows_congr (fun index below => stream index (by omega))
    (fun index below => row index (by omega)) _)

end

namespace Task.Covers

variable {task : Task} {fusion : Nat} {start : Address} {sum : Array Single}

/-- The fused kernel has a result on covered buffers and leaves the row sums in it. -/
theorem exists_fused_sums (covers : task.Covers fusion start sum.size) (backend : Backend) :
    ∃ sums, sumsAfter (backend.fused fusion task start) sum = some sums ∧ sums.size = sum.size ∧
      ∀ row < fusion,
        sums[row]? = some (backend.rowSum task.single (task.codeAt start row) task.length) :=
  ⟨_, sumsAfter_of_apply (covers.fused_apply backend covers.output), size_writeSums _ _ _,
    fun _ isRow => getElem?_writeSums _ isRow covers.output⟩

theorem exists_sequential_sums (covers : task.Covers fusion start sum.size) :
    ∃ sums, sumsAfter (sequential fusion task start) sum = some sums ∧ sums.size = sum.size ∧
      ∀ row < fusion,
        sums[row]? = some (sequentialSum task.single (task.codeAt start row) task.length) :=
  ⟨_, sumsAfter_of_apply (covers.sequential_apply covers.output), size_writeSums _ _ _,
    fun _ isRow => getElem?_writeSums _ isRow covers.output⟩

theorem exists_accumulators (covers : task.Covers fusion start sum.size) (backend : Backend) :
    ∃ rows after, backend.accumulate fusion task start (.ofSum sum) = some (rows, after) ∧
      ∀ row < fusion, rows[row]?.map Row.acc =
        some (backend.lanes task.single (task.codeAt start row) task.length) := by
  refine ⟨_, _, covers.accumulate_apply backend _, ?_⟩
  intro row isRow
  rw [rowsAt, List.getElem?_map, List.getElem?_range isRow, Option.map_some, Option.map_some]

end Task.Covers

/-! ## The portable sum -/

theorem Backend.portable_rowSum (x : Nat → Single) (codes : Nat → Code) (length : Nat) :
    portable.rowSum x codes length =
      laneTree fun lane => laneSum x (fun index => (codes index).value) length lane := by
  rw [rowSum, portable_total]
  exact congrArg laneTree (funext (portable_get_lanes x codes length))

theorem laneTree_zero : laneTree (fun _ => .zero) = .zero := by
  have double : Single.zero.add .zero = .zero := Single.zero_add .zero
  simp only [laneTree, double]

theorem Backend.portable_rowSum_zero (x : Nat → Single) (codes : Nat → Code) :
    portable.rowSum x codes 0 = .zero := by
  have empty (lane : Fin 8) : laneSum x (fun index => (codes index).value) 0 lane = .zero := by
    rw [laneSum, laneIndices, bulkIndices_eq 0 lane.isLt]
    split <;> rfl
  rw [portable_rowSum, ← laneTree_zero]
  exact congrArg laneTree (funext empty)

/--
The portable fused kernel computes the documented sum: on covered buffers it
has a result, and every row holds the tree over the eight lane sums of the
stream and the exact values of the row's codes.  The rows lie twice the stride
apart, and empty rows hold positive zero.
-/
theorem Task.Covers.portable_sums {task : Task} {fusion : Nat} {start : Address}
    {sum : Array Single} (covers : task.Covers fusion start sum.size) :
    ∃ sums, sumsAfter (Backend.portable.fused fusion task start) sum = some sums ∧
      sums.size = sum.size ∧
      ∀ row < fusion,
        (∀ base, start = task.y.address base →
          base + 2 * task.stride.toNat * row < task.y.codes.size →
          task.rowStart start row = base + 2 * task.stride.toNat * row) ∧
        (∀ index, Exact.ofSingle (task.codeAt start row index).value =
          (task.codeAt start row index).exact) ∧
        sums[row]? = some (laneTree fun lane =>
          laneSum task.single (fun index => (task.codeAt start row index).value) task.length lane) ∧
        (task.length = 0 → sums[row]? = some .zero) := by
  obtain ⟨sums, ran, size, rows⟩ := covers.exists_fused_sums Backend.portable
  refine ⟨sums, ran, size, ?_⟩
  intro row isRow
  refine ⟨?_, fun index => (task.codeAt start row index).ofSingle_value, ?_, ?_⟩
  · rintro base rfl inside
    exact rowStart_address covers.addressable inside
  · rw [rows row isRow, Backend.portable_rowSum]
  · intro empty
    rw [rows row isRow, empty, Backend.portable_rowSum_zero]

/-- Nine products of ones a row, in two rows that overlap: a full step of eight and a tail. -/
def unitProducts : Task where
  x := Array.replicate 9 .one
  y := ⟨Array.replicate 15 .one, 0⟩
  stride := 3
  length := 9

theorem Task.Covers.portable_sums_unitProducts :
    ∃ sums, sumsAfter (Backend.portable.fused 2 unitProducts unitProducts.y.origin) #[.half, .half] =
        some sums ∧ sums[1]? = some (.ofBits 0x41100000) := by
  have covers : unitProducts.Covers 2 unitProducts.y.origin (#[.half, .half] : Array Single).size := by
    decide
  obtain ⟨sums, ran, -, rows⟩ := Task.Covers.portable_sums covers
  obtain ⟨-, -, second, -⟩ := rows 1 (by decide)
  refine ⟨sums, ran, second.trans ?_⟩
  decide +kernel

end LaneDot

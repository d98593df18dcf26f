import LaneDot.Proofs.Kernel.ExactDomain
import LaneDot.Proofs.Kernel.Fusion

/-!
# Rows side by side

The fused kernels of both levels and the sequential kernel form a row's sum
from the exact products of the row by exact additions and roundings alone.
A relation that these two operations keep therefore passes from the products
of two rows to their sums, in each of the kernels.
-/

namespace LaneDot

/-! ## The kernels as one family -/

inductive DotKernel where
  | fused (level : Level)
  | sequential
  deriving DecidableEq

namespace DotKernel

def run : DotKernel → Nat → Task → Address → AccessM Unit
  | .fused level => level.backend.fused
  | .sequential => LaneDot.sequential

def rowSum : DotKernel → (Nat → Single) → (Nat → Code) → Nat → Single
  | .fused level => level.backend.rowSum
  | .sequential => sequentialSum

theorem sumsRows (kernel : DotKernel) : SumsRows kernel.run kernel.rowSum := by
  cases kernel with
  | fused level => exact level.backend.fused_sumsRows
  | sequential => exact sequential_sumsRows

/-- The kernel has a result, with a value in the sum of a row. -/
def Leaves (kernel : DotKernel) (fusion : Nat) (task : Task) (start : Address)
    (sum : Array Single) (row : Nat) (value : Single) : Prop :=
  ∃ sums, sumsAfter (kernel.run fusion task start) sum = some sums ∧ sums[row]? = some value

theorem Leaves.unique {kernel : DotKernel} {fusion : Nat} {task : Task} {start : Address}
    {sum : Array Single} {row : Nat} {value other : Single}
    (first : kernel.Leaves fusion task start sum row value)
    (second : kernel.Leaves fusion task start sum row other) : value = other := by
  obtain ⟨sums, ran, atRow⟩ := first
  obtain ⟨others, ranOther, atOther⟩ := second
  obtain rfl : sums = others := Option.some.inj (ran.symm.trans ranOther)
  exact Option.some.inj (atRow.symm.trans atOther)

def taskSum (kernel : DotKernel) (task : Task) (start : Address) (row : Nat) : Single :=
  kernel.rowSum task.single (task.codeAt start row) task.length

theorem leaves_taskSum {task : Task} {fusion : Nat} {start : Address} {sum : Array Single}
    (covers : task.Covers fusion start sum.size) {row : Nat} (isRow : row < fusion)
    (kernel : DotKernel) :
    kernel.Leaves fusion task start sum row (kernel.taskSum task start row) := by
  obtain ⟨sums, ran, -, rows⟩ := kernel.sumsRows covers
  exact ⟨sums, ran, rows row isRow⟩

/-- Both levels add the lanes up in one tree. -/
theorem fused_rowSum (level : Level) (x : Nat → Single) (codes : Nat → Code) (length : Nat) :
    (fused level).rowSum x codes length =
      laneTree fun lane => (level.backend.lanes x codes length).get lane := by
  cases level with
  | portable => exact Backend.portable_total _
  | avx2 => exact Backend.avx2_total _

end DotKernel

/-! ## Relations that exact operations keep -/

/-- A relation between the exact results of two runs that additions and roundings keep. -/
structure Exact.Kept (related : Exact → Exact → Prop) : Prop where
  zero : related (.ofSingle .zero) (.ofSingle .zero)
  add {first first' second second' : Exact} : related first first' → related second second' →
    related (first.add second) (first'.add second')
  round {exact exact' : Exact} : related exact exact' →
    related (.ofSingle exact.round) (.ofSingle exact'.round)

namespace Exact.Kept

variable {related : Exact → Exact → Prop} {v w : Fin 8 → Single}
  {x x' d d' : Nat → Single} {codes codes' : Nat → Code} {length : Nat}

theorem clearZeroSign (kept : Kept related) {a b : Single}
    (singles : related (.ofSingle a) (.ofSingle b)) :
    related (.ofSingle a.clearZeroSign) (.ofSingle b.clearZeroSign) := by
  rw [← Single.zero_add, ← Single.zero_add]
  exact kept.round (kept.add kept.zero singles)

theorem laneTree (kept : Kept related)
    (lanes : ∀ lane, related (.ofSingle (v lane)) (.ofSingle (w lane))) :
    related (.ofSingle (laneTree v)) (.ofSingle (laneTree w)) := by
  have node {a a' b b' : Single} (left : related (.ofSingle a) (.ofSingle a'))
      (right : related (.ofSingle b) (.ofSingle b')) :
      related (.ofSingle (a.add b)) (.ofSingle (a'.add b')) := kept.round (kept.add left right)
  exact node (node (node (lanes 0) (lanes 4)) (node (lanes 1) (lanes 5)))
    (node (node (lanes 2) (lanes 6)) (node (lanes 3) (lanes 7)))

theorem fuse (kept : Kept related) {indices : List Nat}
    (products : ∀ index ∈ indices,
      related (.product (x index) (d index)) (.product (x' index) (d' index)))
    {acc acc' : Single} (start : related (.ofSingle acc) (.ofSingle acc')) :
    related (.ofSingle (fuse x d indices acc)) (.ofSingle (fuse x' d' indices acc')) := by
  refine List.foldl_rel (r := fun acc acc' => related (.ofSingle acc) (.ofSingle acc')) start ?_
  intro index member acc acc' accs
  exact kept.round (kept.add (products index member) accs)

def Products (related : Exact → Exact → Prop) (x x' : Nat → Single) (codes codes' : Nat → Code)
    (length : Nat) : Prop :=
  ∀ index < length,
    related (.product (x index) (codes index).value) (.product (x' index) (codes' index).value)

theorem laneSum (kept : Kept related) (products : Products related x x' codes codes' length)
    (lane : Nat) :
    related (.ofSingle (laneSum x (fun index => (codes index).value) length lane))
      (.ofSingle (LaneDot.laneSum x' (fun index => (codes' index).value) length lane)) :=
  kept.fuse (fun index member => products index (lt_of_mem_laneIndices member)) kept.zero

/-- Both backends keep the relation in their lanes, since both of them clear the same lanes. -/
theorem lanes (kept : Kept related) (products : Products related x x' codes codes' length)
    (level : Level) (lane : Fin 8) :
    related (.ofSingle ((level.backend.lanes x codes length).get lane))
      (.ofSingle ((level.backend.lanes x' codes' length).get lane)) := by
  have portable : related (.ofSingle ((Backend.portable.lanes x codes length).get lane))
      (.ofSingle ((Backend.portable.lanes x' codes' length).get lane)) := by
    rw [Backend.portable_get_lanes, Backend.portable_get_lanes]
    exact kept.laneSum products lane
  cases level with
  | portable => exact portable
  | avx2 =>
      rw [Level.backend, Backend.avx2_get_lanes, Backend.avx2_get_lanes]
      split
      · exact portable
      · exact kept.clearZeroSign portable

theorem sequentialSum (kept : Kept related) (products : Products related x x' codes codes' length) :
    related (.ofSingle (sequentialSum x codes length))
      (.ofSingle (LaneDot.sequentialSum x' codes' length)) := by
  rw [sequentialSum_eq_foldl, sequentialSum_eq_foldl]
  refine List.foldl_rel (r := fun acc acc' => related (.ofSingle acc) (.ofSingle acc')) kept.zero ?_
  intro index member acc acc' accs
  exact kept.round (kept.add accs (kept.round (products index (List.mem_range.mp member))))

/-- Related products have related sums, in each of the kernels. -/
theorem rowSum (kept : Kept related) (products : Products related x x' codes codes' length)
    (kernel : DotKernel) :
    related (.ofSingle (kernel.rowSum x codes length))
      (.ofSingle (kernel.rowSum x' codes' length)) := by
  cases kernel with
  | fused level =>
      rw [DotKernel.fused_rowSum, DotKernel.fused_rowSum]
      exact kept.laneTree (kept.lanes products level)
  | sequential => exact kept.sequentialSum products

end Exact.Kept

end LaneDot

import LaneDot.Proofs.Kernel.Masking
import LaneDot.Proofs.Single.Negation

/-!
# Sign symmetry

A product flips its sign with either factor, so codes with their sign bits
flipped give every row the sum that a stream with its sign bits flipped gives.
That sum is the flipped one, except that a row which sums up to a zero may
leave a zero of either sign.
-/

namespace LaneDot

/-! ## Equal and opposite products -/

theorem Exact.kept_eq : Kept Eq where
  zero := rfl
  add left right := congrArg₂ Exact.add left right
  round := congrArg fun exact : Exact => ofSingle exact.round

theorem Exact.kept_opposite : Kept Opposite where
  zero := Or.inr ⟨Or.inl rfl, Or.inr rfl⟩
  add := Opposite.add
  round := Opposite.round

namespace DotKernel

variable {x x' : Nat → Single} {codes codes' : Nat → Code} {length : Nat}

theorem rowSum_congr (products : Exact.Kept.Products Eq x x' codes codes' length)
    (kernel : DotKernel) : kernel.rowSum x codes length = kernel.rowSum x' codes' length :=
  Exact.ofSingle_injective (Exact.kept_eq.rowSum products kernel)

theorem rowSum_opposite (products : Exact.Kept.Products Exact.Opposite x x' codes codes' length)
    (kernel : DotKernel) :
    (kernel.rowSum x' codes' length).Alike (kernel.rowSum x codes length).neg := by
  have opposite := Exact.kept_opposite.rowSum products kernel
  rw [Exact.Opposite, ← Exact.ofSingle_neg] at opposite
  exact .of_exact opposite

end DotKernel

/-! ## Flipped tasks -/

def CodeBuffer.flipped (buffer : CodeBuffer) : CodeBuffer :=
  { buffer with codes := buffer.codes.map Code.neg }

namespace Task

def flipCodes (task : Task) : Task :=
  task.withCodes task.y.flipped

/-- The task with the sign bits of its stream flipped, as far as the rows go. -/
def flipStream (task : Task) : Task :=
  { task with
    x := task.x.mapIdx fun index single =>
      if index < task.length then single.flipSign else single }

theorem size_flipCodes (task : Task) : task.flipCodes.y.codes.size = task.y.codes.size :=
  Array.size_map

variable {task : Task} {fusion : Nat} {start : Address}

namespace Readable

theorem single_flipStream (readable : task.Readable fusion start) {index : Nat}
    (inside : index < task.length) :
    task.flipStream.single index = (task.single index).neg := by
  have within : index < task.x.size := inside.trans_le readable.stream
  rw [single, single, getElem!_pos task.x index within, flipStream, getElem!_pos _ index (by simpa),
    Array.getElem_mapIdx, if_pos inside, Single.flipSign_eq_neg]

theorem codeAt_flipCodes (readable : task.Readable fusion start) {row index : Nat}
    (isRow : row < fusion) (inside : index < task.length) :
    task.flipCodes.codeAt start row index = (task.codeAt start row index).neg := by
  have within := readable.windows row isRow index inside
  have flipped : task.flipCodes.codeAt start row index =
      (task.y.codes.map Code.neg)[task.rowStart start row + index]! := rfl
  rw [flipped, codeAt, getElem!_pos task.y.codes _ within, getElem!_pos _ _ (by simpa),
    Array.getElem_map]

end Readable

namespace Covers

variable {sum : Array Single}

theorem flipCodes (covers : task.Covers fusion start sum.size) :
    task.flipCodes.Covers fusion start sum.size where
  addressable := by
    rw [size_flipCodes]
    exact covers.addressable
  stream := covers.stream
  windows row isRow offset inside := by
    rw [size_flipCodes]
    exact covers.windows row isRow offset inside
  output := covers.output

theorem flipStream (covers : task.Covers fusion start sum.size) :
    task.flipStream.Covers fusion start sum.size where
  addressable := covers.addressable
  stream := covers.stream.trans_eq Array.size_mapIdx.symm
  windows := covers.windows
  output := covers.output

/--
Sign symmetry.  On covered buffers every kernel leaves the same sums when the
sign bits of all codes are flipped as when the sign bits of the stream are.
Such a sum is a NaN if the sum of the unflipped row is, a zero of either sign
if that is a zero, and otherwise its pattern with the sign bit flipped.
-/
theorem sign_symmetric (covers : task.Covers fusion start sum.size) {row : Nat}
    (isRow : row < fusion) (kernel : DotKernel) :
    ∃ value flipped, kernel.Leaves fusion task start sum row value ∧
      kernel.Leaves fusion task.flipCodes start sum row flipped ∧
      kernel.Leaves fusion task.flipStream start sum row flipped ∧ value.Flips flipped := by
  have stream (index : Nat) (inside : index < task.length) :=
    covers.single_flipStream inside
  have codes (index : Nat) (inside : index < task.length) :=
    covers.codeAt_flipCodes isRow inside
  have same : kernel.taskSum task.flipCodes start row = kernel.taskSum task.flipStream start row := by
    refine kernel.rowSum_congr fun index inside => ?_
    change Exact.product (task.single index) (task.flipCodes.codeAt start row index).value =
      Exact.product (task.flipStream.single index) (task.codeAt start row index).value
    rw [codes index inside, stream index inside, Code.value_neg, Exact.product_neg_left,
      Exact.product_neg_right]
  have opposite :
      (kernel.taskSum task.flipStream start row).Alike (kernel.taskSum task start row).neg := by
    refine kernel.rowSum_opposite fun index inside => ?_
    rw [Exact.Opposite, stream index inside, Exact.product_neg_left]
    exact .refl _
  refine ⟨_, _, kernel.leaves_taskSum covers isRow, ?_,
    kernel.leaves_taskSum covers.flipStream isRow, opposite.flips⟩
  rw [← same]
  exact kernel.leaves_taskSum covers.flipCodes isRow

end Covers

/-- Nine products that cancel: in lane zero with the tail, and between two other lanes. -/
def cancellingProducts : Task where
  x := #[.one, .half, .half, .one, .one, .one, .one, .one, .one]
  y := ⟨#[.one, .one, Code.one.neg, .zero, .zero, .negZero, .zero, .zero, Code.one.neg], 0⟩
  stride := 0
  length := 9

/-- The sum that cancels is a positive zero, and so is the flipped one. -/
theorem Covers.sign_symmetric_cancellingProducts :
    (DotKernel.fused .avx2).Leaves 1 cancellingProducts 0 #[.half] 0 .zero ∧
    (DotKernel.fused .avx2).Leaves 1 cancellingProducts.flipCodes 0 #[.half] 0 .zero ∧
    (DotKernel.fused .avx2).Leaves 1 cancellingProducts.flipStream 0 #[.half] 0 .zero ∧
    Single.zero.Flips .zero := by
  have covers : cancellingProducts.Covers 1 0 (#[.half] : Array Single).size := by decide
  obtain ⟨value, flipped, leaves, codes, stream, flips⟩ :=
    Covers.sign_symmetric covers Nat.one_pos (.fused .avx2)
  have sums : sumsAfter (Backend.avx2.fused 1 cancellingProducts 0) #[.half] = some #[.zero] := by
    decide +kernel
  have sums' : sumsAfter (Backend.avx2.fused 1 cancellingProducts.flipCodes 0) #[.half] =
      some #[.zero] := by decide +kernel
  obtain rfl := leaves.unique ⟨_, sums, rfl⟩
  obtain rfl := codes.unique ⟨_, sums', rfl⟩
  exact ⟨leaves, codes, stream, flips⟩

end Task

end LaneDot

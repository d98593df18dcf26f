import LaneDot.Proofs.Kernel.Accuracy
import LaneDot.Proofs.Kernel.Comparison
import LaneDot.Proofs.Kernel.Progress
import LaneDot.Proofs.Kernel.Simulation
import LaneDot.Proofs.Single.Special

/-!
# Special values are never masked

Every product of a row enters the row's sum through additions and roundings,
and so does every value that a lane holds on the way.  What is special about
them is therefore seen in the sum, in each of the kernels: a NaN makes the sum
a NaN, an infinity makes it an infinity or a NaN, and opposite infinities make
it a NaN wherever they meet.
-/

namespace LaneDot

/-! ## Folds and trees -/

/-- A step of a fold that shows the accumulator and the term at its index. -/
structure ShowsTerm (term : Nat → Exact) (step : Single → Nat → Single) : Prop where
  acc : ∀ acc index, (step acc index).Shows (.ofSingle acc)
  term : ∀ acc index, (step acc index).Shows (term index)

namespace ShowsTerm

variable {term : Nat → Exact} {step : Single → Nat → Single}

theorem foldl_acc (shows : ShowsTerm term step) (indices : List Nat) (acc : Single) :
    (indices.foldl step acc).Shows (.ofSingle acc) := by
  induction indices generalizing acc with
  | nil => exact .refl _
  | cons index rest ih => exact (ih (step acc index)).trans (shows.acc acc index)

/-- A fold shows each of its terms, since every later step shows the accumulator. -/
theorem foldl_term (shows : ShowsTerm term step) {indices : List Nat} {index : Nat}
    (member : index ∈ indices) (acc : Single) : (indices.foldl step acc).Shows (term index) := by
  -- any accumulator will do, since the terms before the index are behind it
  induction indices generalizing acc with
  | nil => cases member
  | cons first rest ih =>
      rcases List.mem_cons.mp member with rfl | later
      · exact (shows.foldl_acc rest _).trans (shows.term acc index)
      · exact ih later _

end ShowsTerm

theorem showsTerm_fused (x d : Nat → Single) :
    ShowsTerm (fun index => .product (x index) (d index))
      fun acc index => (x index).mulAdd (d index) acc where
  acc acc _ := Single.mulAdd_shows_addend _ _ acc
  term acc _ := Single.mulAdd_shows_product _ _ acc

theorem showsTerm_rounded (x d : Nat → Single) :
    ShowsTerm (fun index => .product (x index) (d index))
      fun acc index => acc.add ((x index).mul (d index)) where
  acc acc _ := Single.add_shows_left acc _
  term acc _ := (Single.add_shows_right acc _).trans (Single.mul_shows _ _)

theorem laneTree_shows (v : Fin 8 → Single) : ∀ lane, (laneTree v).Shows (.ofSingle (v lane)) := by
  have left {result a b : Single} (shown : result.Shows (.ofSingle (a.add b))) :
      result.Shows (.ofSingle a) := shown.trans (Single.add_shows_left a b)
  have right {result a b : Single} (shown : result.Shows (.ofSingle (a.add b))) :
      result.Shows (.ofSingle b) := shown.trans (Single.add_shows_right a b)
  have root : (laneTree v).Shows (.ofSingle (laneTree v)) := .refl _
  -- each leaf is reached by its path from the root
  exact lanes_in_tree_iff.mp
    ⟨⟨⟨left (left (left root)), right (left (left root))⟩,
        left (right (left root)), right (right (left root))⟩,
      ⟨left (left (right root)), right (left (right root))⟩,
      left (right (right root)), right (right (right root))⟩

/-! ## The kernels -/

section

variable (x : Nat → Single) (codes : Nat → Code) (length : Nat)

/-- The lanes of both levels show the lane sums, of which they differ in signs of zeros only. -/
theorem Level.lanes_shows_laneSum (level : Level) (lane : Fin 8) :
    ((level.backend.lanes x codes length).get lane).Shows
      (.ofSingle (laneSum x (fun index => (codes index).value) length lane)) := by
  rw [← Backend.portable_get_lanes]
  cases level with
  | portable => exact .refl _
  | avx2 =>
      rw [backend, Backend.avx2_get_lanes]
      split
      · exact .refl _
      · exact Single.Alike.shows (Single.alike_clearZeroSign _).symm

theorem DotKernel.rowSum_shows_product (kernel : DotKernel) {index : Nat} (inside : index < length) :
    (kernel.rowSum x codes length).Shows (.product (x index) (codes index).value) := by
  cases kernel with
  | fused level =>
      obtain ⟨lane, member⟩ := exists_mem_laneIndices inside
      have product := (showsTerm_fused x fun index => (codes index).value).foldl_term member .zero
      rw [fused_rowSum]
      exact (laneTree_shows _ lane).trans
        ((level.lanes_shows_laneSum x codes length lane).trans product)
  | sequential =>
      rw [rowSum, sequentialSum_eq_foldl]
      exact (showsTerm_rounded x fun index => (codes index).value).foldl_term
        (List.mem_range.mpr inside) .zero

/-! ## Lanes on the way -/

def Lanes.Show (lanes before : Lanes 8) : Prop :=
  ∀ lane, (lanes.get lane).Shows (.ofSingle (before.get lane))

theorem Level.combineWide_show (level : Level) {before : Lanes 8} (xs : Lanes 8)
    (codes : Vector Code 8) (acc : Lanes 8) (shown : acc.Show before) :
    (level.backend.combineWide xs codes acc).Show before := by
  intro lane
  have decodes : level.backend.Decodes := level.decodesLanes_wide
  rw [decodes.get_combineWide]
  exact (Single.mulAdd_shows_addend _ _ _).trans (shown lane)

/-- A single step shows all lanes: it adds to the first, and the others keep all but signs of zeros. -/
theorem Level.combineOne_show (level : Level) {before : Lanes 8} (xs : Lanes 1)
    (codes : Vector Code 1) (acc : Lanes 8) (shown : acc.Show before) :
    (level.backend.combineOne xs codes acc).Show before := by
  intro lane
  have step := Single.Alike.shows (level.get_combineOne_alike xs codes acc lane).symm
  refine (step.trans ?_).trans (shown lane)
  split
  · exact Single.mulAdd_shows_addend _ _ _
  · exact .refl _

/-- The sum of a row shows the lanes that the row has after any number of steps. -/
theorem Level.rowSum_shows_lanesFor (level : Level) {steps : Nat}
    (within : steps ≤ length / laneCount + length % laneCount) (lane : Fin 8) :
    ((DotKernel.fused level).rowSum x codes length).Shows
      (.ofSingle ((level.backend.lanesFor x codes length steps).get lane)) := by
  have kept : (level.backend.lanes x codes length).Show
      (level.backend.lanesFor x codes length steps) := by
    rw [Backend.lanes_eq_of_lanesFor _ _ _ within]
    refine foldWindows_invariant level.combineOne_show _ _ _ _ ?_
    exact foldWindows_invariant level.combineWide_show _ _ _ _ fun lane => .refl _
  rw [DotKernel.fused_rowSum]
  exact (laneTree_shows _ lane).trans (kept lane)

end

/-! ## The law -/

/-- What special elements of the stream leave in the sum of a row. -/
structure Task.Unmasked (task : Task) (start : Address) (row : Nat) (value : Single) : Prop where
  nan : ∀ index < task.length, task.single index = .nan → value = .nan
  zeroCode : ∀ index < task.length, ∀ negative, task.single index = .inf negative →
    (task.codeAt start row index).units = 0 → value = .nan
  opposite : ∀ j < task.length, ∀ k < task.length, ∀ s t,
    task.single j = .inf s → task.single k = .inf t →
    (task.codeAt start row j).units ≠ 0 → (task.codeAt start row k).units ≠ 0 →
    (s ^^ (task.codeAt start row j).isNegative) ≠ (t ^^ (task.codeAt start row k).isNegative) →
    value = .nan
  infinite : ∀ index < task.length, ∀ negative, task.single index = .inf negative → ¬ value.isFinite
  finite : value.isFinite → ∀ index < task.length, (task.single index).isFinite

structure Lanes.SeenIn (lanes : Lanes 8) (value : Single) : Prop where
  nan : ∀ lane, lanes.get lane = .nan → value = .nan
  infinite : ∀ lane negative, lanes.get lane = .inf negative → value = .nan ∨ value = .inf negative

theorem Single.Shows.seen {lanes : Lanes 8} {value : Single}
    (shown : ∀ lane, value.Shows (.ofSingle (lanes.get lane))) : lanes.SeenIn value where
  nan lane isNan := (isNan ▸ shown lane : value.Shows (.ofSingle .nan)).eq_nan
  infinite lane negative isInf :=
    (isInf ▸ shown lane : value.Shows (.ofSingle (.inf negative))).eq_or

/-- A sum that shows every product of its row masks no special element of the stream. -/
theorem Task.unmasked_of_shows {task : Task} {start : Address} {row : Nat} {value : Single}
    (shown : ∀ index < task.length,
      value.Shows (.product (task.single index) (task.codeAt start row index).value)) :
    task.Unmasked start row value := by
  have infinite (index : Nat) (inside : index < task.length) (negative : Bool)
      (isInf : task.single index = .inf negative) :
      value.Shows (if (task.codeAt start row index).units = 0 then .nan
        else .inf (negative ^^ (task.codeAt start row index).isNegative)) := by
    rw [← Exact.product_inf_value, ← isInf]
    exact shown index inside
  have finite (isFinite : value.isFinite) (index : Nat) (inside : index < task.length) :
      (task.single index).isFinite :=
    Exact.isFinite_of_product ((shown index inside).isFinite isFinite)
  refine ⟨?_, ?_, ?_, ?_, finite⟩
  · intro index inside isNan
    have product := shown index inside
    rw [isNan] at product
    exact product.eq_nan
  · intro index inside negative isInf zero
    have product := infinite index inside negative isInf
    rw [if_pos zero] at product
    exact product.eq_nan
  · intro j insideJ k insideK s t isInfJ isInfK nonzeroJ nonzeroK signs
    have productJ := infinite j insideJ s isInfJ
    have productK := infinite k insideK t isInfK
    rw [if_neg nonzeroJ] at productJ
    rw [if_neg nonzeroK] at productK
    exact Single.Shows.eq_nan (Exact.Shows.eq_nan_of_opposite signs productJ productK)
  · intro index inside negative isInf isFinite
    have element := finite isFinite index inside
    rw [isInf] at element
    cases element

namespace Task.Covers

variable {task : Task} {fusion : Nat} {start : Address} {sum : Array Single}

/--
Special values are never masked.  On covered buffers every kernel has a result.
Its sum of a row is a NaN if the stream has a NaN, or an infinity at a code of
zero, or infinities with products of both signs; it is not finite if the stream
has an infinity at all; so a finite sum means a finite stream.  In the fused
kernels, after any number of steps, a NaN in a lane of the row is a NaN in its
sum, and an infinity in a lane is that infinity or a NaN in the sum.
-/
theorem special_values_seen (covers : task.Covers fusion start sum.size) {row : Nat}
    (isRow : row < fusion) :
    (∀ kernel : DotKernel, ∃ value, kernel.Leaves fusion task start sum row value ∧
      task.Unmasked start row value) ∧
    ∀ (level : Level) (steps : Nat), steps ≤ task.length / 8 + task.length % 8 →
      (level.backend.fused fusion task start =
        level.backend.accumulateFor fusion task start steps >>=
          level.backend.accumulateAfter task steps >>= fun rows =>
            rows.forM (Row.finish level.backend.total)) ∧
      ∃ value rows after lanes,
        (DotKernel.fused level).Leaves fusion task start sum row value ∧
        level.backend.accumulateFor fusion task start steps (.ofSum sum) = some (rows, after) ∧
        rows[row]?.map Row.acc = some lanes ∧ lanes.SeenIn value := by
  constructor
  · intro kernel
    exact ⟨_, kernel.leaves_taskSum covers isRow, unmasked_of_shows fun index inside =>
      kernel.rowSum_shows_product _ _ _ inside⟩
  · intro level steps within
    refine ⟨?_, ?_⟩
    · rw [Backend.fused_eq_accumulate, Backend.accumulate_eq_for_after _ _ _ _ within]
    · obtain ⟨rows, after, ran, held⟩ :=
        covers.exists_rows_accumulateFor level.backend within (.ofSum sum)
      exact ⟨_, rows, after, _, DotKernel.leaves_taskSum covers isRow (.fused level), ran,
        held row isRow, Single.Shows.seen (level.rowSum_shows_lanesFor _ _ _ within)⟩

end Task.Covers

/-- Two infinities with products of opposite signs, one in the third lane and one in the tail. -/
def oppositeProducts : Task where
  x := #[.one, .one, .inf false, .one, .one, .one, .one, .one, .inf false]
  y := ⟨Array.replicate 8 .one ++ #[Code.one.neg], 0⟩
  stride := 0
  length := 9

/-- The opposite infinities meet in the tree of the vector kernel, and the sum is a NaN. -/
theorem Task.Covers.special_values_seen_oppositeProducts :
    oppositeProducts.Covers 1 oppositeProducts.y.origin (#[.half] : Array Single).size ∧
    (DotKernel.fused .avx2).Leaves 1 oppositeProducts oppositeProducts.y.origin #[.half] 0 .nan ∧
    ∃ rows after lanes,
      Backend.avx2.accumulateFor 1 oppositeProducts oppositeProducts.y.origin 1 (.ofSum #[.half]) =
        some (rows, after) ∧
      rows[0]?.map Row.acc = some lanes ∧ lanes.SeenIn .nan := by
  have covers : oppositeProducts.Covers 1 oppositeProducts.y.origin
      (#[.half] : Array Single).size := by decide
  obtain ⟨kernels, levels⟩ := Task.Covers.special_values_seen covers (by decide : 0 < 1)
  obtain ⟨value, leaves, unmasked⟩ := kernels (.fused .avx2)
  have nan : value = .nan := unmasked.opposite 2 (by decide) 8 (by decide) false false rfl rfl
    (by decide) (by decide) (by decide)
  obtain ⟨-, seen, rows, after, lanes, left, ran, held, shown⟩ := levels .avx2 1 (by decide)
  obtain rfl := left.unique leaves
  subst nan
  exact ⟨covers, leaves, rows, after, lanes, ran, held, shown⟩

end LaneDot

import LaneDot.Proofs.Code.LaneDecoding
import LaneDot.Proofs.Single.SignedZero
import LaneDot.Proofs.Kernel.Run

/-!
# The lane sums of a row

Lane `lane` of a row's accumulator folds the products at the indices of the
bulk that leave the remainder `lane` modulo eight, and the products after the
bulk go to lane zero.  The reduction adds the lanes as a fixed tree.  The
portable backend computes exactly these sums.  The vector backend does so too,
up to the sign of a zero in the other seven lanes.
-/

namespace LaneDot

/-! ## The reference -/

def fuse (x d : Nat → Single) (indices : List Nat) (acc : Single) : Single :=
  indices.foldl (fun acc index => (x index).mulAdd (d index) acc) acc

def bulkIndices (length lane : Nat) : List Nat :=
  (List.range (8 * (length / 8))).filter (· % 8 = lane)

/-- The indices after the bulk, in order; they belong to lane zero. -/
def restIndices (length : Nat) : List Nat :=
  List.range' (8 * (length / 8)) (length % 8)

def laneIndices (length lane : Nat) : List Nat :=
  bulkIndices length lane ++ if lane = 0 then restIndices length else []

/-- The value of a lane: fused steps from positive zero over the products of the lane. -/
def laneSum (x d : Nat → Single) (length lane : Nat) : Single :=
  fuse x d (laneIndices length lane) .zero

def laneTree (v : Fin 8 → Single) : Single :=
  (((v 0).add (v 4)).add ((v 1).add (v 5))).add (((v 2).add (v 6)).add ((v 3).add (v 7)))

theorem fuse_append (x d : Nat → Single) (first second : List Nat) (acc : Single) :
    fuse x d (first ++ second) acc = fuse x d second (fuse x d first acc) :=
  List.foldl_append

theorem filter_block (block lane : Nat) (isLane : lane < 8) :
    ((List.range 8).map (8 * block + ·)).filter (· % 8 = lane) = [8 * block + lane] := by
  rw [List.filter_map]
  have inside : ((fun index => decide (index % 8 = lane)) ∘ (8 * block + ·)) =
      fun offset => decide (offset % 8 = lane) := by
    funext offset
    simp
  rw [inside]
  interval_cases lane <;> rfl

/-- The indices of a lane in the bulk are one in every block. -/
theorem bulkIndices_eq (length : Nat) {lane : Nat} (isLane : lane < 8) :
    bulkIndices length lane = (List.range (length / 8)).map fun block => 8 * block + lane := by
  unfold bulkIndices
  induction length / 8 with
  | zero => rfl
  | succ blocks ih =>
      rw [Nat.mul_succ, List.range_add, List.filter_append, ih, filter_block blocks lane isLane,
        List.range_succ, List.map_append]
      rfl

theorem lt_of_mem_laneIndices {length lane index : Nat} (member : index ∈ laneIndices length lane) :
    index < length := by
  rw [laneIndices, List.mem_append] at member
  rcases member with bulk | rest
  · have below := List.mem_range.mp (List.mem_filter.mp bulk).1
    omega
  · split at rest
    · have below := (List.mem_range'_1.mp rest).2
      omega
    · cases rest

/-! ## The steps of a backend -/

theorem Lanes.get_mulAdd {width : Nat} (a b acc : Lanes width) (lane : Fin width) :
    (mulAdd a b acc).get lane = (a.get lane).mulAdd (b.get lane) (acc.get lane) := by
  simp [mulAdd, Vector.get_eq_getElem]

theorem Lanes.get_first (value : Single) (lane : Fin 8) :
    (first value).get lane = if lane = 0 then value else .zero := by
  fin_cases lane <;> rfl

theorem Lanes.get_mulAddFirst (a b : Single) (acc : Lanes 8) (lane : Fin 8) :
    (mulAddFirst a b acc).get lane = if lane = 0 then a.mulAdd b (acc.get lane) else acc.get lane := by
  rw [mulAddFirst, Layout.modifyLowest, Vector.get_eq_getElem, Vector.getElem_set]
  by_cases first : lane = 0
  · rw [first]
    rfl
  · rw [if_neg (fun same => first (Fin.ext same.symm)), if_neg first]
    rfl

theorem Lanes.treeSum_eq_laneTree (lanes : Lanes 8) : lanes.treeSum = laneTree lanes.get := by
  simp [treeSum, fold, add, Layout.pairwise, Layout.low, Layout.high, laneTree,
    Vector.get_eq_getElem]

namespace Backend

def Decodes (backend : Backend) : Prop :=
  ∀ codes, backend.decodeWide codes = codes.map Code.value

theorem portable_decodes : portable.Decodes := by
  intro codes
  rw [← funext Code.decode_eq_value]
  exact Code.decodeHalves_eq_map codes

theorem avx2_decodes : avx2.Decodes := by
  intro codes
  rw [← funext Code.decode_eq_value]
  exact WordRegister.decode_ofCodes codes

theorem Decodes.get_combineWide {backend : Backend} (decodes : backend.Decodes) (xs : Lanes 8)
    (codes : Vector Code 8) (acc : Lanes 8) (lane : Fin 8) :
    (backend.combineWide xs codes acc).get lane =
      (xs.get lane).mulAdd (codes.get lane).value (acc.get lane) := by
  rw [combineWide, Lanes.get_mulAdd, decodes]
  simp [Vector.get_eq_getElem]

/-- A single step of the portable backend leaves all lanes but the first untouched. -/
theorem portable_get_combineOne (xs : Lanes 1) (codes : Vector Code 1) (acc : Lanes 8)
    (lane : Fin 8) :
    (portable.combineOne xs codes acc).get lane =
      if lane = 0 then (xs.get 0).mulAdd (codes.get 0).value (acc.get lane) else acc.get lane := by
  rw [← Code.decode_eq_value]
  exact Lanes.get_mulAddFirst (xs.get 0) (codes.get 0).decode acc lane

/-- A single step of the vector backend clears the sign of zeros in the other lanes. -/
theorem avx2_get_combineOne (xs : Lanes 1) (codes : Vector Code 1) (acc : Lanes 8) (lane : Fin 8) :
    (avx2.combineOne xs codes acc).get lane =
      if lane = 0 then (xs.get 0).mulAdd (codes.get 0).value (acc.get lane)
      else (acc.get lane).clearZeroSign := by
  have step : avx2.combineOne xs codes acc =
      Lanes.mulAdd (Lanes.first (xs.get 0)) (WordRegister.ofCode (codes.get 0)).decode acc := rfl
  rw [step, WordRegister.decode_ofCode, Lanes.get_mulAdd, Lanes.get_first, Lanes.get_first,
    Code.decode_eq_value]
  split
  · rfl
  · exact Single.mulAdd_zero_zero _

/-! ## The loops of a backend -/

variable (x : Nat → Single) (codes : Nat → Code)

/-- Steps of eight fold one product of every block into each lane. -/
theorem Decodes.get_foldWindows_combineWide {backend : Backend} (decodes : backend.Decodes)
    (steps start : Nat) (acc : Lanes 8) (lane : Fin 8) :
    (foldWindows backend.combineWide x codes steps start acc).get lane =
      fuse x (fun index => (codes index).value)
        ((List.range steps).map fun block => start + (8 * block + lane)) (acc.get lane) := by
  induction steps generalizing start acc with
  | zero => rfl
  | succ steps ih =>
      -- the later steps see the same blocks of a stream that starts eight further on
      have shifted : (fun block => start + 8 + (8 * block + lane.val)) =
          (fun block => start + (8 * block + lane.val)) ∘ Nat.succ := by
        funext block
        simp only [Function.comp_apply, Nat.succ_eq_add_one]
        ring
      rw [foldWindows, ih, decodes.get_combineWide, List.range_succ_eq_map, List.map_cons,
        List.map_map, shifted]
      simp [fuse, window, Vector.get_eq_getElem]

theorem portable_get_foldWindows_combineOne (steps start : Nat) (acc : Lanes 8) (lane : Fin 8) :
    (foldWindows portable.combineOne x codes steps start acc).get lane =
      if lane = 0 then
        fuse x (fun index => (codes index).value) (List.range' start steps) (acc.get lane)
      else acc.get lane := by
  induction steps generalizing start acc with
  | zero => exact (ite_self _).symm
  | succ steps ih =>
      rw [foldWindows, ih, portable_get_combineOne, List.range'_succ]
      split <;> rfl

/-- The vector tail folds the same products, and clears the sign of zeros elsewhere. -/
theorem avx2_get_foldWindows_combineOne (steps start : Nat) (acc : Lanes 8) (lane : Fin 8) :
    (foldWindows avx2.combineOne x codes steps start acc).get lane =
      if lane = 0 then
        fuse x (fun index => (codes index).value) (List.range' start steps) (acc.get lane)
      else if steps = 0 then acc.get lane
      else (acc.get lane).clearZeroSign := by
  induction steps generalizing start acc with
  | zero => exact (ite_self _).symm
  | succ steps ih =>
      rw [foldWindows, ih, avx2_get_combineOne, List.range'_succ, if_neg (Nat.succ_ne_zero steps)]
      split
      · rfl
      split
      · rfl
      · exact Single.clearZeroSign_clearZeroSign _

/-! ## The accumulator of a row -/

theorem Decodes.get_bulk {backend : Backend} (decodes : backend.Decodes) (length : Nat)
    (lane : Fin 8) :
    (foldWindows backend.combineWide x codes (length / laneCount) 0 Lanes.zero).get lane =
      fuse x (fun index => (codes index).value) (bulkIndices length lane) .zero := by
  have empty : (Lanes.zero : Lanes 8).get lane = .zero := by
    simp [Lanes.zero, Vector.get_eq_getElem]
  rw [decodes.get_foldWindows_combineWide, bulkIndices_eq length lane.isLt, empty]
  simp only [Nat.zero_add]
  rfl

theorem portable_get_lanes (length : Nat) (lane : Fin 8) :
    (portable.lanes x codes length).get lane =
      laneSum x (fun index => (codes index).value) length lane := by
  rw [lanes, portable_get_foldWindows_combineOne, portable_decodes.get_bulk, laneSum, laneIndices,
    fuse_append]
  simp only [Fin.val_eq_zero_iff]
  split <;> rfl

/-- The lanes of the two backends differ in the sign of zeros after the first lane. -/
theorem avx2_get_lanes (length : Nat) (lane : Fin 8) :
    (avx2.lanes x codes length).get lane =
      if lane = 0 ∨ length % 8 = 0 then (portable.lanes x codes length).get lane
      else ((portable.lanes x codes length).get lane).clearZeroSign := by
  rw [lanes, lanes, avx2_get_foldWindows_combineOne, portable_get_foldWindows_combineOne,
    avx2_decodes.get_bulk, portable_decodes.get_bulk]
  by_cases first : lane = 0
  · rw [if_pos first, if_pos first, if_pos (Or.inl first)]
  rw [if_neg first, if_neg first]
  by_cases whole : length % 8 = 0
  · rw [if_pos (Or.inr whole)]
    exact if_pos whole
  · rw [if_neg (not_or.mpr ⟨first, whole⟩)]
    exact if_neg whole

theorem portable_total (lanes : Lanes 8) : portable.total lanes = laneTree lanes.get :=
  lanes.treeSum_eq_laneTree

theorem avx2_total (lanes : Lanes 8) : avx2.total lanes = laneTree lanes.get :=
  lanes.halvingSum_eq_treeSum.trans lanes.treeSum_eq_laneTree

end Backend

end LaneDot

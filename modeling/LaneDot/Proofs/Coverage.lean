import LaneDot.Extents
import LaneDot.Proofs.Kernel.Placement

/-!
# Coverage in unbounded arithmetic

The check of a task never sees a number that does not fit an address, and yet
it decides coverage as if all numbers were natural numbers: a product or a sum
that is refused belongs to a row that no buffer covers.  The rows need more and
more codes, so the last one decides whether a task is accepted and the first
one that is not covered decides what is reported.
-/

namespace LaneDot

/-! ## Numbers that fit -/

theorem fitting?_of_lt {number : Nat} (fits : number < addressSpace) :
    fitting? number = some number :=
  if_pos fits

theorem fitting?_of_le {number : Nat} (large : addressSpace ≤ number) : fitting? number = none :=
  if_neg (Nat.not_lt.mpr large)

/-- The offset of a row is there exactly when it fits, also where a step on the way does not. -/
theorem rowOffset?_eq_fitting? (stride : UInt64) (row : Nat) :
    rowOffset? stride row = fitting? (2 * stride.toNat * row) := by
  rcases Nat.eq_zero_or_pos row with rfl | positive
  · rfl
  have steps : rowOffset? stride row =
      (fitting? (stride.toNat * 2)).bind fun doubled => fitting? (doubled * row) := by
    rw [rowOffset?, if_neg (Nat.ne_of_gt positive)]
    rfl
  rw [steps, Nat.mul_comm stride.toNat]
  rcases Nat.lt_or_ge (2 * stride.toNat) addressSpace with fits | large
  · rw [fitting?_of_lt fits, Option.bind_some]
  · rw [fitting?_of_le large, Option.bind_none,
      fitting?_of_le (large.trans (Nat.le_mul_of_pos_right _ positive))]

namespace Extents

/-- The number of codes that a row needs: those before it, twice the stride a row, and its own. -/
def need (extents : Extents) (row : Nat) : Nat :=
  2 * extents.stride.toNat * row + extents.length

theorem need_mono (extents : Extents) {row later : Nat} (order : row ≤ later) :
    extents.need row ≤ extents.need later :=
  Nat.add_le_add_right (Nat.mul_le_mul_left _ order) _

theorem required?_eq_fitting? (extents : Extents) (row : Nat) :
    extents.required? row = fitting? (extents.need row) := by
  have steps : extents.required? row =
      (rowOffset? extents.stride row).bind fun offset => fitting? (offset + extents.length) := rfl
  rw [steps, rowOffset?_eq_fitting?]
  rcases Nat.lt_or_ge (2 * extents.stride.toNat * row) addressSpace with fits | large
  · rw [fitting?_of_lt fits, Option.bind_some, need]
  · rw [fitting?_of_le large, Option.bind_none, need,
      fitting?_of_le (large.trans (Nat.le_add_right _ _))]

/-! ## The check of the rows -/

def refusal (extents : Extents) (row : Nat) : DotError :=
  if extents.need row < addressSpace then
    .rowsTooShort row extents.yLength (extents.need row)
  else .strideOverflow extents.stride extents.fusion

variable {extents : Extents}

theorem checkRow_of_le (addressable : extents.yLength < addressSpace) {row : Nat}
    (covered : extents.need row ≤ extents.yLength) : extents.checkRow row = .ok () := by
  have required : extents.required? row = some (extents.need row) := by
    rw [required?_eq_fitting?, fitting?_of_lt (Nat.lt_of_le_of_lt covered addressable)]
  simp only [checkRow, required, if_neg (Nat.not_lt.mpr covered)]

theorem checkRow_of_lt {row : Nat} (short : extents.yLength < extents.need row) :
    extents.checkRow row = .error (extents.refusal row) := by
  rw [checkRow, required?_eq_fitting?, refusal]
  rcases Nat.lt_or_ge (extents.need row) addressSpace with fits | large
  · simp only [fitting?_of_lt fits, if_pos short, if_pos fits]
  · simp only [fitting?_of_le large, if_neg (Nat.not_lt.mpr large)]

theorem checkRows_of_covered (addressable : extents.yLength < addressSpace) {count row : Nat}
    (covered : ∀ other, row ≤ other → other < row + count → extents.need other ≤ extents.yLength) :
    extents.checkRows count row = .ok () := by
  induction count generalizing row with
  | zero => rfl
  | succ count ih =>
      have head := checkRow_of_le addressable (covered row le_rfl (by omega))
      rw [checkRows, head]
      exact ih fun other after inside => covered other (by omega) (by omega)

/-- The first row that is not covered decides what is reported. -/
theorem checkRows_of_first (addressable : extents.yLength < addressSpace) {count row first : Nat}
    (after : row ≤ first) (inside : first < row + count)
    (short : extents.yLength < extents.need first)
    (covered : ∀ earlier, row ≤ earlier → earlier < first →
      extents.need earlier ≤ extents.yLength) :
    extents.checkRows count row = .error (extents.refusal first) := by
  induction count generalizing row with
  | zero => omega
  | succ count ih =>
      rcases Nat.eq_or_lt_of_le after with rfl | later
      · rw [checkRows, checkRow_of_lt short]
        rfl
      · have head := checkRow_of_le addressable (covered row le_rfl later)
        rw [checkRows, head]
        exact ih later (by omega) fun earlier above below => covered earlier (by omega) below

/-! ## The verdict -/

structure Admitted (extents : Extents) : Prop where
  positive : 0 < extents.fusion
  supported : extents.fusion ≤ maxFusion
  output : extents.fusion ≤ extents.sumLength
  stream : extents.length ≤ extents.xLength

structure FirstUncovered (extents : Extents) (row : Nat) : Prop where
  isRow : row < extents.fusion
  short : extents.yLength < extents.need row
  least : ∀ earlier < row, extents.need earlier ≤ extents.yLength

/-- The verdict on a task by the number of codes that its rows need, in unbounded arithmetic. -/
inductive Verdict (extents : Extents) : Except DotError Unit → Prop where
  | fusionFactor (unsupported : extents.fusion = 0 ∨ 8 < extents.fusion) :
      Verdict extents (.error (.fusionFactor extents.fusion 8))
  | outputTooShort (positive : 0 < extents.fusion) (supported : extents.fusion ≤ 8)
      (short : extents.sumLength < extents.fusion) :
      Verdict extents (.error (.outputTooShort extents.sumLength extents.fusion))
  | inputTooShort (positive : 0 < extents.fusion) (supported : extents.fusion ≤ 8)
      (output : extents.fusion ≤ extents.sumLength) (short : extents.xLength < extents.length) :
      Verdict extents (.error (.inputTooShort extents.xLength extents.length))
  | empty (admitted : extents.Admitted) (isEmpty : extents.length = 0) : Verdict extents (.ok ())
  | rowsTooShort {row : Nat} (admitted : extents.Admitted) (nonempty : 0 < extents.length)
      (first : extents.FirstUncovered row) (fits : extents.need row < 2 ^ 64) :
      Verdict extents (.error (.rowsTooShort row extents.yLength (extents.need row)))
  | strideOverflow {row : Nat} (admitted : extents.Admitted) (nonempty : 0 < extents.length)
      (first : extents.FirstUncovered row) (large : 2 ^ 64 ≤ extents.need row) :
      Verdict extents (.error (.strideOverflow extents.stride extents.fusion))
  | covered (admitted : extents.Admitted) (nonempty : 0 < extents.length)
      (all : ∀ row < extents.fusion, extents.need row ≤ extents.yLength) :
      Verdict extents (.ok ())

theorem not_unsupported {fusion : Nat} (positive : 0 < fusion) (supported : fusion ≤ maxFusion) :
    ¬ (fusion = 0 ∨ maxFusion < fusion) := by
  omega

/-- Past the checks of the fusion factor, the sums and the stream only the rows matter. -/
theorem Admitted.check_eq_ite (admitted : extents.Admitted) :
    extents.check = if extents.length = 0 then .ok () else extents.checkRows extents.fusion 0 := by
  obtain ⟨positive, supported, output, stream⟩ := admitted
  rw [check, if_neg (not_unsupported positive supported), if_neg (Nat.not_lt.mpr output),
    if_neg (Nat.not_lt.mpr stream)]

theorem Admitted.check_eq (admitted : extents.Admitted) (nonempty : 0 < extents.length) :
    extents.check = extents.checkRows extents.fusion 0 := by
  rw [admitted.check_eq_ite, if_neg (Nat.ne_of_gt nonempty)]

theorem FirstUncovered.check_eq {row : Nat} (first : extents.FirstUncovered row)
    (addressable : extents.yLength < addressSpace) (admitted : extents.Admitted)
    (nonempty : 0 < extents.length) : extents.check = .error (extents.refusal row) := by
  rw [admitted.check_eq nonempty]
  exact checkRows_of_first addressable row.zero_le (by rw [Nat.zero_add]; exact first.isRow)
    first.short fun earlier _ below => first.least earlier below

theorem Verdict.check_eq {verdict : Except DotError Unit} (rule : extents.Verdict verdict)
    (addressable : extents.yLength < addressSpace) : extents.check = verdict := by
  cases rule with
  | fusionFactor unsupported => exact if_pos unsupported
  | outputTooShort positive supported short =>
      rw [check, if_neg (not_unsupported positive supported), if_pos short]
  | inputTooShort positive supported output short =>
      rw [check, if_neg (not_unsupported positive supported), if_neg (Nat.not_lt.mpr output),
        if_pos short]
  | empty admitted isEmpty => rw [admitted.check_eq_ite, if_pos isEmpty]
  | rowsTooShort admitted nonempty first fits =>
      rw [first.check_eq addressable admitted nonempty, refusal, addressSpace_eq, if_pos fits]
  | strideOverflow admitted nonempty first large =>
      rw [first.check_eq addressable admitted nonempty, refusal, addressSpace_eq,
        if_neg (Nat.not_lt.mpr large)]
  | covered admitted nonempty all =>
      rw [admitted.check_eq nonempty]
      exact checkRows_of_covered addressable fun row _ isRow => all row (by omega)

theorem exists_firstUncovered
    (short : ¬ ∀ row < extents.fusion, extents.need row ≤ extents.yLength) :
    ∃ row, extents.FirstUncovered row := by
  push Not at short
  obtain ⟨isRow, uncovered⟩ := Nat.find_spec short
  refine ⟨Nat.find short, isRow, uncovered, ?_⟩
  intro earlier below
  by_contra missing
  exact Nat.find_min short below ⟨below.trans isRow, Nat.lt_of_not_le missing⟩

/-- Some rule gives a verdict on every task. -/
theorem exists_verdict (extents : Extents) : ∃ verdict, extents.Verdict verdict := by
  by_cases unsupported : extents.fusion = 0 ∨ 8 < extents.fusion
  · exact ⟨_, .fusionFactor unsupported⟩
  by_cases output : extents.sumLength < extents.fusion
  · exact ⟨_, .outputTooShort (by omega) (by omega) output⟩
  by_cases stream : extents.xLength < extents.length
  · exact ⟨_, .inputTooShort (by omega) (by omega) (by omega) stream⟩
  have admitted : extents.Admitted :=
    ⟨by omega, by rw [maxFusion]; omega, Nat.le_of_not_lt output, Nat.le_of_not_lt stream⟩
  rcases Nat.eq_zero_or_pos extents.length with isEmpty | nonempty
  · exact ⟨_, .empty admitted isEmpty⟩
  by_cases all : ∀ row < extents.fusion, extents.need row ≤ extents.yLength
  · exact ⟨_, .covered admitted nonempty all⟩
  obtain ⟨row, first⟩ := exists_firstUncovered all
  rcases Nat.lt_or_ge (extents.need row) (2 ^ 64) with fits | large
  · exact ⟨_, .rowsTooShort admitted nonempty first fits⟩
  · exact ⟨_, .strideOverflow admitted nonempty first large⟩

theorem check_eq_iff (addressable : extents.yLength < addressSpace)
    {verdict : Except DotError Unit} : extents.check = verdict ↔ extents.Verdict verdict := by
  constructor
  · rintro rfl
    obtain ⟨verdict, rule⟩ := extents.exists_verdict
    exact (rule.check_eq addressable).symm ▸ rule
  · exact fun rule => rule.check_eq addressable

/-- The last row needs the most codes, so it decides for all of them. -/
theorem Admitted.check_eq_ok_iff (admitted : extents.Admitted)
    (addressable : extents.yLength < addressSpace) (nonempty : 0 < extents.length) :
    extents.check = .ok () ↔ extents.need (extents.fusion - 1) ≤ extents.yLength := by
  have positive := admitted.positive
  rw [check_eq_iff addressable]
  constructor
  · intro rule
    cases rule with
    | empty _ isEmpty => omega
    | covered _ _ all => exact all _ (by omega)
  · intro last
    refine .covered admitted nonempty fun row isRow => ?_
    exact (extents.need_mono (by omega)).trans last

/--
The check decides coverage exactly, in unbounded arithmetic.  It answers what
the rule of verdicts says; past the checks of the fusion factor, the sums and
the stream, a task that is not empty is accepted exactly when the last row is
covered; and the offset of a row is the natural number twice the stride times
the row, exactly when that number fits an address.
-/
theorem check_decides_coverage (extents : Extents) (addressable : extents.yLength < 2 ^ 64) :
    (∀ verdict, extents.check = verdict ↔ extents.Verdict verdict) ∧
    (extents.Admitted → 0 < extents.length →
      (extents.check = .ok () ↔
        2 * extents.stride.toNat * (extents.fusion - 1) + extents.length ≤ extents.yLength)) ∧
    ∀ (stride : UInt64) (row : Nat), rowOffset? stride row =
      if 2 * stride.toNat * row < 2 ^ 64 then some (2 * stride.toNat * row) else none :=
  ⟨fun _ => check_eq_iff addressable,
    fun admitted nonempty => admitted.check_eq_ok_iff addressable nonempty, rowOffset?_eq_fitting?⟩

/-- Three rows of which the second just fits the address space and the third does not. -/
def wideRows : Extents where
  fusion := 3
  xLength := 4
  yLength := 0xFFFFFFFFFFFFFFFF
  stride := 0x4000000000000000
  sumLength := 3
  length := 4

theorem check_decides_coverage_wideRows :
    wideRows.yLength < 2 ^ 64 ∧ wideRows.FirstUncovered 2 ∧
      wideRows.check = .error (.strideOverflow 0x4000000000000000 3) := by
  have addressable : wideRows.yLength < 2 ^ 64 := by decide
  have third : wideRows.FirstUncovered 2 := ⟨by decide, by decide, by decide⟩
  have admitted : wideRows.Admitted := ⟨by decide, by decide, by decide, by decide⟩
  have decides := check_decides_coverage wideRows addressable
  exact ⟨addressable, third, (decides.1 _).mpr (.strideOverflow admitted (by decide) third (by decide))⟩

end Extents

end LaneDot

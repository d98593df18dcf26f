import LaneDot.Proofs.Kernel.RowSum
import LaneDot.Proofs.Single.Value

/-!
# Where the backends agree

The tail of the vector backend turns negative zeros in the other seven lanes
into positive ones.  The tree hides this in every sum but one: a sum is a
negative zero only if all eight lanes are, so the backends write different
zeros exactly when all portable lanes are negative zeros and a tail follows.
-/

namespace LaneDot

/-! ## Negative zeros in the tree -/

/-- A property of all lanes in the order of the tree. -/
theorem lanes_in_tree_iff {property : Fin 8 → Prop} :
    (((property 0 ∧ property 4) ∧ property 1 ∧ property 5) ∧
      (property 2 ∧ property 6) ∧ property 3 ∧ property 7) ↔ ∀ lane, property lane := by
  constructor
  · rintro ⟨⟨⟨zeroth, fourth⟩, first, fifth⟩, ⟨second, sixth⟩, third, seventh⟩ lane
    fin_cases lane <;> assumption
  · intro leaves
    exact ⟨⟨⟨leaves 0, leaves 4⟩, leaves 1, leaves 5⟩, ⟨leaves 2, leaves 6⟩, leaves 3, leaves 7⟩

theorem laneTree_eq_negZero_iff {v : Fin 8 → Single} :
    laneTree v = .negZero ↔ ∀ lane, v lane = .negZero := by
  simp only [laneTree, Single.add_eq_negZero_iff]
  exact @lanes_in_tree_iff (v · = .negZero)

/-- Clearing leaves can only clear the tree. -/
theorem laneTree_clearsTo {v w : Fin 8 → Single} (lanes : ∀ lane, (v lane).ClearsTo (w lane)) :
    (laneTree v).ClearsTo (laneTree w) :=
  (((lanes 0).add (lanes 4)).add ((lanes 1).add (lanes 5))).add
    (((lanes 2).add (lanes 6)).add ((lanes 3).add (lanes 7)))

namespace Backend

variable (x : Nat → Single) (codes : Nat → Code) (length : Nat)

/-- The vector lanes are the portable ones, some of them cleared. -/
theorem lanes_clearsTo (lane : Fin 8) :
    ((portable.lanes x codes length).get lane).ClearsTo ((avx2.lanes x codes length).get lane) := by
  rw [avx2_get_lanes]
  split
  · exact .refl _
  · exact .clearZeroSign _

theorem rowSum_clearsTo : (portable.rowSum x codes length).ClearsTo (avx2.rowSum x codes length) := by
  rw [rowSum, rowSum, portable_total, avx2_total]
  exact laneTree_clearsTo (lanes_clearsTo x codes length)

variable {length}

theorem avx2_rowSum_of_whole (whole : length % 8 = 0) :
    avx2.rowSum x codes length = portable.rowSum x codes length := by
  have same (lane : Fin 8) :
      (avx2.lanes x codes length).get lane = (portable.lanes x codes length).get lane := by
    rw [avx2_get_lanes, if_pos (Or.inr whole)]
  rw [rowSum, rowSum, portable_total, avx2_total]
  exact congrArg laneTree (funext same)

/-- After a tail the second vector lane is cleared, so the sum is not a negative zero. -/
theorem avx2_rowSum_ne_negZero (tail : length % 8 ≠ 0) : avx2.rowSum x codes length ≠ .negZero := by
  rw [rowSum, avx2_total]
  intro negative
  -- one cleared leaf is enough, and a tail clears every lane but the first
  have second := laneTree_eq_negZero_iff.mp negative 1
  rw [avx2_get_lanes, if_neg (by simp [tail])] at second
  exact Single.clearZeroSign_ne_negZero _ second

theorem portable_rowSum_eq_negZero_iff :
    portable.rowSum x codes length = .negZero ↔
      ∀ lane, (portable.lanes x codes length).get lane = .negZero := by
  rw [rowSum, portable_total, laneTree_eq_negZero_iff]

/-- The backends differ exactly where a tail follows lanes that sum to a negative zero. -/
theorem rowSum_eq_iff :
    portable.rowSum x codes length = avx2.rowSum x codes length ↔
      length % 8 = 0 ∨ portable.rowSum x codes length ≠ .negZero := by
  constructor
  · intro same
    by_cases whole : length % 8 = 0
    · exact Or.inl whole
    · exact Or.inr (same ▸ avx2_rowSum_ne_negZero x codes whole)
  · rintro (whole | other)
    · exact (avx2_rowSum_of_whole x codes whole).symm
    · rcases (rowSum_clearsTo x codes length).eq_or with same | ⟨negative, -⟩
      · exact same.symm
      · exact absurd negative other

/-- A row shorter than a block leaves the second lane at positive zero. -/
theorem portable_rowSum_ne_negZero_of_short (short : length < 8) :
    portable.rowSum x codes length ≠ .negZero := by
  intro negative
  have second := (portable_rowSum_eq_negZero_iff x codes).mp negative 1
  have empty : laneSum x (fun index => (codes index).value) length (1 : Fin 8) = .zero := by
    rw [laneSum, laneIndices, bulkIndices_eq length (1 : Fin 8).isLt, Nat.div_eq_of_lt short]
    rfl
  rw [portable_get_lanes, empty] at second
  exact absurd second (by decide)

end Backend

/-! ## The relation between the sums of a row -/

/-- A tail follows, and all lanes of the row are negative zeros just before the reduction. -/
def LosesSign (length : Nat) (lanes : Lanes 8) : Prop :=
  8 < length ∧ length % 8 ≠ 0 ∧ ∀ lane, lanes.get lane = .negZero

/-- How the sums of a row in the two backends are related, given the portable lanes. -/
structure RowAgreement (length : Nat) (lanes : Lanes 8) (portable avx2 : Single) : Prop where
  eq_iff : portable = avx2 ↔ ¬ LosesSign length lanes
  signs : LosesSign length lanes → portable = .negZero ∧ avx2 = .zero
  whole : length ≤ 8 ∨ length % 8 = 0 → portable = avx2
  value : portable.extended = avx2.extended
  tail : length % 8 ≠ 0 → avx2 ≠ .negZero

namespace Backend

variable (x : Nat → Single) (codes : Nat → Code) (length : Nat)

theorem losesSign_iff :
    LosesSign length (portable.lanes x codes length) ↔
      length % 8 ≠ 0 ∧ portable.rowSum x codes length = .negZero := by
  rw [LosesSign, ← portable_rowSum_eq_negZero_iff]
  constructor
  · rintro ⟨-, tail, negative⟩
    exact ⟨tail, negative⟩
  · rintro ⟨tail, negative⟩
    have long : ¬ length < 8 := by
      intro short
      exact portable_rowSum_ne_negZero_of_short x codes short negative
    exact ⟨by omega, tail, negative⟩

theorem rowAgreement :
    RowAgreement length (portable.lanes x codes length) (portable.rowSum x codes length)
      (avx2.rowSum x codes length) where
  eq_iff := by
    rw [rowSum_eq_iff, losesSign_iff]
    tauto
  signs loses := by
    obtain ⟨tail, negative⟩ := (losesSign_iff x codes length).mp loses
    rcases (rowSum_clearsTo x codes length).eq_or with same | ⟨-, positive⟩
    · exact absurd (same.trans negative) (avx2_rowSum_ne_negZero x codes tail)
    · exact ⟨negative, positive⟩
  whole small := by
    rw [rowSum_eq_iff]
    rcases small with short | whole
    · rcases Nat.lt_or_eq_of_le short with less | rfl
      · exact Or.inr (portable_rowSum_ne_negZero_of_short x codes less)
      · exact Or.inl rfl
    · exact Or.inl whole
  value := (rowSum_clearsTo x codes length).extended_eq
  tail := avx2_rowSum_ne_negZero x codes

end Backend

/-! ## The relation between the outputs -/

namespace Task.Covers

variable {task : Task} {fusion : Nat} {start : Address} {sum : Array Single}

/--
Both backends have a result on covered buffers.  Their sums of a row are
related by the lanes that the portable kernel, an accumulation followed by a
reduction, holds between the two: they are the same bits unless a tail follows
eight negative zeros, and in that case the portable sum is a negative zero and
the vector sum a positive one.
-/
theorem sums_agreement (covers : task.Covers fusion start sum.size) :
    Backend.portable.fused fusion task start =
      (Backend.portable.accumulate fusion task start >>= fun rows =>
        rows.forM (Row.finish Backend.portable.total)) ∧
    ∃ portable avx2 rows after,
      sumsAfter (Backend.portable.fused fusion task start) sum = some portable ∧
      sumsAfter (Backend.avx2.fused fusion task start) sum = some avx2 ∧
      Backend.portable.accumulate fusion task start (.ofSum sum) = some (rows, after) ∧
      ∀ row < fusion, ∃ p a lanes,
        portable[row]? = some p ∧ avx2[row]? = some a ∧ rows[row]?.map Row.acc = some lanes ∧
        RowAgreement task.length lanes p a := by
  obtain ⟨portable, ranPortable, -, portableSums⟩ := covers.exists_fused_sums Backend.portable
  obtain ⟨avx2, ranVector, -, vectorSums⟩ := covers.exists_fused_sums Backend.avx2
  obtain ⟨rows, after, ranRows, accumulators⟩ := covers.exists_accumulators Backend.portable
  refine ⟨Backend.fused_eq_accumulate _ _ _ _, portable, avx2, rows, after, ranPortable, ranVector,
    ranRows, ?_⟩
  intro row isRow
  exact ⟨_, _, _, portableSums row isRow, vectorSums row isRow, accumulators row isRow,
    Backend.rowAgreement task.single (task.codeAt start row) task.length⟩

end Task.Covers

/-- Nine products that underflow to negative zeros: a full step of eight and a tail. -/
def tinyProducts : Task where
  x := Array.replicate 9 (.ofBits 0x80000001)
  y := ⟨Array.replicate 9 .minPositiveSubnormal, 0⟩
  stride := 0
  length := 9

/-- The excepted case occurs: all eight lanes of the tiny products are negative zeros. -/
theorem Task.Covers.sums_agreement_tinyProducts :
    ∃ portable avx2,
      sumsAfter (Backend.portable.fused 1 tinyProducts tinyProducts.y.origin) #[.one] =
        some portable ∧
      sumsAfter (Backend.avx2.fused 1 tinyProducts tinyProducts.y.origin) #[.one] = some avx2 ∧
      LosesSign tinyProducts.length (Vector.replicate 8 .negZero) ∧
      portable[0]? = some .negZero ∧ avx2[0]? = some .zero := by
  have covers : tinyProducts.Covers 1 tinyProducts.y.origin (#[.one] : Array Single).size := by
    decide
  obtain ⟨-, portable, avx2, rows, after, ranPortable, ranVector, ranRows, related⟩ :=
    Task.Covers.sums_agreement covers
  obtain ⟨p, a, lanes, atPortable, atVector, atRows, agreement⟩ := related 0 (by decide)
  have state : ((Backend.portable.accumulate 1 tinyProducts tinyProducts.y.origin
      (.ofSum #[.one])).bind fun result => result.1[0]?.map Row.acc) =
        some (Vector.replicate 8 .negZero) := by decide +kernel
  rw [ranRows, Option.bind_some, atRows, Option.some.injEq] at state
  have loses : LosesSign tinyProducts.length (Vector.replicate 8 .negZero) :=
    ⟨by decide, by decide, by decide⟩
  obtain ⟨negative, positive⟩ := agreement.signs (state.symm ▸ loses)
  refine ⟨portable, avx2, ranPortable, ranVector, loses, ?_, ?_⟩
  · rw [atPortable, negative]
  · rw [atVector, positive]

/-! ## Bit identity -/

def Task.KeepsSign (task : Task) (start : Address) (row : Nat) : Prop :=
  ∃ lane : Fin 8,
    laneSum task.single (fun index => (task.codeAt start row index).value) task.length lane ≠ .negZero

instance (task : Task) (start : Address) (row : Nat) : Decidable (task.KeepsSign start row) :=
  inferInstanceAs (Decidable (∃ _ : Fin 8, _))

theorem Task.keepsSign_iff (task : Task) (start : Address) (row : Nat) :
    task.KeepsSign start row ↔
      Backend.portable.rowSum task.single (task.codeAt start row) task.length ≠ .negZero := by
  rw [KeepsSign, Ne, Backend.portable_rowSum_eq_negZero_iff, not_forall]
  simp only [Backend.portable_get_lanes]

namespace Backend

/-- A single step of the vector backend keeps exactly the lanes that are not negative zeros. -/
theorem avx2_combineOne_keeps_iff (xs : Lanes 1) (codes : Vector Code 1) (acc : Lanes 8)
    {lane : Fin 8} (other : lane ≠ 0) :
    (avx2.combineOne xs codes acc).get lane = acc.get lane ↔ acc.get lane ≠ .negZero := by
  rw [avx2_get_combineOne, if_neg other]
  constructor
  · intro kept negative
    exact Single.clearZeroSign_ne_negZero _ (kept.trans negative)
  · exact Single.clearZeroSign_of_ne

end Backend

/--
The exact condition for bit-identical sums.  A step of the tail leaves lanes
one to seven untouched in the portable backend, and in the vector backend
unless they are negative zeros; so the sums of a row are the same bits exactly
when no tail follows or some lane sum is not a negative zero.
-/
theorem Task.Covers.sums_eq_iff {task : Task} {fusion : Nat} {start : Address}
    {sum : Array Single} (covers : task.Covers fusion start sum.size) :
    (∀ xs codes acc, ∀ lane : Fin 8, lane ≠ 0 →
      (Backend.portable.combineOne xs codes acc).get lane = acc.get lane ∧
      ((Backend.avx2.combineOne xs codes acc).get lane = acc.get lane ↔
        acc.get lane ≠ .negZero)) ∧
    ∃ portable avx2,
      sumsAfter (Backend.portable.fused fusion task start) sum = some portable ∧
      sumsAfter (Backend.avx2.fused fusion task start) sum = some avx2 ∧
      ∀ row < fusion, ∃ p a, portable[row]? = some p ∧ avx2[row]? = some a ∧
        (p = a ↔ task.length % 8 = 0 ∨ task.KeepsSign start row) ∧
        (p ≠ a → p = .negZero ∧ a = .zero) := by
  constructor
  · intro xs codes acc lane other
    constructor
    · rw [Backend.portable_get_combineOne, if_neg other]
    · exact Backend.avx2_combineOne_keeps_iff xs codes acc other
  obtain ⟨portable, ranPortable, -, portableSums⟩ := covers.exists_fused_sums Backend.portable
  obtain ⟨avx2, ranVector, -, vectorSums⟩ := covers.exists_fused_sums Backend.avx2
  refine ⟨portable, avx2, ranPortable, ranVector, ?_⟩
  intro row isRow
  refine ⟨_, _, portableSums row isRow, vectorSums row isRow, ?_, ?_⟩
  · rw [Backend.rowSum_eq_iff, task.keepsSign_iff]
  · intro differ
    have cleared := Backend.rowSum_clearsTo task.single (task.codeAt start row) task.length
    rcases cleared.eq_or with same | signs
    · exact absurd same.symm differ
    · exact signs

/-- The tiny products keep no sign, so their two sums are different bits. -/
theorem Task.Covers.sums_eq_iff_tinyProducts :
    ∃ portable avx2,
      sumsAfter (Backend.portable.fused 1 tinyProducts tinyProducts.y.origin) #[.one] =
        some portable ∧
      sumsAfter (Backend.avx2.fused 1 tinyProducts tinyProducts.y.origin) #[.one] = some avx2 ∧
      ∃ p a, portable[0]? = some p ∧ avx2[0]? = some a ∧ p ≠ a := by
  have covers : tinyProducts.Covers 1 tinyProducts.y.origin (#[.one] : Array Single).size := by
    decide
  obtain ⟨-, portable, avx2, ranPortable, ranVector, related⟩ := Task.Covers.sums_eq_iff covers
  obtain ⟨p, a, atPortable, atVector, same, -⟩ := related 0 (by decide)
  have signs : ¬ (tinyProducts.length % 8 = 0 ∨
      tinyProducts.KeepsSign tinyProducts.y.origin 0) := by decide +kernel
  exact ⟨portable, avx2, ranPortable, ranVector, p, a, atPortable, atVector, signs ∘ same.mp⟩

/-- Bit-identical sums are not a law of the two backends: the tiny products break it. -/
theorem not_forall_sums_eq :
    ¬ ∀ (fusion : Nat) (task : Task) (sum portable avx2 : Array Single), 1 ≤ fusion → fusion ≤ 8 →
      task.Covers fusion task.y.origin sum.size →
      sumsAfter (Backend.portable.fused fusion task task.y.origin) sum = some portable →
      sumsAfter (Backend.avx2.fused fusion task task.y.origin) sum = some avx2 →
      ∀ row < fusion, portable[row]? = avx2[row]? := by
  intro law
  have portable : sumsAfter (Backend.portable.fused 1 tinyProducts tinyProducts.y.origin) #[.one] =
      some #[.negZero] := by decide +kernel
  have avx2 : sumsAfter (Backend.avx2.fused 1 tinyProducts tinyProducts.y.origin) #[.one] =
      some #[.zero] := by decide +kernel
  have same := law 1 tinyProducts #[.one] _ _ (by decide) (by decide) (by decide) portable avx2 0
    (by decide)
  exact absurd same (by decide)

end LaneDot

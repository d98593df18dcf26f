import LaneDot.Proofs.Kernel.Confinement
import LaneDot.Proofs.Kernel.Fusion

/-!
# Rows at every stride

Doubling the stride wraps, scaling it to bytes wraps, and every step from row
to row wraps again.  All of it is reduction modulo the address space, so a row
begins at the address that unbounded arithmetic gives, read around the address
space: a signed number of codes away from the first row.  Strides that give the
same distance in bytes give the same kernel, and one row needs no stride.
-/

namespace LaneDot

/-- The index of an address counts codes around the address space. -/
theorem CodeBuffer.index_address (buffer : CodeBuffer) (index : Nat) :
    buffer.index (buffer.address index) = index % 2 ^ 63 := by
  have bytes : (codeBytes index).toNat = 2 * index % 2 ^ 64 := UInt64.toNat_ofNat'
  rw [CodeBuffer.index, CodeBuffer.address, UInt64.add_comm, UInt64.add_sub_cancel, bytes]
  omega

namespace Task

variable {task : Task} {fusion : Nat} {start : Address}

/-! ## Where a row begins -/

/-- The wrapping steps to a row add up to four bytes a row for each unit of the stride. -/
theorem toNat_cursor_zero (task : Task) (start : Address) (row : Nat) :
    (start + .ofNat row * task.rowBytes).toNat =
      (start.toNat + 4 * task.stride.toNat * row) % 2 ^ 64 := by
  have steps : (UInt64.ofNat row * task.rowBytes).toNat = 4 * task.stride.toNat * row % 2 ^ 64 := by
    rw [UInt64.toNat_mul, UInt64.toNat_ofNat', toNat_rowBytes, ← Nat.mul_mod, Nat.mul_comm]
  rw [UInt64.toNat_add, steps, Nat.add_mod_mod]

/-- The offsets in codes that lead to a row are those that lead to its address in bytes. -/
theorem toNat_cursor_zero_eq_iff (task : Task) (start : Address) (row : Nat) (offset : ℤ) :
    ((start + .ofNat row * task.rowBytes).toNat : ℤ) = (start.toNat + 2 * offset) % 2 ^ 64 ↔
      offset ≡ 2 * task.stride.toNat * row [ZMOD 2 ^ 63] := by
  have bytes : 4 * (task.stride.toNat : ℤ) * row = 2 * (2 * task.stride.toNat * row) := by ring
  rw [toNat_cursor_zero, Int.ModEq]
  push_cast
  rw [bytes]
  generalize 2 * (task.stride.toNat : ℤ) * row = codes
  omega

/-- The codes from the first row to a row: of all offsets that lead there, the signed one. -/
structure Displaces (task : Task) (row : Nat) (offset : ℤ) : Prop where
  least : -2 ^ 62 ≤ offset
  greatest : offset < 2 ^ 62
  congruent : offset ≡ 2 * task.stride.toNat * row [ZMOD 2 ^ 63]

theorem Displaces.unique {row : Nat} {offset other : ℤ} (first : task.Displaces row offset)
    (second : task.Displaces row other) : offset = other := by
  obtain ⟨above, below, congruent⟩ := first
  obtain ⟨otherAbove, otherBelow, otherCongruent⟩ := second
  have same : offset % 2 ^ 63 = other % 2 ^ 63 := congruent.trans otherCongruent.symm
  omega

theorem existsUnique_displaces (task : Task) (row : Nat) : ∃! offset, task.Displaces row offset := by
  have least := Int.le_bmod (x := 2 * task.stride.toNat * row) (Nat.two_pow_pos 63)
  have greatest := Int.bmod_lt (x := 2 * task.stride.toNat * row) (Nat.two_pow_pos 63)
  have displaces : task.Displaces row (Int.bmod (2 * task.stride.toNat * row) (2 ^ 63)) :=
    ⟨least, greatest, Int.bmod_emod⟩
  exact ⟨_, displaces, fun _ other => other.unique displaces⟩

/-- A row whose first code is in the buffer begins where its offset leads. -/
theorem Displaces.rowStart_eq {base row : Nat} {offset : ℤ} (displaces : task.Displaces row offset)
    (addressable : 2 * task.y.codes.size ≤ addressSpace) (after : 0 ≤ base + offset)
    (inside : base + offset < task.y.codes.size) :
    (task.rowStart (task.y.address base) row : ℤ) = base + offset := by
  have congruent := displaces.congruent
  rw [addressSpace_eq] at addressable
  rw [Int.ModEq] at congruent
  rw [rowStart, address_add_rowBytes, CodeBuffer.index_address]
  push_cast
  generalize 2 * (task.stride.toNat : ℤ) * row = codes at congruent ⊢
  omega

/-! ## Offsets of the check -/

/-- An offset that the check computes displaces its row if it is below the half-way mark. -/
theorem displaces_of_rowOffset? {row offset : Nat}
    (computed : rowOffset? task.stride row = some offset) (small : offset < 2 ^ 62) :
    task.Displaces row offset := by
  rw [rowOffset?_eq_fitting?, fitting?, Option.ite_none_right_eq_some] at computed
  obtain ⟨-, same⟩ := computed
  obtain rfl := Option.some.inj same
  refine ⟨by omega, by omega, ?_⟩
  push_cast
  exact Int.ModEq.refl _

/-- The check of a slice only accepts rows with small offsets. -/
theorem Accepted.exists_rowOffset? {sums : Nat} (accepted : task.Accepted fusion sums)
    (slice : 2 * task.y.codes.size < 2 ^ 63) (nonempty : 0 < task.length) {row : Nat}
    (isRow : row < fusion) :
    ∃ offset : Nat, rowOffset? task.stride row = some offset ∧ offset < 2 ^ 62 ∧
      task.rowStart task.y.origin row = offset := by
  have addressable : 2 * task.y.codes.size ≤ addressSpace := by
    rw [addressSpace_eq]
    omega
  have covered := accepted.rows nonempty row isRow
  have placed := accepted.rowStart_eq addressable nonempty isRow
  have small : task.rowOffset row < 2 ^ 62 := by omega
  have fits : task.rowOffset row < addressSpace := by
    rw [addressSpace_eq]
    omega
  exact ⟨task.rowOffset row, (rowOffset?_eq_fitting? _ _).trans (fitting?_of_lt fits), small, placed⟩

/-! ## Kernels at other strides -/

theorem sweep_withStride {Acc : Type} (task : Task) (stride : UInt64) {width : Nat}
    (combine : Lanes width → Vector Code width → Acc → Acc) (steps offset : Nat)
    (rows : List (Row Acc)) :
    sweep (task.withStride stride) width combine steps offset rows =
      sweep task width combine steps offset rows := by
  induction steps generalizing offset rows with
  | zero => rfl
  | succ steps ih =>
      simp only [sweep, ih]
      rfl

/-- The fused kernel sees the stride in the starts of its rows only. -/
theorem fused_withStride {stride : UInt64} (backend : Backend)
    (rows : Row.chain (Lanes.zero : Lanes 8) (task.withStride stride).rowBytes fusion 0 start =
      Row.chain Lanes.zero task.rowBytes fusion 0 start) :
    backend.fused fusion (task.withStride stride) start = backend.fused fusion task start := by
  simp only [Backend.fused, rows, sweep_withStride]
  rfl

theorem chain_one {Acc : Type} (acc : Acc) (rowBytes : Address) (index : Nat) (cursor : Address) :
    Row.chain acc rowBytes 1 index cursor = [⟨index, cursor, acc⟩] := rfl

theorem fused_one_withStride (task : Task) (stride : UInt64) (backend : Backend) (start : Address) :
    backend.fused 1 (task.withStride stride) start = backend.fused 1 task start := by
  refine fused_withStride backend ?_
  rw [chain_one, chain_one]

/-- A quarter of the address space more for the stride moves no row. -/
theorem rowBytes_wrap (task : Task) :
    (task.withStride (task.stride + 0x4000000000000000)).rowBytes = task.rowBytes := by
  have bound := task.stride.toNat_lt
  have moved : (task.stride + 0x4000000000000000).toNat =
      (task.stride.toNat + 0x4000000000000000) % 2 ^ 64 := UInt64.toNat_add _ _
  rw [← UInt64.toNat_inj, toNat_rowBytes, toNat_rowBytes]
  change 4 * (task.stride + 0x4000000000000000).toNat % 2 ^ 64 = _
  rw [moved]
  omega

theorem fused_wrap (task : Task) (backend : Backend) (fusion : Nat) (start : Address) :
    backend.fused fusion (task.withStride (task.stride + 0x4000000000000000)) start =
      backend.fused fusion task start := by
  refine fused_withStride backend ?_
  rw [rowBytes_wrap]

/-! ## Placement -/

/--
Rows at every stride.  The chain of wrapping steps puts each row four bytes
times stride times row after the first, modulo the address space; in codes this
is any offset congruent to twice the stride times the row, of which exactly one
lies within half of the address space, and a row that begins inside the buffer
begins that many codes on.  So both fused kernels are the same at two strides
a quarter of the address space apart, and on one row at all strides.  The
offset of the check, where it is below `2 ^ 62`, is the offset of the row; this
holds for every row of an accepted task on a slice.
-/
theorem rows_placed (task : Task) (start : Address) :
    (∀ {Acc : Type} (acc : Acc) (fusion row : Nat), row < fusion →
      ∃ address : Address,
        (Row.chain acc task.rowBytes fusion 0 start)[row]?.map Row.cursor = some address ∧
        address.toNat = (start.toNat + 4 * task.stride.toNat * row) % 2 ^ 64 ∧
        ∀ offset : ℤ, (address.toNat : ℤ) = (start.toNat + 2 * offset) % 2 ^ 64 ↔
          offset ≡ 2 * task.stride.toNat * row [ZMOD 2 ^ 63]) ∧
    (∀ row, ∃! offset, task.Displaces row offset) ∧
    (∀ base row : Nat, ∀ offset : ℤ, 2 * task.y.codes.size ≤ addressSpace →
      task.Displaces row offset → 0 ≤ base + offset → base + offset < task.y.codes.size →
        (task.rowStart (task.y.address base) row : ℤ) = base + offset) ∧
    (∀ (level : Level) (fusion : Nat),
      level.backend.fused fusion (task.withStride (task.stride + 0x4000000000000000)) start =
        level.backend.fused fusion task start ∧
      ∀ sum : Array Single, task.Covers fusion start sum.size →
        ∃ sums, sumsAfter (level.backend.fused fusion task start) sum = some sums) ∧
    (∀ (level : Level) (stride : UInt64),
      level.backend.fused 1 (task.withStride stride) start = level.backend.fused 1 task start) ∧
    (∀ row offset : Nat, rowOffset? task.stride row = some offset → offset < 2 ^ 62 →
      task.Displaces row offset) ∧
    (∀ fusion sums row : Nat, 2 * task.y.codes.size < 2 ^ 63 → 0 < task.length →
      (task.extents fusion sums).check = .ok () → row < fusion →
        ∃ offset : Nat, rowOffset? task.stride row = some offset ∧ offset < 2 ^ 62 ∧
          task.rowStart task.y.origin row = offset) := by
  refine ⟨?_, task.existsUnique_displaces, ?_, ?_, ?_, ?_, ?_⟩
  · intro Acc acc fusion row isRow
    refine ⟨_, ?_, task.toNat_cursor_zero start row, task.toNat_cursor_zero_eq_iff start row⟩
    rw [Row.getElem?_chain acc task.rowBytes fusion 0 start row isRow, Option.map_some]
  · exact fun base row offset addressable displaces after inside =>
      displaces.rowStart_eq addressable after inside
  · intro level fusion
    refine ⟨task.fused_wrap level.backend fusion start, fun sum covers => ?_⟩
    obtain ⟨sums, ran, -⟩ := covers.exists_fused_sums level.backend
    exact ⟨sums, ran⟩
  · exact fun level stride => task.fused_one_withStride stride level.backend start
  · exact fun row offset => displaces_of_rowOffset?
  · intro fusion sums row slice nonempty passes isRow
    have addressable : 2 * task.y.codes.size ≤ addressSpace := by
      rw [addressSpace_eq]
      omega
    exact (accepted_of_check addressable passes).exists_rowOffset? slice nonempty isRow

/-- Rows of ones, each of them two codes before the one that it follows. -/
def steppingBack : Task where
  x := Array.replicate 9 .one
  y := ⟨Array.replicate 13 .one, 0⟩
  stride := 0xFFFFFFFFFFFFFFFF
  length := 9

/-- The third row lies four codes back, also a quarter of the address space further on. -/
theorem rows_placed_steppingBack :
    (∃ address : Address, (Row.chain Single.zero steppingBack.rowBytes 3 0 8)[2]?.map Row.cursor =
      some address ∧ address.toNat = 0) ∧
    steppingBack.Displaces 2 (-4) ∧ (steppingBack.rowStart (steppingBack.y.address 4) 2 : ℤ) = 0 ∧
    (∃ sums, sumsAfter (Backend.avx2.fused 3 (steppingBack.withStride 0x3FFFFFFFFFFFFFFF) 8)
      #[.half, .half, .half] = some sums) ∧
    unitProducts.Displaces 1 6 ∧
    ∃ offset : Nat, rowOffset? unitProducts.stride 1 = some offset ∧ offset < 2 ^ 62 ∧
      unitProducts.rowStart unitProducts.y.origin 1 = offset := by
  have displaces : steppingBack.Displaces 2 (-4) := ⟨by decide, by decide, by decide⟩
  have covers : steppingBack.Covers 3 8 (#[.half, .half, .half] : Array Single).size := by decide
  obtain ⟨chain, -, places, wraps, -, -, -⟩ := rows_placed steppingBack 8
  obtain ⟨-, -, -, -, -, offsets, accepts⟩ := rows_placed unitProducts 0
  obtain ⟨address, cursor, bytes, -⟩ := chain Single.zero 3 2 (by decide)
  obtain ⟨same, sums⟩ := wraps .avx2 3
  obtain ⟨sums, ran⟩ := sums _ covers
  have stride : steppingBack.stride + 0x4000000000000000 = 0x3FFFFFFFFFFFFFFF := by decide
  rw [← same, stride] at ran
  exact ⟨⟨address, cursor, bytes.trans (by decide)⟩, displaces,
    places 4 2 (-4) (by decide) displaces (by decide) (by decide), ⟨sums, ran⟩,
    offsets 1 6 (by decide) (by decide), accepts 2 2 1 (by decide) (by decide) (by rfl) (by decide)⟩

end Task

end LaneDot

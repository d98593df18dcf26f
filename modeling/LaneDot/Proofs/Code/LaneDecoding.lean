import LaneDot.Backend
import LaneDot.Proofs.Code.Decoding

/-!
# Decoding lane by lane

Decoding several codes at once decodes each of them: neither the lane arrays
nor the vector registers let one code reach another code's lane, and a register
lane of zero bits decodes to positive zero.
-/

namespace LaneDot

/-! ## Views of the vector operations -/

namespace Layout

variable {α β : Type}

theorem map_join (f : α → β) (lower upper : Vector α 4) :
    (join lower upper).map f = join (lower.map f) (upper.map f) := by
  simp [join]

theorem map_low (f : α → β) (v : Vector α 8) : (low v).map f = low (v.map f) := by
  simp [low]

theorem ext_four {first second : Vector α 4}
    (same : ∀ lane : Fin 4, first.get lane = second.get lane) : first = second :=
  Vector.ext fun place inside => same ⟨place, inside⟩

theorem low_join (lower upper : Vector α 4) : low (join lower upper) = lower := by
  apply ext_four
  intro lane
  fin_cases lane <;> rfl

theorem evens_interleave (first second : Vector α 4) : evens (interleave first second) = first := by
  apply ext_four
  intro lane
  fin_cases lane <;> rfl

theorem odds_interleave (first second : Vector α 4) : odds (interleave first second) = second := by
  apply ext_four
  intro lane
  fin_cases lane <;> rfl

theorem low_replicate (value : α) : low (Vector.replicate 8 value) = Vector.replicate 4 value := by
  apply ext_four
  intro lane
  fin_cases lane <;> rfl

end Layout

namespace Code

/-! ## Lane arrays -/

theorem decodeLanes_eq_map {width : Nat} (codes : Vector Code width) :
    decodeLanes codes = codes.map decode := by
  apply Vector.ext
  intro lane inside
  simp [decodeLanes, decode, Vector.get]

theorem decodeHalves_eq_map (codes : Vector Code 8) : decodeHalves codes = codes.map decode := by
  rw [decodeHalves, decodeLanes_eq_map, decodeLanes_eq_map, ← Layout.map_join, Layout.join_low_high]

end Code

theorem Code.decode_zero : Code.zero.decode = .zero := by
  have units : Code.zero.units = 0 := rfl
  have sign : Code.zero.isNegative = false := rfl
  have magnitude : Magnitude.units ⟨0, by decide⟩ = 0 := rfl
  refine Exact.ofSingle_injective ?_
  rw [ofSingle_decode, exact, units, sign, Single.zero, Exact.ofSingle, magnitude,
    Nat.zero_shiftLeft, Nat.zero_shiftLeft]

/-! ## Vector registers -/

/-- The fields of a widened lane are far below the sign bit, so the signed comparison is exact. -/
theorem Code.shiftFields_toInt32_lt_iff (code : Code) :
    (shiftFields (widen code.bits)).toInt32 < subnormalCutoff.toInt32 ↔ code.exponentField = 0 := by
  have exponent := code.exponentField_lt
  have mantissa := code.mantissaField_lt
  have fields := code.toNat_shiftFields_widen
  have unsigned : (shiftFields (widen code.bits)).toInt32.toInt =
      ((shiftFields (widen code.bits)).toNat : Int) :=
    BitVec.toInt_eq_toNat_of_lt (by
      change 2 * (shiftFields (widen code.bits)).toNat < 2 ^ 32
      omega)
  have cutoff : subnormalCutoff.toInt32.toInt = 0x800000 := rfl
  rw [Int32.lt_iff_toInt_lt, unsigned, cutoff, fields]
  omega

namespace WordRegister

theorem toDoubles_interleaveLow (first second : WordRegister) :
    (first.interleaveLow second).toDoubles =
      Vector.zipWith (fun lower upper => lower.toUInt32 ||| Code.widen upper)
        (Layout.low first) (Layout.low second) := by
  rw [toDoubles, interleaveLow, Layout.evens_interleave, Layout.odds_interleave]

/-- What the register decoder computes in one lane from the word of that lane. -/
def decodeLane (word : UInt16) : Single :=
  let widened := (0 : UInt16).toUInt32 ||| Code.widen word
  let shifted := (widened + widened) >>> 4
  let raw := (word + word).toUInt32 ||| Code.widen Code.magicMask
  let subnormal := ((Single.ofBits raw).sub (.ofBits Single.quarter.toBits)).toBits
  let mask : UInt32 := if shifted.toInt32 < Code.subnormalCutoff.toInt32 then 0xFFFFFFFF else 0
  let nonsign := if mask &&& 0x80000000 ≠ 0 then subnormal else shifted + Code.exponentOffset
  .ofBits (nonsign ||| widened &&& Code.signMask)

/-- A lane of the low half of a register depends on its own word only. -/
theorem decodeLow_eq_map (words : WordRegister) :
    words.decodeLow = (Layout.low words).map decodeLane := by
  apply Layout.ext_four
  intro lane
  simp [decodeLow, toDoubles_interleaveLow, decodeLane, DoubleRegister.and, DoubleRegister.add,
    DoubleRegister.or, DoubleRegister.shiftRight, DoubleRegister.greaterThan, DoubleRegister.blend,
    DoubleRegister.subSingles, DoubleRegister.toSingles, DoubleRegister.splat, splat, zero, add,
    Vector.get_eq_getElem, ← Layout.map_low, Layout.low_replicate]

/-- The signed comparison and the blend of the registers pick the same candidate as the masks. -/
theorem decodeLane_eq_decode (code : Code) : decodeLane code.bits = code.decode := by
  have empty : (0 : UInt16).toUInt32 = 0 := rfl
  have fields : (Code.widen code.bits + Code.widen code.bits) >>> 4 =
      Code.shiftFields (Code.widen code.bits) := rfl
  unfold decodeLane Code.decode
  dsimp only
  rw [empty, UInt32.zero_or, fields, Single.ofBits_toBits, UInt32.or_comm (_ : UInt16).toUInt32]
  by_cases least : code.exponentField = 0
  · rw [Code.subnormalMask_of_subnormal least, Code.pick_set,
      if_pos (code.shiftFields_toInt32_lt_iff.mpr least), if_pos (by decide)]
    rfl
  · rw [Code.subnormalMask_of_normal least, Code.pick_clear,
      if_neg (fun small => least (code.shiftFields_toInt32_lt_iff.mp small)), if_neg (by decide)]

theorem decode_eq_map (words : WordRegister) :
    words.decode = words.map fun word => (Code.mk word).decode := by
  have lane : decodeLane = fun word => (Code.mk word).decode :=
    funext fun word => decodeLane_eq_decode ⟨word⟩
  rw [decode, decodeLow_eq_map, decodeLow_eq_map, duplicateLow, duplicateHigh, Layout.low_join,
    Layout.low_join, ← Layout.map_join, Layout.join_low_high, lane]

theorem decode_ofCodes (codes : Vector Code 8) : (ofCodes codes).decode = codes.map Code.decode := by
  rw [decode_eq_map, ofCodes, Vector.map_map]
  rfl

theorem decodeLow_ofLowCodes (codes : Vector Code 4) :
    (ofLowCodes codes).decodeLow = codes.map Code.decode := by
  rw [decodeLow_eq_map, ofLowCodes, Layout.low_join, Vector.map_map]
  exact congrArg (Vector.map · codes) (funext decodeLane_eq_decode)

/-- A lone code fills the lowest lane, and the lanes of zero bits decode to positive zero. -/
theorem decode_ofCode (code : Code) : (ofCode code).decode = Lanes.first code.decode := by
  have empty : (Code.mk 0).decode = .zero := Code.decode_zero
  rw [decode_eq_map]
  simp [ofCode, Lanes.first, empty]

end WordRegister

end LaneDot

import LaneDot.Conversion
import LaneDot.Proofs.Dispatch
import LaneDot.Proofs.Kernel.LaneSum
import LaneDot.Proofs.Single.Value

/-!
# Conversions are exact and blind to chunks

Converting some chunks replaces the range of indices they cover by the values
of the codes at the same indices, and adjacent ranges join.  A conversion
covers the range from zero to its count, so neither the backend nor the place
where chunks of eight, four and one meet shows in its result.
-/

namespace LaneDot

/-! ## Converted ranges -/

def convertRange (source : Array Code) (target : Array Single) (first last : Nat) : Array Single :=
  target.mapIdx fun index old => if first ≤ index ∧ index < last then source[index]!.value else old

section

variable {source other : Array Code} {target rest : Array Single} {first middle last index : Nat}

theorem size_convertRange (source : Array Code) (target : Array Single) (first last : Nat) :
    (convertRange source target first last).size = target.size := by
  simp [convertRange]

theorem getElem?_convertRange (lower : first ≤ index) (upper : index < last) :
    (convertRange source target first last)[index]? =
      target[index]?.map fun _ => source[index]!.value := by
  simp [convertRange, lower, upper]

theorem getElem?_convertRange_of_not (outside : ¬ (first ≤ index ∧ index < last)) :
    (convertRange source target first last)[index]? = target[index]? := by
  rw [convertRange, Array.getElem?_mapIdx]
  simp only [if_neg outside, Option.map_id']

theorem convertRange_self (source : Array Code) (target : Array Single) (index : Nat) :
    convertRange source target index index = target := by
  apply Array.ext_getElem?
  intro place
  exact getElem?_convertRange_of_not (by omega)

/-- Converting adjacent ranges one after the other converts the range they make up. -/
theorem convertRange_convertRange (lower : first ≤ middle) (upper : middle ≤ last) :
    convertRange source (convertRange source target first middle) middle last =
      convertRange source target first last := by
  apply Array.ext_getElem?
  intro index
  rcases Nat.lt_or_ge index first with before | from_first
  · rw [getElem?_convertRange_of_not (by omega), getElem?_convertRange_of_not (by omega),
      getElem?_convertRange_of_not (by omega)]
  rcases Nat.lt_or_ge index middle with left | right
  · rw [getElem?_convertRange_of_not (by omega), getElem?_convertRange from_first left,
      getElem?_convertRange from_first (by omega)]
  rcases Nat.lt_or_ge index last with inside | after
  · rw [getElem?_convertRange right inside, getElem?_convertRange_of_not (by omega),
      getElem?_convertRange from_first inside]
  · rw [getElem?_convertRange_of_not (by omega), getElem?_convertRange_of_not (by omega),
      getElem?_convertRange_of_not (by omega)]

theorem convertRange_append (sizes : target.size = source.size) :
    convertRange (source ++ other) (target ++ rest) 0 (source.size + last) =
      convertRange source target 0 source.size ++ convertRange other rest 0 last := by
  apply Array.ext_getElem?
  intro index
  rw [Array.getElem?_append, size_convertRange, sizes]
  rcases Nat.lt_or_ge index source.size with left | right
  · have code : (source ++ other)[index]! = source[index]! := by
      simp only [getElem!_def, Array.getElem?_append_left left]
    rw [if_pos left, getElem?_convertRange index.zero_le (by omega),
      getElem?_convertRange index.zero_le left, Array.getElem?_append_left (by omega), code]
  rw [if_neg (Nat.not_lt.mpr right)]
  rcases Nat.lt_or_ge (index - source.size) last with inside | after
  · have code : (source ++ other)[index]! = other[index - source.size]! := by
      simp only [getElem!_def, Array.getElem?_append_right right]
    rw [getElem?_convertRange index.zero_le (by omega), getElem?_convertRange (Nat.zero_le _) inside,
      Array.getElem?_append_right (by omega), sizes, code]
  · rw [getElem?_convertRange_of_not (by omega), getElem?_convertRange_of_not (by omega),
      Array.getElem?_append_right (by omega), sizes]

/-! ## Chunks -/

theorem loadCodes_apply {width : Nat} (inside : index + width ≤ source.size) (target : Array Single) :
    loadCodes source index width target = some (window (source[·]!) index width, target) := by
  have values : (Vector.ofFn fun lane : Fin width => source[index + lane.val]) =
      window (source[·]!) index width := by
    apply Vector.ext
    intro lane below
    rw [window, Vector.getElem_ofFn, Vector.getElem_ofFn, getElem!_pos]
  rw [loadCodes, dif_pos inside, values]

/-- Replaced elements lie at the indices from the start on, and the others are kept. -/
theorem exists_overwrite? {α : Type} {buffer values : Array α} {start : Nat}
    (room : start + values.size ≤ buffer.size) :
    ∃ stored, overwrite? buffer start values = some stored ∧
      ∀ index, stored[index]? =
        if start ≤ index ∧ index < start + values.size then values[index - start]?
        else buffer[index]? := by
  refine ⟨_, if_pos room, ?_⟩
  intro index
  have front : (buffer.extract 0 start).size = start := by
    rw [Array.size_extract]
    omega
  rw [Array.append_assoc, Array.getElem?_append, front]
  rcases Nat.lt_or_ge index start with before | from_start
  · rw [if_pos before, if_neg (by omega), Array.getElem?_extract, if_pos (by omega), Nat.zero_add]
  rw [if_neg (by omega), Array.getElem?_append]
  rcases Nat.lt_or_ge index (start + values.size) with inside | after
  · rw [if_pos (by omega), if_pos ⟨from_start, inside⟩]
  have place : start + values.size + (index - start - values.size) = index := by omega
  rw [if_neg (by omega), if_neg (by omega), Array.getElem?_extract, place]
  split_ifs with within
  · rfl
  · exact (Array.getElem?_eq_none (by omega)).symm

theorem storeSingles_apply {width : Nat} (room : index + width ≤ target.size) :
    storeSingles index ((window (source[·]!) index width).map Code.value) target =
      some ((), convertRange source target index (index + width)) := by
  obtain ⟨stored, written, elements⟩ := @exists_overwrite? Single target
    ((window (source[·]!) index width).map Code.value).toArray index (by simpa using room)
  have same : stored = convertRange source target index (index + width) := by
    apply Array.ext_getElem?
    intro place
    rw [elements, Vector.size_toArray]
    split_ifs with inside
    · obtain ⟨lower, upper⟩ := inside
      have lane : place - index < width := by omega
      have within : place < target.size := by omega
      have same : index + (place - index) = place := by omega
      rw [getElem?_convertRange lower upper, Vector.getElem?_toArray, Vector.getElem?_map]
      simp [window, lane, within, same]
    · rw [getElem?_convertRange_of_not inside]
  rw [storeSingles, written, same]
  rfl

def DecodesLanes {width : Nat} (decode : Vector Code width → Lanes width) : Prop :=
  ∀ codes, decode codes = codes.map Code.value

variable {width : Nat} {decode : Vector Code width → Lanes width}

theorem DecodesLanes.convertChunk_apply (decodes : DecodesLanes decode)
    (codes : index + width ≤ source.size) (room : index + width ≤ target.size) :
    convertChunk source decode index target =
      some ((), convertRange source target index (index + width)) := by
  rw [convertChunk, bind_of_some (loadCodes_apply codes target), decodes]
  exact storeSingles_apply room

/-- A lone chunk converts the range up to the index reached. -/
theorem DecodesLanes.convertLoneChunk_apply (decodes : DecodesLanes decode) {count : Nat}
    (codes : count ≤ source.size) (room : count ≤ target.size) (start : index ≤ count) :
    ∃ reached, index ≤ reached ∧ reached ≤ count ∧
      convertLoneChunk source decode count index target =
        some (reached, convertRange source target index reached) := by
  by_cases fits : index + width ≤ count
  · have chunk := decodes.convertChunk_apply (fits.trans codes) (fits.trans room)
    refine ⟨index + width, Nat.le_add_right index width, fits, ?_⟩
    rw [convertLoneChunk, if_pos fits, bind_of_some chunk]
    rfl
  · refine ⟨index, le_rfl, start, ?_⟩
    rw [convertLoneChunk, if_neg fits, convertRange_self]
    rfl

/-- Chunks convert the range up to the index reached, which is less than a chunk from the count. -/
theorem DecodesLanes.convertChunks_apply {extra : Nat}
    {decode : Vector Code (extra + 1) → Lanes (extra + 1)} (decodes : DecodesLanes decode) {count : Nat}
    (codes : count ≤ source.size) (room : count ≤ target.size) (start : index ≤ count) :
    ∃ reached, index ≤ reached ∧ reached ≤ count ∧ count < reached + (extra + 1) ∧
      convertChunks source decode count index target =
        some (reached, convertRange source target index reached) := by
  induction remaining : count - index using Nat.strong_induction_on generalizing index target with
  | _ remaining ih =>
      rw [convertChunks]
      by_cases fits : index + (extra + 1) ≤ count
      · -- the chunks after the first one start from the buffer that the first one leaves
        have chunk := decodes.convertChunk_apply (fits.trans codes) (fits.trans room)
        obtain ⟨reached, lower, upper, last, rest⟩ :=
          ih (count - (index + (extra + 1))) (by omega)
            (room.trans_eq (size_convertRange source target index (index + (extra + 1))).symm) fits rfl
        refine ⟨reached, by omega, upper, last, ?_⟩
        rw [if_pos fits, bind_of_some chunk, rest, convertRange_convertRange (by omega) lower]
      · refine ⟨index, le_rfl, start, by omega, ?_⟩
        rw [if_neg fits, convertRange_self]
        rfl

end

/-! ## The conversions of the backends -/

theorem decodesLanes_map {width : Nat} :
    DecodesLanes (Vector.map Code.decode : Vector Code width → Lanes width) := by
  intro codes
  rw [funext Code.decode_eq_value]

theorem Level.decodesLanes_wide (level : Level) : DecodesLanes level.backend.decodeWide := by
  cases level with
  | portable => exact Backend.portable_decodes
  | avx2 => exact Backend.avx2_decodes

theorem Level.decodesLanes_narrow (level : Level) : DecodesLanes level.backend.decodeNarrow := by
  intro codes
  rw [← decodesLanes_map codes]
  cases level with
  | portable => exact Code.decodeLanes_eq_map codes
  | avx2 => exact WordRegister.decodeLow_ofLowCodes codes

/-- A conversion converts the range from zero to its count, in whatever chunks. -/
theorem Level.convert_apply (level : Level) {source : Array Code} {target : Array Single}
    {count : Nat} (codes : count ≤ source.size) (room : count ≤ target.size) :
    level.backend.convert source count target = some ((), convertRange source target 0 count) := by
  have kept (index : Nat) : count ≤ (convertRange source target 0 index).size :=
    room.trans_eq (size_convertRange source target 0 index).symm
  obtain ⟨first, -, upper, -, wide⟩ :=
    level.decodesLanes_wide.convertChunks_apply codes room count.zero_le
  obtain ⟨second, later, inside, narrow⟩ :=
    level.decodesLanes_narrow.convertLoneChunk_apply codes (kept first) upper
  rw [convertRange_convertRange first.zero_le later] at narrow
  obtain ⟨last, final, most, least, ones⟩ :=
    (@decodesLanes_map 1).convertChunks_apply codes (kept second) inside
  obtain rfl : last = count := by omega
  rw [convertRange_convertRange second.zero_le final] at ones
  rw [Backend.convert, bind_of_some wide, bind_of_some narrow, bind_of_some ones]
  rfl

/-! ## Checked conversions -/

theorem targetLength_apply (target : Array Single) :
    targetLength target = some (target.size, target) :=
  rfl

/-- A checked conversion asks for the level once the lengths are found equal. -/
theorem checkedConvert_of_eq {source : Array Code} {target : Array Single}
    (sizes : source.size = target.size) (dispatch : Dispatch) :
    checkedConvert source dispatch target =
      some ((.ok (), dispatch.settle), convertRange source target 0 source.size) := by
  have converted := dispatch.level.convert_apply (Nat.le_refl source.size) sizes.le
  rw [checkedConvert, DispatchT.bind_of_some (DispatchT.lift_of_some (targetLength_apply target) _),
    if_pos sizes, DispatchT.bind_of_some (DispatchT.askLevel_eq_some dispatch target),
    DispatchT.bind_of_some (DispatchT.lift_of_some converted _)]
  rfl

theorem checkedConvert_of_ne {source : Array Code} {target : Array Single}
    (sizes : source.size ≠ target.size) (dispatch : Dispatch) :
    checkedConvert source dispatch target =
      some ((.error ⟨source.size, target.size⟩, dispatch), target) := by
  rw [checkedConvert, DispatchT.bind_of_some (DispatchT.lift_of_some (targetLength_apply target) _),
    if_neg sizes]
  rfl

/-! ## Exact widening -/

/-- A finite single with the sign bit of a code and exactly the magnitude that its fields give. -/
structure Code.Widens (code : Code) (single : Single) : Prop where
  finite : single.isFinite
  sign : single.toBits.toNat.testBit 31 = code.bits.toNat.testBit 15
  magnitude : |single.toReal| =
    if code.exponentField = 0 then (code.mantissaField : ℝ) * 2 ^ (-24 : ℤ)
    else (1024 + code.mantissaField : ℝ) * 2 ^ (code.exponentField - 25 : ℤ)

theorem Code.isNegative_eq_testBit (code : Code) : code.isNegative = code.bits.toNat.testBit 15 := by
  have bound := code.bits.toNat_lt
  rw [isNegative, Nat.testBit_eq_decide_div_mod_eq, decide_eq_decide]
  omega

theorem Single.testBit_toBits (negative : Bool) (magnitude : Magnitude) :
    (finite negative magnitude).toBits.toNat.testBit 31 = negative := by
  have bound : magnitude.val < 0x7F800000 := magnitude.isLt
  have bits : (finite negative magnitude).toBits.toNat =
      (signWeight negative + magnitude.val) % 2 ^ 32 := UInt32.toNat_ofNat'
  rw [bits, Nat.testBit_eq_decide_div_mod_eq]
  cases negative with
  | false =>
      have weight : signWeight false = 0 := rfl
      rw [weight, decide_eq_false_iff_not]
      omega
  | true =>
      have weight : signWeight true = 0x80000000 := rfl
      rw [weight, decide_eq_true_eq]
      omega

theorem Single.abs_toReal_finite (negative : Bool) (magnitude : Magnitude) :
    |(finite negative magnitude).toReal| = magnitude.units * 2 ^ (-149 : ℤ) := by
  have size : |(signed negative magnitude.units : ℝ)| = magnitude.units := by
    cases negative <;> simp [signed]
  have positive : (0 : ℝ) < 2 ^ (-149 : ℤ) := by positivity
  rw [toReal, abs_mul, size, abs_of_pos positive]

theorem Code.widens_value (code : Code) : code.Widens code.value := by
  obtain ⟨magnitude, units, decoded⟩ := code.exists_decode_eq
  rw [decode_eq_value] at decoded
  have scale : (2 : ℝ) ^ 125 * 2 ^ (-149 : ℤ) = 2 ^ (-24 : ℤ) := two_pow_mul_zpow rfl
  have size : |code.value.toReal| = code.units * 2 ^ (-24 : ℤ) := by
    rw [decoded, Single.abs_toReal_finite, units, Nat.cast_mul, Nat.cast_pow, Nat.cast_ofNat,
      mul_assoc, scale]
  refine ⟨by rw [decoded]; rfl, ?_, ?_⟩
  · rw [decoded, Single.testBit_toBits, isNegative_eq_testBit]
  · rw [size]
    split_ifs with least
    · rw [units_of_subnormal least]
    · have exponent : (code.exponentField - 25 : ℤ) = (code.exponentField - 1 : ℕ) + (-24) := by
        omega
      rw [units_of_normal least, exponent, zpow_add₀ two_ne_zero, zpow_natCast]
      push_cast
      ring

/-! ## What a conversion leaves -/

/-- The outcome of converting the first codes into a buffer: all of them widened, the rest kept. -/
structure Converts (source : Array Code) (target : Array Single) (count : Nat)
    (result : Array Single) : Prop where
  size : result.size = target.size
  widened : ∀ index < count, ∃ code single,
    source[index]? = some code ∧ result[index]? = some single ∧ code.Widens single
  kept : ∀ index, count ≤ index → result[index]? = target[index]?

theorem converts_convertRange {source : Array Code} {target : Array Single} {count : Nat}
    (codes : count ≤ source.size) (room : count ≤ target.size) :
    Converts source target count (convertRange source target 0 count) where
  size := size_convertRange source target 0 count
  widened index inside := by
    have code : index < source.size := Nat.lt_of_lt_of_le inside codes
    have place : index < target.size := Nat.lt_of_lt_of_le inside room
    refine ⟨source[index], source[index].value, Array.getElem?_eq_getElem code, ?_,
      source[index].widens_value⟩
    rw [getElem?_convertRange index.zero_le inside, Array.getElem?_eq_getElem place,
      getElem!_pos source index code]
    rfl
  kept index outside := getElem?_convertRange_of_not (by omega)

/--
Bulk conversion is exact and blind to chunks.  Both backends leave the same
buffer, in which exactly the first `count` singles are the widened codes.
Converting two pieces side by side is converting each of them.  A checked
conversion does this for whole buffers of equal length, whichever level it is
dispatched to, and otherwise reports both lengths and changes nothing.
-/
theorem conversion_exact :
    (∀ (source : Array Code) (target : Array Single) (count : Nat),
      count ≤ source.size → count ≤ target.size →
      ∃ result, (∀ level : Level, level.backend.convert source count target = some ((), result)) ∧
        Converts source target count result) ∧
    (∀ (level : Level) (first second : Array Code) (start rest : Array Single),
      start.size = first.size → second.size ≤ rest.size →
      ∃ left right, level.backend.convert first first.size start = some ((), left) ∧
        level.backend.convert second second.size rest = some ((), right) ∧
        level.backend.convert (first ++ second) (first.size + second.size) (start ++ rest) =
          some ((), left ++ right)) ∧
    (∀ (dispatch : Dispatch) (source : Array Code) (target : Array Single),
      source.size = target.size →
      ∃ result, (checkedConvert source).run' dispatch target = some (.ok (), result) ∧
        Converts source target source.size result) ∧
    ∀ (dispatch : Dispatch) (source : Array Code) (target : Array Single),
      source.size ≠ target.size → (checkedConvert source).run' dispatch target =
        some (.error ⟨source.size, target.size⟩, target) := by
  refine ⟨?_, ?_, ?_, ?_⟩
  · intro source target count codes room
    exact ⟨_, fun level => level.convert_apply codes room, converts_convertRange codes room⟩
  · intro level first second start rest sizes room
    have codes : first.size + second.size ≤ (first ++ second).size := by rw [Array.size_append]
    have both : first.size + second.size ≤ (start ++ rest).size := by
      rw [Array.size_append]
      omega
    refine ⟨_, _, level.convert_apply le_rfl sizes.ge, level.convert_apply le_rfl room, ?_⟩
    rw [level.convert_apply codes both, convertRange_append sizes]
  · intro dispatch source target sizes
    exact ⟨_, DispatchT.run'_of_some (checkedConvert_of_eq sizes dispatch),
      converts_convertRange le_rfl sizes.le⟩
  · intro dispatch source target sizes
    exact DispatchT.run'_of_some (checkedConvert_of_ne sizes dispatch)

/-- A subnormal code, the largest code and eleven more: chunks of eight, four and one. -/
def thirteenCodes : Array Code :=
  #[.minPositiveSubnormal, .max] ++ Array.replicate 11 .one

theorem conversion_exact_thirteenCodes :
    ∃ result,
      (∀ level : Level, level.backend.convert thirteenCodes 13 (Array.replicate 14 .half) =
        some ((), result)) ∧
      result.size = 14 ∧ result[13]? = some .half ∧
      ∃ single, result[1]? = some single ∧ Code.max.Widens single := by
  obtain ⟨result, ran, converts⟩ := conversion_exact.1 thirteenCodes (Array.replicate 14 .half) 13
    (by decide) (by decide)
  obtain ⟨code, single, read, written, widens⟩ := converts.widened 1 (by decide)
  obtain rfl : Code.max = code := Option.some.inj read
  exact ⟨result, ran, converts.size, converts.kept 13 (by decide), single, written, widens⟩

end LaneDot

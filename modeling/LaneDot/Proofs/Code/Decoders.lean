import LaneDot.Proofs.Code.Formula
import LaneDot.Proofs.Code.LaneDecoding
import LaneDot.Proofs.Kernel.LaneSum

/-!
# One value from every decoder

The formula of the format, the decoder of one code and the decoders of lanes and
registers all give a code the same single, whatever stands in the other lanes.
-/

namespace LaneDot

theorem Code.isFinite_decode (code : Code) : code.decode.isFinite := by
  obtain ⟨magnitude, -, decoded⟩ := code.exists_decode_eq
  rw [decoded]
  rfl

theorem Layout.get_low {α : Type} (v : Vector α 8) (lane : Fin 4) :
    (low v).get lane = v.get (lane.castAdd 4) := by
  fin_cases lane
  all_goals rfl

namespace WordRegister

def codes (words : WordRegister) : Vector Code 8 :=
  words.map Code.mk

theorem decode_eq_map_codes (words : WordRegister) : words.decode = words.codes.map Code.decode := by
  rw [decode_eq_map, codes, Vector.map_map]
  rfl

theorem decodeLow_eq_map_codes (words : WordRegister) :
    words.decodeLow = (Layout.low words.codes).map Code.decode := by
  have lane : decodeLane = Code.decode ∘ Code.mk :=
    funext fun word => decodeLane_eq_decode ⟨word⟩
  rw [decodeLow_eq_map, codes, ← Layout.map_low, Vector.map_map, lane]

end WordRegister

/-- Every decoder gives each code the one single that holds its value. -/
theorem decoders_agree :
    (∀ code : Code, code.decode.isFinite ∧ Exact.ofSingle code.decode = code.exact ∧
      code.formula = code.decode) ∧
    (∀ (width : Nat) (codes : Vector Code width) (lane : Fin width),
      (Code.decodeLanes codes).get lane = (codes.get lane).decode) ∧
    (∀ (words : WordRegister) (lane : Fin 8),
      words.decode.get lane = (words.codes.get lane).decode ∧
      (Code.decodeHalves words.codes).get lane = (words.codes.get lane).decode) ∧
    (∀ (words : WordRegister) (lane : Fin 4),
      words.decodeLow.get lane = (words.codes.get (lane.castAdd 4)).decode ∧
      (Code.decodeLanes (Layout.low words.codes)).get lane =
        (words.codes.get (lane.castAdd 4)).decode) ∧
    (∀ (code : Code) (lane : Fin 8), (WordRegister.ofCode code).decode.get lane =
      if lane = 0 then code.decode else .zero) := by
  refine ⟨fun code => ⟨code.isFinite_decode, code.ofSingle_decode, ?_⟩, fun _ codes lane => ?_,
    fun words lane => ⟨?_, ?_⟩, fun words lane => ⟨?_, ?_⟩, fun code lane => ?_⟩
  · rw [code.formula_eq_value, code.decode_eq_value]
  · rw [Code.decodeLanes_eq_map, Vector.get_map]
  · rw [words.decode_eq_map_codes, Vector.get_map]
  · rw [Code.decodeHalves_eq_map, Vector.get_map]
  · rw [words.decodeLow_eq_map_codes, Vector.get_map, Layout.get_low]
  · rw [Code.decodeLanes_eq_map, Vector.get_map, Layout.get_low]
  · rw [WordRegister.decode_ofCode]
    exact Lanes.get_first ..

end LaneDot

import LaneDot.Override
import LaneDot.Proofs.Text.Trim

/-!
# The grammar of overrides

An override is read by its core alone: the text between the white space at its
two ends.  The core is empty or one of four names, up to the case of ASCII
letters, and any other core is refused and reported as it is.  Case is a matter
of ASCII here, so a core with any other character names nothing, also where
other rules of case would lead to an ASCII letter.
-/

namespace LaneDot

namespace Text

/-! ## ASCII case -/

/-- An ASCII capital and its small letter, which lies 32 code points on. -/
structure IsCasePair (capital small : Char) : Prop where
  first : 'A'.toNat ≤ capital.toNat
  last : capital.toNat ≤ 'Z'.toNat
  apart : small.toNat = capital.toNat + 32

def SameLetter (c d : Char) : Prop :=
  c = d ∨ IsCasePair c d ∨ IsCasePair d c

def SameButCase : List Char → List Char → Prop :=
  List.Forall₂ SameLetter

/-- The two forms of a letter both lie among the code points from `A` to `z`. -/
theorem SameLetter.eq_or_between {c d : Char} (same : SameLetter c d) :
    c = d ∨ (65 ≤ c.toNat ∧ c.toNat ≤ 122) ∧ 65 ≤ d.toNat ∧ d.toNat ≤ 122 := by
  have first : 'A'.toNat = 65 := rfl
  have last : 'Z'.toNat = 90 := rfl
  rcases same with same | ⟨above, below, apart⟩ | ⟨above, below, apart⟩
  · exact .inl same
  · exact .inr (by omega)
  · exact .inr (by omega)

theorem toNat_toLower (c : Char) :
    c.toLower.toNat = if 65 ≤ c.toNat ∧ c.toNat ≤ 90 then c.toNat + 32 else c.toNat := by
  have capital : (c.val ≥ 'A'.val ∧ c.val ≤ 'Z'.val) ↔ (65 ≤ c.toNat ∧ c.toNat ≤ 90) := by
    rw [ge_iff_le, UInt32.le_iff_toNat_le, UInt32.le_iff_toNat_le]
    rfl
  unfold Char.toLower
  split_ifs with inRange isCapital isCapital
  · change (c.val + ('a'.val - 'A'.val)).toNat = c.val.toNat + 32
    have bound : c.val.toNat ≤ 90 := isCapital.2
    rw [UInt32.toNat_add, show ('a'.val - 'A'.val).toNat = 32 from rfl, Nat.mod_eq_of_lt]
    omega
  · exact absurd (capital.mp inRange) isCapital
  · exact absurd (capital.mpr isCapital) inRange
  · rfl

theorem toLower_eq_iff {c d : Char} : c.toLower = d.toLower ↔ SameLetter c d := by
  have first : 'A'.toNat = 65 := rfl
  have last : 'Z'.toNat = 90 := rfl
  rw [SameLetter, ← Char.toNat_inj, ← Char.toNat_inj, toNat_toLower, toNat_toLower]
  constructor
  · intro same
    by_cases equal : c.toNat = d.toNat
    · exact .inl equal
    · refine .inr ?_
      split_ifs at same with capital other other
      · omega
      · exact .inl ⟨by omega, by omega, by omega⟩
      · exact .inr ⟨by omega, by omega, by omega⟩
      · omega
  · rintro (same | ⟨above, below, apart⟩ | ⟨above, below, apart⟩)
    · rw [same]
    · split_ifs <;> omega
    · split_ifs <;> omega

theorem sameButCase_iff {text other : List Char} :
    SameButCase text other ↔ text.map Char.toLower = other.map Char.toLower := by
  rw [← List.forall₂_eq_eq_eq, List.forall₂_map_left_iff, List.forall₂_map_right_iff]
  simp only [toLower_eq_iff]
  rfl

theorem isWhiteSpace_eq_false {c : Char} (above : 65 ≤ c.toNat) (below : c.toNat ≤ 122) :
    isWhiteSpace c = false := by
  simp only [isWhiteSpace, whiteSpaceRanges, List.any_cons, List.any_nil, Bool.or_eq_false_iff,
    Bool.and_eq_false_iff, decide_eq_false_iff_not, Nat.not_le, and_true]
  omega

/-- An ASCII letter is no white space in either of its forms. -/
theorem SameLetter.isWhiteSpace_eq {c d : Char} (same : SameLetter c d) :
    isWhiteSpace c = isWhiteSpace d := by
  rcases same.eq_or_between with rfl | ⟨⟨above, below⟩, above', below'⟩
  · rfl
  · rw [isWhiteSpace_eq_false above below, isWhiteSpace_eq_false above' below']

theorem SameButCase.dropWhile {text other : List Char} (same : SameButCase text other) :
    SameButCase (text.dropWhile isWhiteSpace) (other.dropWhile isWhiteSpace) := by
  induction same with
  | nil => exact .nil
  | @cons c d text other letter rest kept =>
      rw [List.dropWhile_cons, List.dropWhile_cons, letter.isWhiteSpace_eq]
      split_ifs
      · exact kept
      · exact .cons letter rest

theorem SameButCase.trim {text other : List Char} (same : SameButCase text other) :
    SameButCase (trim text) (trim other) :=
  List.rel_reverse (SameButCase.dropWhile (List.rel_reverse same.dropWhile))

/-- A text of ASCII characters stays one when the case of letters changes. -/
theorem SameButCase.toNat_lt {text name : List Char} (same : SameButCase text name)
    (ascii : ∀ d ∈ name, d.toNat < 0x80) : ∀ c ∈ text, c.toNat < 0x80 := by
  induction same with
  | nil => exact nofun
  | @cons c d text name letter rest kept =>
      rw [List.forall_mem_cons] at ascii ⊢
      refine ⟨?_, kept ascii.2⟩
      rcases letter.eq_or_between with rfl | ⟨⟨-, below⟩, -⟩
      · exact ascii.1
      · exact below.trans_lt (by decide)

end Text

namespace Override

open Text

theorem sameName_iff {text name : List Char} : sameName text name = true ↔ SameButCase text name :=
  decide_eq_true_iff.trans sameButCase_iff.symm

def Forces (text : List Char) : Option Level → Prop
  | none => text = [] ∨ SameButCase text "auto".toList
  | some .portable => SameButCase text "portable".toList ∨ SameButCase text "scalar".toList
  | some .avx2 => SameButCase text "avx2".toList

/-- Texts that differ in case only are read alike, or are both refused. -/
theorem ofTrimmed_congr {text other : List Char} (same : SameButCase text other)
    (forced : Option Level) : ofTrimmed text = .ok forced ↔ ofTrimmed other = .ok forced := by
  have names (name : List Char) : sameName text name = sameName other name := by
    rw [sameName, sameName, sameButCase_iff.mp same]
  have empty : text.isEmpty = other.isEmpty := by
    cases same with
    | nil => rfl
    | cons => rfl
  simp only [ofTrimmed, names, empty]
  split_ifs
  all_goals simp

theorem ofTrimmed_eq_ok_iff {text : List Char} {forced : Option Level} :
    ofTrimmed text = .ok forced ↔ Forces text forced := by
  constructor
  · intro read
    unfold ofTrimmed at read
    split_ifs at read with isNone isPortable isAvx2
    · cases read
      simpa [Forces, sameName_iff] using isNone
    · cases read
      simpa [Forces, sameName_iff] using isPortable
    · cases read
      simpa [Forces, sameName_iff] using isAvx2
  · intro forces
    -- a text is read as the name that it is up to case, and each name is read as it should be
    match forced, forces with
    | none, .inl isEmpty => exact isEmpty ▸ rfl
    | none, .inr same => exact (ofTrimmed_congr same none).mpr (by decide)
    | some .portable, .inl same => exact (ofTrimmed_congr same _).mpr (by decide)
    | some .portable, .inr same => exact (ofTrimmed_congr same _).mpr (by decide)
    | some .avx2, same => exact (ofTrimmed_congr same _).mpr (by decide)

/-- A text that is read as a level or as none holds ASCII characters only. -/
theorem Forces.toNat_lt {text : List Char} {forced : Option Level} (forces : Forces text forced) :
    ∀ c ∈ text, c.toNat < 0x80 := by
  match forced, forces with
  | none, .inl isEmpty => exact isEmpty ▸ nofun
  | none, .inr same => exact same.toNat_lt (by simp)
  | some .portable, .inl same => exact same.toNat_lt (by simp)
  | some .portable, .inr same => exact same.toNat_lt (by simp)
  | some .avx2, (same : SameButCase text "avx2".toList) => exact same.toNat_lt (by simp)

/-- A refused text is reported as it is, and it is not empty. -/
theorem ofTrimmed_eq_error {text : List Char} {invalid : InvalidOverride}
    (refused : ofTrimmed text = .error invalid) : invalid.value.toList = text ∧ text ≠ [] := by
  constructor
  · unfold ofTrimmed at refused
    split_ifs at refused
    cases refused
    exact String.toList_ofList
  · rintro rfl
    cases refused

theorem parse_eq_ofTrimmed {core : List Char} {value : String}
    (isCore : IsCore core value.toList) : parse value = ofTrimmed core := by
  rw [parse, isCore.trim_eq]

theorem parse_padded {before after : String} (value : String) (blankBefore : IsBlank before.toList)
    (blankAfter : IsBlank after.toList) : parse (before ++ value ++ after) = parse value := by
  rw [parse, String.toList_append, String.toList_append, trim_padded _ blankBefore blankAfter, parse]

/-- Values that differ in case only are read alike, or are both refused. -/
theorem parse_sameButCase {value other : String} (same : SameButCase value.toList other.toList) :
    (parse value).toOption = (parse other).toOption := by
  have readAlike := ofTrimmed_congr same.trim
  rw [parse, parse]
  cases first : ofTrimmed (trim value.toList) with
  | ok forced => rw [(readAlike forced).mp first]
  | error invalid =>
      cases second : ofTrimmed (trim other.toList) with
      | ok forced =>
          rw [(readAlike forced).mpr second] at first
          cases first
      | error => rfl

/-- A value is read by its core alone. -/
theorem parse_grammar (value : String) :
    (∀ before after : String, IsBlank before.toList → IsBlank after.toList →
      parse (before ++ value ++ after) = parse value) ∧
    (∀ other : String, SameButCase value.toList other.toList →
      (parse value).toOption = (parse other).toOption) ∧
    (∃! core, IsCore core value.toList) ∧
    (∀ core, IsCore core value.toList →
      (∀ forced, parse value = .ok forced ↔ Forces core forced) ∧
      ((∃ c ∈ core, 0x80 ≤ c.toNat) → ∃ invalid, parse value = .error invalid) ∧
      (∀ invalid, parse value = .error invalid →
        invalid.value.toList = core ∧ core ≠ [] ∧ parse invalid.value = .error invalid)) := by
  refine ⟨fun _ _ => parse_padded value, fun _ => parse_sameButCase, existsUnique_isCore _, ?_⟩
  intro core isCore
  rw [parse_eq_ofTrimmed isCore]
  refine ⟨fun _ => ofTrimmed_eq_ok_iff, ?_, ?_⟩
  · rintro ⟨c, member, wide⟩
    cases result : ofTrimmed core with
    | error invalid => exact ⟨invalid, rfl⟩
    | ok forced =>
        have ascii : c.toNat < 0x80 := (ofTrimmed_eq_ok_iff.mp result).toNat_lt c member
        omega
  · intro invalid refused
    obtain ⟨reported, nonempty⟩ := ofTrimmed_eq_error refused
    refine ⟨reported, nonempty, ?_⟩
    rw [parse, reported, isCore.trim_self, refused]

/-- White space of three kinds and both cases: the value names the portable level.  A long s is
a letter that other rules of case lead to an `s`, and it names nothing here. -/
theorem parse_grammar_scalar :
    parse ("\t\u3000" ++ "ScaLAR" ++ "\u2003") = parse "ScaLAR" ∧
    (parse "ScaLAR").toOption = (parse "scalar").toOption ∧
    parse "\u2003ScaLAR\t" = .ok (some .portable) ∧
    (∃ invalid, parse " \u017Fcalar" = .error invalid) ∧
    parse "no such" = .error ⟨"no such"⟩ := by
  have padding := (parse_grammar "ScaLAR").1
  have letters := (parse_grammar "ScaLAR").2.1
  have cores (value : String) := (parse_grammar value).2.2.2 _ (isCore_trim value.toList)
  have longS := (cores " \u017Fcalar").2.1
  have isLevel := (cores "\u2003ScaLAR\t").1 (some .portable)
  have reported := (cores "\n no such ").2.2 ⟨"no such"⟩ (by decide)
  refine ⟨padding _ _ ?_ ?_, letters _ ?_, isLevel.mpr (.inr ?_), longS ⟨'\u017F', ?_, ?_⟩,
    reported.2.2⟩
  · exact List.all_eq_true.mp (show "\t\u3000".toList.all isWhiteSpace = true by decide)
  · exact List.all_eq_true.mp (show "\u2003".toList.all isWhiteSpace = true by decide)
  · exact sameButCase_iff.mpr (by decide)
  · exact sameButCase_iff.mpr (by decide)
  · decide
  · decide

end Override

end LaneDot

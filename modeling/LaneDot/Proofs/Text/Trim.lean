import LaneDot.Text.WhiteSpace
import Mathlib

/-!
# Trimmed text

Every text has one core: what is left between the white space at its two ends.
White space inside the core stays, and a text of white space alone has an empty
core.  Trimming finds the core, so padding a text does not change it.
-/

namespace LaneDot.Text

def IsBlank (text : List Char) : Prop :=
  ∀ c ∈ text, isWhiteSpace c

structure IsTrimmed (text : List Char) : Prop where
  first : ∀ c ∈ text.head?, ¬ isWhiteSpace c
  last : ∀ c ∈ text.getLast?, ¬ isWhiteSpace c

/-- The text is the core with white space at its two ends, and the core has none there. -/
structure IsCore (core text : List Char) : Prop where
  trimmed : IsTrimmed core
  padded : ∃ before after, IsBlank before ∧ IsBlank after ∧ text = before ++ core ++ after

theorem IsBlank.append {first second : List Char} (left : IsBlank first) (right : IsBlank second) :
    IsBlank (first ++ second) := by
  intro c member
  rcases List.mem_append.mp member with inFirst | inSecond
  · exact left c inFirst
  · exact right c inSecond

theorem IsBlank.reverse {text : List Char} (blank : IsBlank text) : IsBlank text.reverse :=
  fun c member => blank c (List.mem_reverse.mp member)

/-- Dropping white space from the front takes all of a blank text and nothing after it. -/
theorem IsBlank.dropWhile_append {before rest : List Char} (blank : IsBlank before)
    (first : ∀ c ∈ rest.head?, ¬ isWhiteSpace c) :
    (before ++ rest).dropWhile isWhiteSpace = rest := by
  rw [List.dropWhile_append_of_pos blank]
  cases rest with
  | nil => rfl
  | cons c rest => exact List.dropWhile_cons_of_neg (first c rfl)

theorem IsTrimmed.trim_append {before core after : List Char} (trimmed : IsTrimmed core)
    (blankBefore : IsBlank before) (blankAfter : IsBlank after) :
    trim (before ++ core ++ after) = core := by
  have last : ∀ c ∈ core.reverse.head?, ¬ isWhiteSpace c := by
    rw [List.head?_reverse]
    exact trimmed.last
  have back : (core ++ after).reverse.dropWhile isWhiteSpace = core.reverse := by
    rw [List.reverse_append]
    exact blankAfter.reverse.dropWhile_append last
  cases core with
  | nil =>
      -- nothing stops the first pass inside the padding, so it takes all of it
      have blank : IsBlank (before ++ after) := blankBefore.append blankAfter
      rw [trim, List.append_nil, List.dropWhile_eq_nil_iff.mpr blank]
      rfl
  | cons c rest =>
      have first : ∀ d ∈ ((c :: rest) ++ after).head?, ¬ isWhiteSpace d := trimmed.first
      rw [trim, List.append_assoc, blankBefore.dropWhile_append first, back, List.reverse_reverse]

/-- The core of a text is what trimming leaves. -/
theorem IsCore.trim_eq {core text : List Char} (isCore : IsCore core text) : trim text = core := by
  obtain ⟨trimmed, before, after, blankBefore, blankAfter, rfl⟩ := isCore
  exact trimmed.trim_append blankBefore blankAfter

theorem head?_dropWhile (text : List Char) :
    ∀ c ∈ (text.dropWhile isWhiteSpace).head?, ¬ isWhiteSpace c := by
  have stops := List.head?_dropWhile_not isWhiteSpace text
  intro c isFirst
  rw [Option.mem_def.mp isFirst] at stops
  exact Bool.not_eq_true _ ▸ stops

theorem isBlank_takeWhile (text : List Char) : IsBlank (text.takeWhile isWhiteSpace) :=
  fun _ member => List.mem_takeWhile_imp member

theorem isCore_trim (text : List Char) : IsCore (trim text) text := by
  let after := ((text.dropWhile isWhiteSpace).reverse.takeWhile isWhiteSpace).reverse
  have blankAfter : IsBlank after := (isBlank_takeWhile _).reverse
  have back : trim text ++ after = text.dropWhile isWhiteSpace := by
    rw [trim, ← List.reverse_append, List.takeWhile_append_dropWhile, List.reverse_reverse]
  refine ⟨⟨?_, ?_⟩, text.takeWhile isWhiteSpace, after, isBlank_takeWhile text, blankAfter, ?_⟩
  · -- the second pass takes from the back, so what is left still begins where the first one stopped
    intro c isFirst
    refine head?_dropWhile text c ?_
    rw [← back, List.head?_append, Option.mem_def.mp isFirst]
    rfl
  · rw [trim, List.getLast?_reverse]
    exact head?_dropWhile _
  · rw [List.append_assoc, back, List.takeWhile_append_dropWhile]

theorem IsCore.pad {core text before after : List Char} (isCore : IsCore core text)
    (blankBefore : IsBlank before) (blankAfter : IsBlank after) :
    IsCore core (before ++ text ++ after) := by
  obtain ⟨trimmed, inner, outer, blankInner, blankOuter, rfl⟩ := isCore
  refine ⟨trimmed, before ++ inner, outer ++ after, blankBefore.append blankInner,
    blankOuter.append blankAfter, ?_⟩
  simp only [List.append_assoc]

/-- Padding a text with white space leaves its core. -/
theorem trim_padded {before after : List Char} (text : List Char) (blankBefore : IsBlank before)
    (blankAfter : IsBlank after) : trim (before ++ text ++ after) = trim text :=
  ((isCore_trim text).pad blankBefore blankAfter).trim_eq

theorem existsUnique_isCore (text : List Char) : ∃! core, IsCore core text :=
  ⟨trim text, isCore_trim text, fun _ other => other.trim_eq.symm⟩

/-- Trimming a core again takes nothing from it. -/
theorem IsCore.trim_self {core text : List Char} (isCore : IsCore core text) : trim core = core :=
  IsCore.trim_eq ⟨isCore.trimmed, [], [], nofun, nofun, (List.append_nil core).symm⟩

end LaneDot.Text

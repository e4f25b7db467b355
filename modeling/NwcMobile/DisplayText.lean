import NwcMobile.ApplicationMetadata

/-!
The text shown in the place of an untrusted one. It keeps the visible words, one
plain space between them. A word that starts at the limit is written together with
the space before it, so the text can be one character longer than the limit.
-/

namespace NwcMobile

open Nwa Words

/-- A text without anything that would change how it is displayed, and that stands for the
value it was read from. -/
structure InertText (value text : String) : Prop where
  visible : ∀ c ∈ text.toList, isControl c = false ∧ isBidiFormatting c = false
  plain : ∀ c ∈ text.toList, isWhitespace c = true → c = ' '
  leading : ∀ c ∈ text.toList.head?, isWhitespace c = false
  trailing : ∀ c ∈ text.toList.getLast?, isWhitespace c = false
  single : text.toList.IsChain fun a b => isWhitespace a = false ∨ isWhitespace b = false
  kept : text.toList.filter (fun c => !isWhitespace c) <+:
    value.toList.filter fun c => isVisible c && !isWhitespace c

/-- What display text is meant to be: inert, within its limit, and final. -/
structure DisplaySafe (value : String) (maximumChars : Nat) (text : String) : Prop extends
    InertText value text where
  bounded : text.length ≤ maximumChars
  final : sanitizeDisplayText text maximumChars = text

section Display

variable {value : String} {maximumChars : Nat}

theorem toList_sanitizeDisplayText (value : String) (maximumChars : Nat) :
    (sanitizeDisplayText value maximumChars).toList =
      gather isWhitespace ' ' maximumChars [] false (value.toList.filter isVisible) := by
  rw [sanitizeDisplayText, String.toList_ofList, sanitizeLoop_eq_gather]

theorem isVisible_eq_true {c : Char} :
    isVisible c = true ↔ isControl c = false ∧ isBidiFormatting c = false := by
  rw [isVisible, Bool.not_eq_true', Bool.or_eq_false_iff]

theorem sanitizeDisplayText_inert (value : String) (maximumChars : Nat) :
    InertText value (sanitizeDisplayText value maximumChars) := by
  have hwritten : Written isWhitespace ' ' maximumChars
      (sanitizeDisplayText value maximumChars).toList := by
    rw [toList_sanitizeDisplayText]
    exact gather_written _
  have hvisible : ∀ c ∈ (sanitizeDisplayText value maximumChars).toList, isVisible c = true := by
    intro c hc
    rw [toList_sanitizeDisplayText] at hc
    rcases mem_gather hc with hnone | rfl | hmem
    · cases hnone
    · decide
    · exact (List.mem_filter.mp hmem).2
  constructor
  · exact fun c hc => isVisible_eq_true.mp (hvisible c hc)
  · exact hwritten.separators
  · rw [toList_sanitizeDisplayText]
    exact (gather_trimmed (by simp) (by simp) (by simp)).1
  · exact hwritten.ends
  · exact hwritten.single
  · obtain ⟨kept, hkept, hfilter⟩ := gather_words maximumChars
      (show isWhitespace ' ' = true by decide) [] false (value.toList.filter isVisible)
    rw [toList_sanitizeDisplayText, hfilter, List.filter_nil, List.nil_append]
    rw [List.filter_filter] at hkept
    simpa only [Bool.and_comm] using hkept

/-- The loop only removes what is not shown, so it has nothing left to remove. -/
theorem sanitizeDisplayText_idem (value : String) (maximumChars : Nat) :
    sanitizeDisplayText (sanitizeDisplayText value maximumChars) maximumChars =
      sanitizeDisplayText value maximumChars := by
  have hinert := sanitizeDisplayText_inert value maximumChars
  have hall : (sanitizeDisplayText value maximumChars).toList.filter isVisible =
      (sanitizeDisplayText value maximumChars).toList := by
    rw [List.filter_eq_self]
    exact fun c hc => isVisible_eq_true.mpr (hinert.visible c hc)
  apply String.toList_inj.mp
  rw [toList_sanitizeDisplayText, hall, toList_sanitizeDisplayText]
  exact gather_idem (by decide) _

end Display

/-- Display text is what it is meant to be unless the words of the value, one space between
them, have a space at the last place within the limit; then it is one character too long. -/
theorem display_text_safe_iff (value : String) (maximumChars : Nat) :
    DisplaySafe value maximumChars (sanitizeDisplayText value maximumChars) ↔
      (spaced isWhitespace ' ' (value.toList.filter isVisible))[maximumChars - 1]? ≠ some ' ' := by
  have hlength : (sanitizeDisplayText value maximumChars).length ≤ maximumChars ↔
      (spaced isWhitespace ' ' (value.toList.filter isVisible))[maximumChars - 1]? ≠ some ' ' := by
    rw [← String.length_toList, toList_sanitizeDisplayText]
    exact length_gather_le_iff (by decide) _
  rw [← hlength]
  constructor
  · exact DisplaySafe.bounded
  · intro hbounded
    exact
      { sanitizeDisplayText_inert value maximumChars with
        bounded := hbounded
        final := sanitizeDisplayText_idem value maximumChars }

/-- The space and the letter after it are written where there is room for one character. -/
theorem display_text_too_long :
    sanitizeDisplayText "a b" 2 = "a b" ∧
      ¬ DisplaySafe "a b" 2 (sanitizeDisplayText "a b" 2) := by
  have htext : sanitizeDisplayText "a b" 2 = "a b" := by decide
  refine ⟨htext, ?_⟩
  intro hsafe
  have hbounded := hsafe.bounded
  rw [htext] at hbounded
  exact absurd hbounded (by decide)

end NwcMobile

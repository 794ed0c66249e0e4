import StridedViews.Text.Combining
import StridedViews.Text.Unassigned

/-!
Characters that leave no mark of their own.

Five classes: controls (with the format characters and the private-use planes, which have no agreed
shape), separators other than the plain space, letters that only fill a place, marks that combine
with the character before them, and code points without a character. A quoted text escapes all of
them.
-/

namespace StridedViews.Text

/-- Controls, format characters and private-use characters. -/
def controlRanges : List (Nat × Nat) :=
  [(0x0, 0x1F), (0x7F, 0x9F), (0xAD, 0xAD), (0x600, 0x605), (0x61C, 0x61C), (0x6DD, 0x6DD),
   (0x70F, 0x70F), (0x890, 0x891), (0x8E2, 0x8E2), (0x180E, 0x180E), (0x200B, 0x200F),
   (0x202A, 0x202E), (0x2060, 0x2064), (0x2066, 0x206F), (0xE000, 0xF8FF), (0xFEFF, 0xFEFF),
   (0xFFF9, 0xFFFB), (0x110BD, 0x110BD), (0x110CD, 0x110CD), (0x13430, 0x1343F), (0x1BCA0, 0x1BCA3),
   (0x1D173, 0x1D17A), (0xE0001, 0xE0001), (0xE0020, 0xE007F), (0xF0000, 0xFFFFD),
   (0x100000, 0x10FFFD)]

/-- Separators, the plain space excepted. -/
def separatorRanges : List (Nat × Nat) :=
  [(0xA0, 0xA0), (0x1680, 0x1680), (0x2000, 0x200A), (0x2028, 0x2029), (0x202F, 0x202F),
   (0x205F, 0x205F), (0x3000, 0x3000)]

/-- Letters that hold a place in a syllable block and are drawn as nothing. -/
def fillerRanges : List (Nat × Nat) :=
  [(0x115F, 0x1160), (0x3164, 0x3164), (0xFFA0, 0xFFA0)]

example : risingFrom 0 controlRanges = true := by decide
example : risingFrom 0 separatorRanges = true := by decide
example : risingFrom 0 fillerRanges = true := by decide

/-- A character that a quoted text may not show as itself. -/
def isInvisible (c : Char) : Bool :=
  inRanges controlRanges c.toNat || inRanges separatorRanges c.toNat ||
    inRanges fillerRanges c.toNat || inRanges combiningRanges c.toNat ||
    inRanges unassignedRanges c.toNat

theorem isInvisible_of_lt_space {c : Char} (h : c.toNat < 0x20) : isInvisible c = true := by
  have hc : inRanges controlRanges c.toNat = true :=
    inRanges_iff.2 ⟨(0x0, 0x1F), by simp [controlRanges], by omega, by omega⟩
  simp [isInvisible, hc]

end StridedViews.Text

import LivePatch.Text.CodeRanges

/-!
# White space

The characters with the Unicode property `White_Space`: the ASCII blanks, the line and
paragraph separators, and the spaces of the general punctuation block.
-/

namespace LivePatch

/-- The code points with the Unicode property `White_Space`. -/
def blankRanges : CodeRanges := ⟨[
  0x9, 0xE, 0x20, 0x21, 0x85, 0x86, 0xA0, 0xA1, 0x1680, 0x1681,
  0x2000, 0x200B, 0x2028, 0x202A, 0x202F, 0x2030, 0x205F, 0x2060, 0x3000, 0x3001]⟩

/-- Is `c` white space? -/
def isBlank (c : Char) : Bool := blankRanges.contains c

/-- `text` without the white space at its two ends. -/
def trimBlank (text : String) : String :=
  String.ofList (((text.toList.dropWhile isBlank).reverse.dropWhile isBlank).reverse)

end LivePatch

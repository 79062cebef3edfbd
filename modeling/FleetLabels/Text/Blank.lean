/-!
    Blank characters and the trimming of text.

    A character is *blank* when it separates words: the ASCII controls from tab to carriage return
    and from file to unit separator, the space, next line, no-break space, and the spaces and line
    separators of the general punctuation block and of Ogham and CJK. `trim` drops them at both
    ends and keeps those inside. -/

namespace FleetLabels.Text

/-- The characters that count as space around a value. -/
def isBlank (c : Char) : Bool :=
  let n := c.toNat
  (9 ≤ n && n ≤ 13) || (28 ≤ n && n ≤ 32) || n == 0x85 || n == 0xA0 || n == 0x1680 ||
    (0x2000 ≤ n && n ≤ 0x200A) || n == 0x2028 || n == 0x2029 || n == 0x202F || n == 0x205F ||
    n == 0x3000

/-- The text without the blanks at its two ends. -/
def trim (cs : List Char) : List Char :=
  ((cs.dropWhile isBlank).reverse.dropWhile isBlank).reverse

example : trim " \tv1.2 \n".toList = "v1.2".toList := by decide

end FleetLabels.Text

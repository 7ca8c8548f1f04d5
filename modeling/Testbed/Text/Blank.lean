/-!
# Blank characters and blank lines

The characters with the Unicode property White_Space, trimming by that property, and the
cut of a text into lines.
-/

namespace Testbed.Text

/-- The characters with the property White_Space. -/
def isBlank (c : Char) : Bool :=
  let n := c.toNat
  (9 ≤ n && n ≤ 13) || n = 0x20 || n = 0x85 || n = 0xA0 || n = 0x1680 ||
    (0x2000 ≤ n && n ≤ 0x200A) || n = 0x2028 || n = 0x2029 || n = 0x202F || n = 0x205F ||
    n = 0x3000

/-- What stays when the blanks in front are dropped. -/
def trimFront (cs : List Char) : List Char :=
  cs.dropWhile isBlank

end Testbed.Text

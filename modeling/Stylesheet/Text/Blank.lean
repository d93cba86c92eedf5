/-!
# Blank characters

The characters with the Unicode property White_Space. The line feed and the carriage return are
among them, and are the only two that end lines.
-/
namespace Stylesheet

/-- The code points with the property White_Space, as closed intervals. -/
def blankIntervals : List (Nat × Nat) :=
  [(0x9, 0xD), (0x20, 0x20), (0x85, 0x85), (0xA0, 0xA0), (0x1680, 0x1680), (0x2000, 0x200A),
    (0x2028, 0x2029), (0x202F, 0x202F), (0x205F, 0x205F), (0x3000, 0x3000)]

def isBlank (c : Char) : Bool :=
  blankIntervals.any fun (first, last) => first ≤ c.toNat && c.toNat ≤ last

/-- The characters that end a line. -/
def isLineEnd (c : Char) : Bool := c = '\n' || c = '\r'

/-- Blanks that stay on their line. -/
def isInlineBlank (c : Char) : Bool := isBlank c && !isLineEnd c

end Stylesheet

import TabletopDice.Text

/-!
# Blanks

What may stand between the parts of an expression: the characters of the Unicode property
White_Space, all twenty-five of them, as ranges in ascending order. The tab, the line ends and the
blank are there; so are the no-break space and the wide blank of CJK text, which look the same to
whoever pastes an expression in.
-/

set_option autoImplicit false

namespace TabletopDice.Text

/-- The code points that are white space, as first and last member of each unbroken range. -/
def blankRanges : List (Nat × Nat) :=
  [(0x09, 0x0D), (0x20, 0x20), (0x85, 0x85), (0xA0, 0xA0), (0x1680, 0x1680), (0x2000, 0x200A),
    (0x2028, 0x2029), (0x202F, 0x202F), (0x205F, 0x205F), (0x3000, 0x3000)]

/-- Whether a character is white space. -/
def isBlank (c : Char) : Bool := blankRanges.any fun r => r.1 ≤ c.toNat && c.toNat ≤ r.2

/-- What is left of a text after the blanks it begins with. -/
def skipBlank (s : Text) : Text := s.dropWhile isBlank

/-- No text grows by leaving blanks out. -/
theorem length_skipBlank_le (s : Text) : (skipBlank s).length ≤ s.length :=
  (List.dropWhile_suffix isBlank).length_le

end TabletopDice.Text

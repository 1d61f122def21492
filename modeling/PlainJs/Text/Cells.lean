import PlainJs.Text.Identifier
import PlainJs.Text.WidthRanges

namespace PlainJs

namespace Text

/-- A tab takes four cells, a control character or a combining mark none, a wide one two. -/
def width (c : Char) : Nat :=
  if c == '\t' then 4
  else if c.toNat < 32 || (127 ≤ c.toNat && c.toNat < 160) then 0
  else if c.toNat < 127 then 1
  else if c == '\u17d8' then 3
  else if inRanges wideRanges c then 2
  else if inRanges zeroWidthRanges c then 0
  else 1

/-- The cells by which a character moves a column: one more than its width beyond the basic
plane. -/
def cells (c : Char) : Nat := width c + if c.toNat < 0x10000 then 0 else 1

end Text

end PlainJs

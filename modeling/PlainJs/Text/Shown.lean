import PlainJs.Text.Identifier
import PlainJs.Text.UnshownRanges

namespace PlainJs

namespace Text

def isShown (c : Char) : Bool :=
  if c.toNat < 128 then 32 ≤ c.toNat && c.toNat != 127 else !inRanges unshownRanges c

def shownChar (c : Char) : List Char :=
  if c == '"' then ['\\', '"']
  else if c == '\\' then ['\\', '\\']
  else if c == '\n' then ['\\', 'n']
  else if c == '\r' then ['\\', 'r']
  else if c == '\t' then ['\\', 't']
  else if c == '\x00' then ['\\', '0']
  else if isShown c then [c]
  else ['\\', 'u', '\x7b'] ++ Nat.toDigits 16 c.toNat ++ ['\x7d']

/-- A character in single quotes. -/
def shownInQuotes (c : Char) : String :=
  let inside :=
    if c == '\'' then ['\\', '\''] else if c == '"' then ['"'] else shownChar c
  String.ofList ('\'' :: inside ++ ['\''])

/-- A text in double quotes. -/
def shown (s : String) : String :=
  String.ofList ('"' :: s.toList.flatMap shownChar ++ ['"'])

end Text

end PlainJs

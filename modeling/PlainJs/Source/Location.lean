import PlainJs.Text.Cells

namespace PlainJs

/-- The characters of a source text, in which positions are counted. A byte order mark at its start
is none of them. -/
def sourceChars (source : String) : List Char :=
  match source.toList with
  | '\ufeff' :: cs => cs
  | cs => cs

/-- A place in a displayed text; lines and columns count from 1. -/
structure Location where
  line : Nat
  column : Nat
deriving DecidableEq, Repr

namespace Location

def start : Location := ⟨1, 1⟩

/-- The place `bytes` bytes into a text that starts at `l`. A line ends with a line feed or a
carriage return, or with both in turn. -/
def advance : List Char → (bytes : Nat) → Location → Location
  | [], _, l => l
  | c :: cs, bytes, l =>
    if bytes == 0 then l
    else
      let endsLine := c == '\n' || (c == '\r' && cs.head? != some '\n')
      advance cs (bytes - c.utf8Size)
        (if endsLine then ⟨l.line + 1, 1⟩ else ⟨l.line, l.column + Text.cells c⟩)

/-- The place of a byte position, which counts from 1. -/
def ofPosition (source : String) (position : Nat) : Location :=
  advance (sourceChars source) (position - 1) start

/-- The place behind the name of its file. -/
def text (l : Location) (filename : String) : String :=
  filename ++ ":" ++ toString l.line ++ ":" ++ toString l.column

end Location

end PlainJs

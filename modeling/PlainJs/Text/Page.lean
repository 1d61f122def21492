namespace PlainJs

/-- What has been written, how deep the next line is indented, and whether a line starts here. -/
structure Page where
  text : String
  depth : Nat
  atLineStart : Bool
deriving DecidableEq, Repr

namespace Page

def empty : Page := ⟨"", 0, true⟩

/-- The blanks at the start of a line. -/
def indentation (depth : Nat) : String := String.ofList (List.replicate (4 * depth) ' ')

def write (s : String) (p : Page) : Page :=
  if s.isEmpty then p
  else if p.atLineStart then ⟨p.text ++ indentation p.depth ++ s, p.depth, false⟩
  else { p with text := p.text ++ s }

/-- Ends the line, unless it is empty. -/
def endLine (p : Page) : Page :=
  if p.atLineStart then p else { p with text := p.text ++ "\n", atLineStart := true }

def indent (p : Page) : Page := { p with depth := p.depth + 1 }

def dedent (p : Page) : Page := { p with depth := p.depth - 1 }

end Page

end PlainJs

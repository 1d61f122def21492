import PlainJs.Node.Printer
import PlainJs.Text.Shown

namespace PlainJs

/-- Named parts in brackets of three kinds. -/
inductive Outline
  | leaf (text : String)
  | tuple (name : String) (parts : List Outline)
  | record (name : String) (fields : List (String × Outline))
  | list (parts : List Outline)

namespace Outline

def margin (depth : Nat) : String := String.ofList (List.replicate (4 * depth) ' ')

/-- Brackets around lines that are already indented. -/
def bracketed (depth : Nat) (opening closing lines : String) : String :=
  if lines.isEmpty then opening ++ closing
  else opening ++ "\n" ++ lines ++ margin depth ++ closing

mutual

/-- The text of an outline whose first line stands at the given depth. -/
def text (depth : Nat) : Outline → String
  | leaf s => s
  | tuple name parts => bracketed depth (name ++ "(") ")" (partLines (depth + 1) parts)
  | record name fields =>
    bracketed depth (name ++ " \x7b") "\x7d" (fieldLines (depth + 1) fields)
  | list parts => bracketed depth "[" "]" (partLines (depth + 1) parts)

def partLines (depth : Nat) : List Outline → String
  | [] => ""
  | o :: os => margin depth ++ text depth o ++ ",\n" ++ partLines depth os

def fieldLines (depth : Nat) : List (String × Outline) → String
  | [] => ""
  | (name, o) :: os =>
    margin depth ++ name ++ ": " ++ text depth o ++ ",\n" ++ fieldLines depth os

end

def ofSpan (s : Span) : Outline := leaf (toString s.lo ++ ".." ++ toString s.hi)

def ofInterpreter : Option String → Outline
  | none => leaf "None"
  | some s => tuple "Some" [leaf (Text.shown s)]

/-- An empty statement is shown by its range, any other one by its source text. -/
def ofStmt (s : Stmt) : Outline :=
  match s with
  | .emptyStmt span => tuple "Empty" [record "EmptyStmt" [("span", ofSpan span)]]
  | s => leaf s.print.trimAsciiEnd.toString

def ofItem : Item → Outline
  | .stmtItem s => tuple "Stmt" [ofStmt s]
  | i => tuple "ModuleDecl" [leaf i.print.trimAsciiEnd.toString]

def ofProgram : Program → Outline
  | .moduleProgram span interpreter items =>
    tuple "Module" [record "Module" [("span", ofSpan span),
      ("body", list (items.toList.map ofItem)), ("shebang", ofInterpreter interpreter)]]
  | .scriptProgram span interpreter stmts =>
    tuple "Script" [record "Script" [("span", ofSpan span),
      ("body", list (stmts.toList.map ofStmt)), ("shebang", ofInterpreter interpreter)]]

end Outline

end PlainJs

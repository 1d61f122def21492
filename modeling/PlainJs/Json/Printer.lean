import PlainJs.Json.Basic

namespace PlainJs

namespace Json

def hexDigits (n : Nat) : List Char :=
  let ds := Nat.toDigits 16 n
  List.replicate (4 - ds.length) '0' ++ ds

/-- How a character stands inside a quoted string. -/
def escapeChar (c : Char) : List Char :=
  if c == '"' then ['\\', '"']
  else if c == '\\' then ['\\', '\\']
  else if c == '\n' then ['\\', 'n']
  else if c == '\r' then ['\\', 'r']
  else if c == '\t' then ['\\', 't']
  else if c == '\x08' then ['\\', 'b']
  else if c == '\x0c' then ['\\', 'f']
  else if c.toNat < 32 then ['\\', 'u'] ++ hexDigits c.toNat
  else [c]

def quoteChars (s : String) : List Char :=
  '"' :: s.toList.flatMap escapeChar ++ ['"']

def quote (s : String) : String := String.ofList (quoteChars s)

def newline (level : Nat) : String := "\n" ++ String.ofList (List.replicate (2 * level) ' ')

mutual

/-- The text of a value on one line, without blanks. -/
def compact : Json → String
  | .null => "null"
  | .bool true => "true"
  | .bool false => "false"
  | .num n => toString n
  | .real d => d.real
  | .str s => quote s
  | .arr elems => "[" ++ compactElems "" elems ++ "]"
  | .obj members => "\x7b" ++ compactMembers "" members ++ "\x7d"

def compactElems (before : String) : List Json → String
  | [] => ""
  | j :: js => before ++ compact j ++ compactElems "," js

def compactMembers (before : String) : List (String × Json) → String
  | [] => ""
  | (k, j) :: js => before ++ quote k ++ ":" ++ compact j ++ compactMembers "," js

end

mutual

/-- The text of a value with one element or member per line, indented by two blanks a level. -/
def pretty (level : Nat) : Json → String
  | .arr [] => "[]"
  | .arr elems => "[" ++ prettyElems "" (level + 1) elems ++ newline level ++ "]"
  | .obj [] => "\x7b\x7d"
  | .obj members => "\x7b" ++ prettyMembers "" (level + 1) members ++ newline level ++ "\x7d"
  | .null => "null"
  | .bool true => "true"
  | .bool false => "false"
  | .num n => toString n
  | .real d => d.real
  | .str s => quote s

def prettyElems (before : String) (level : Nat) : List Json → String
  | [] => ""
  | j :: js => before ++ newline level ++ pretty level j ++ prettyElems "," level js

def prettyMembers (before : String) (level : Nat) : List (String × Json) → String
  | [] => ""
  | (k, j) :: js =>
    before ++ newline level ++ quote k ++ ": " ++ pretty level j ++ prettyMembers "," level js

end

end Json

end PlainJs

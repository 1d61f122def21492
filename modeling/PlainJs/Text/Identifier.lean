import PlainJs.Text.IdentifierRanges

namespace PlainJs

namespace Text

def inRanges (ranges : List (Nat × Nat)) (c : Char) : Bool :=
  ranges.any fun (lo, hi) => lo ≤ c.toNat && c.toNat ≤ hi

def isIdentifierStart (c : Char) : Bool :=
  if c.toNat < 128 then c == '$' || c == '_' || c.isAlpha
  else inRanges identifierStarts c

def isIdentifierPart (c : Char) : Bool :=
  if c.toNat < 128 then c == '$' || c == '_' || c.isAlphanum
  else inRanges identifierStarts c || inRanges identifierContinues c ||
    c == '\u200c' || c == '\u200d'

/-- The words of the language that never name anything. -/
def keywords : List String :=
  ["break", "case", "catch", "class", "const", "continue", "debugger", "default", "delete", "do",
    "else", "export", "extends", "false", "finally", "for", "function", "if", "import", "in",
    "instanceof", "new", "null", "return", "super", "switch", "this", "throw", "true", "try",
    "typeof", "var", "void", "while", "with"]

/-- The words that name nothing in a module. -/
def strictWords : List String :=
  ["await", "enum", "implements", "interface", "let", "package", "private", "protected", "public",
    "static", "yield"]

/-- The words with a meaning of their own in some places that can be names in others. -/
def contextualWords : List String :=
  ["abstract", "accessor", "any", "as", "assert", "asserts", "async", "bigint", "boolean",
    "constructor", "declare", "from", "get", "global", "infer", "intrinsic", "is", "keyof", "meta",
    "module", "namespace", "never", "number", "object", "of", "out", "override", "readonly",
    "require", "satisfies", "set", "string", "symbol", "target", "type", "undefined", "unique",
    "unknown", "using"]

/-- The words that a module may use but not bind. -/
def unbindableWords : List String := ["eval", "arguments"]

/-- Whether a word names nothing in a module. -/
def isReserved (s : String) : Bool := keywords.contains s || strictWords.contains s

/-- Whether a text can name a binding. -/
def isIdentifier (s : String) : Bool :=
  match s.toList with
  | [] => false
  | c :: cs =>
    isIdentifierStart c && cs.all isIdentifierPart && !isReserved s && !unbindableWords.contains s

end Text

end PlainJs

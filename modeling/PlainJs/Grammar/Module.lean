import PlainJs.Grammar.Statement

namespace PlainJs

namespace Parse

/-- The name of another module. -/
def moduleName : Parse StrLit := do
  let t ← peek
  match t.kind with
  | .string value =>
    let _ ← advance
    return ⟨t.span, value, some t.text⟩
  | _ => rejectFor "a string literal"

/-- The module that names come from, up to the end of the item. -/
def fromModule : Parse StrLit := do
  expectWord "from"
  let source ← moduleName
  expectSemicolon
  return source

/-- A name in a list of imports or exports. -/
def listedName : Parse ExportName := do
  let t ← peek
  match t.kind with
  | .string value =>
    let _ ← advance
    return .str ⟨t.span, value, some t.text⟩
  | .word name =>
    let _ ← advance
    return .ident ⟨t.span, 0, name, false⟩
  | _ => rejectFor "identifier or string"

def importSpecifier : Parse ImportSpecifier := do
  let lo ← position
  let there ← listedName
  if ← eatWord "as" then
    let here ← bindingIdent
    return .named (← spanFrom lo) here (some there)
  else
    match there with
    | .ident id =>
      if Text.isReserved id.name then rejectAt id.span .reservedImport
      return .named (← spanFrom lo) id none
    | .str s => rejectAt s.span (.stringImport s.value)

/-- What an import takes beside the default: all names at once, names in braces, or nothing. -/
def importList : Parse (List ImportSpecifier) := do
  let lo ← position
  if ← eat "*" then
    expectWord "as"
    let here ← bindingIdent
    return [.namespace (← spanFrom lo) here]
  else if ← eat "\x7b" then commaList "\x7d" importSpecifier
  else return []

def importSpecifiers : Parse (List ImportSpecifier) := do
  let t ← peek
  if t.isAnyWord && !t.isReserved then
    let here ← bindingIdent
    unless ← isWord "from" do expect ","
    return ImportSpecifier.default t.span here :: (← importList)
  else importList

def importItem : Parse Item := do
  let lo ← position
  expectWord "import"
  match (← peek).kind with
  | .string _ =>
    let source ← moduleName
    expectSemicolon
    return .importItem ⟨← spanFrom lo, [], source⟩
  | _ =>
    let specifiers ← importSpecifiers
    let source ← fromModule
    return .importItem ⟨← spanFrom lo, specifiers, source⟩

def exportSpecifier : Parse ExportSpecifier := do
  let lo ← position
  let inner ← listedName
  let outer ← if ← eatWord "as" then some <$> listedName else pure none
  return .named (← spanFrom lo) inner outer

def exportDefault (r : Rules) (lo : Nat) : Parse Item := do
  let here ← position
  match ← functionStart? with
  | some (isAsync, isGenerator) =>
    let name ← ownName?
    let f ← functionParts r here isAsync isGenerator
    return .exportFunc (← spanFrom lo) name f
  | none =>
    if ← eatWord "class" then
      let name ← ownName?
      let c ← classParts r here
      return .exportClass (← spanFrom lo) name c
    else
      let e ← assignment r
      expectSemicolon
      return .exportExpr (← spanFrom lo) e

def exportAll (lo : Nat) : Parse Item := do
  let here ← position
  expect "*"
  if ← eatWord "as" then
    let name ← listedName
    let specifier := ExportSpecifier.namespace (← spanFrom here) name
    let source ← fromModule
    return .exportNames ⟨← spanFrom lo, [specifier], some source⟩
  else
    let source ← fromModule
    return .exportAll (← spanFrom lo) source

/-- Checks that a name is one of this module. -/
def checkOwnName (s : ExportSpecifier) : Parse Unit := do
  match s with
  | .named _ (.ident id) _ =>
    if Text.keywords.contains id.name || ["enum", "package"].contains id.name then
      report id.span (.exportWithoutSource id.name)
  | .named _ (.str s) _ => report s.span .stringExport
  | _ => pure ()

def exportNames (lo : Nat) : Parse Item := do
  expect "\x7b"
  let specifiers ← commaList "\x7d" exportSpecifier
  let source ← do
    if ← isWord "from" then some <$> fromModule
    else
      specifiers.forM checkOwnName
      let _ ← eat ";"
      pure none
  return .exportNames ⟨← spanFrom lo, specifiers, source⟩

def exportItem (r : Rules) : Parse Item := do
  let lo ← position
  expectWord "export"
  if ← eatWord "default" then exportDefault r lo
  else if ← isPunct "*" then exportAll lo
  else if ← isWord "using" then exportNames lo
  else
    match ← declaration? r true with
    | some d => return .exportDecl (← spanFrom lo) d
    | none => exportNames lo

def item (r : Rules) : Parse Item := do
  if (← isWord "import") && !(← isImportExpr) then importItem
  else if ← isWord "export" then exportItem r
  else return .stmtItem (← stmt r true)

/-- The first line of a text if it names an interpreter. -/
def interpreter? : Parse (Option String) := do
  match (← peek).kind with
  | .interpreter line =>
    let _ ← advance
    return some line
  | _ => return none

/-- All items of a module. Without any token it has the range of its start. -/
def program (r : Rules) : Parse Program := do
  let lo ← if (← peek).isEnded then pure 1 else position
  let interpreter ← interpreter?
  let items ← many (return !(← peek).isEnded) (item r)
  return .moduleProgram (← spanFrom lo) interpreter (.ofList items)

end Parse

/-- Reads a source text as a module; the error that ended the reading comes before those after
which it went on. -/
def parseModule (source : String) : Except (List SyntaxError) Program :=
  let cs := sourceChars source
  let limit := cs.length + 2
  match ((Parse.program (.upTo limit .none)).run (.top limit)).run (.ofText cs) with
  | (.error e, rest) => .error (e :: rest.errors.reverse)
  | (.ok p, rest) => if rest.errors.isEmpty then .ok p else .error rest.errors.reverse

/-- Reads the text of a file. -/
def parseSource (source filename : String) : Except Rejection Program :=
  (parseModule source).mapError fun es => ⟨es.map (·.locate source filename)⟩

end PlainJs

import PlainJs.Config.Basic
import PlainJs.Json.Reader
import PlainJs.Text.Shown

namespace PlainJs

namespace Config

inductive Setting
  | declarations | continues | loops | switches | finallys | keyHelper | emitKeyHelper
deriving DecidableEq, Repr

namespace Setting

def key : Setting → String
  | declarations => "varDecls"
  | continues => "continues"
  | loops => "loops"
  | switches => "switches"
  | finallys => "finally"
  | keyHelper => "forInHelper"
  | emitKeyHelper => "emitForInHelper"

/-- All settings, in the order of an array. -/
def all : List Setting :=
  [declarations, continues, loops, switches, finallys, keyHelper, emitKeyHelper]

def ofKey? (s : String) : Option Setting := all.find? (·.key == s)

end Setting

/-- What stands in the text where something else was expected. -/
inductive Found
  | integer (value : Int)
  | floating (value : Decimal)
  | null
  | bool (value : Bool)
  | string (value : String)
  | sequence
  | map
deriving DecidableEq, Repr

def Found.text : Found → String
  | integer v => "integer `" ++ toString v ++ "`"
  | floating v => "floating point `" ++ v.real ++ "`"
  | null => "null"
  | bool b => "boolean `" ++ (if b then "true" else "false") ++ "`"
  | string s => "string " ++ Text.shown s
  | sequence => "sequence"
  | map => "map"

inductive Expected
  | bool | string | settings
deriving DecidableEq, Repr

def Expected.text : Expected → String
  | bool => "a boolean"
  | string => "a string"
  | settings => "struct DesugarConfig"

/-- Why a text describes no configuration. -/
inductive TextFault
  /-- It is not JSON. -/
  | json (fault : Json.Fault)
  | unknownKey (key : String)
  | duplicateKey (setting : Setting)
  | wrongType (found : Found) (expected : Expected)
deriving DecidableEq, Repr

/-- The names of all settings as a message lists them. -/
def keyList : String := ", ".intercalate (Setting.all.map fun s => "`" ++ s.key ++ "`")

def TextFault.message : TextFault → String
  | json fault => fault.message
  | unknownKey key => "unknown field `" ++ key ++ "`, expected one of " ++ keyList
  | duplicateKey s => "duplicate field `" ++ s.key ++ "`"
  | wrongType found expected => "invalid type: " ++ found.text ++ ", expected " ++ expected.text

/-- Why a text gives no configuration that can be used. -/
inductive ReadFault
  | text (fault : TextFault) (line column : Nat)
  /-- The settings do not fit together. -/
  | config (fault : ConfigFault)
deriving DecidableEq, Repr

/-- What stands before the fault of a text. -/
def textPreface : String := "invalid configuration: "

/-- The fault and, if it lies in the text, what is wrong there. -/
def ReadFault.causes : ReadFault → List String
  | config fault => [fault.message]
  | text fault line column =>
    let placed :=
      fault.message ++ " at line " ++ toString line ++ " column " ++ toString column
    [textPreface ++ placed, placed]

/-- A reader's result; most readers also give the text that they leave. -/
abbrev Read := Except (Json.Stop TextFault)

def liftText {α : Type} (r : Json.Read α) : Read α :=
  r.mapError fun s => ⟨.json s.fault, s.rest, s.bytes⟩

/-- Stops at the next character, which no JSON has here. -/
def stopJson {α : Type} (fault : Json.Fault) (rest : List Char) : Read α :=
  Json.stopAt (.json fault) rest

def foundNumber : Json.Numeral → Found
  | .whole n => .integer n
  | .real d => .floating d

/-- What stands at the start of a text that begins with no blank, and the text behind it; brackets
are left in the text. -/
def found : List Char → Read (Found × List Char)
  | [] => stopJson .endInValue []
  | 'n' :: rest => return (.null, ← liftText (Json.wordRest ['u', 'l', 'l'] rest))
  | 't' :: rest => return (.bool true, ← liftText (Json.wordRest ['r', 'u', 'e'] rest))
  | 'f' :: rest => return (.bool false, ← liftText (Json.wordRest ['a', 'l', 's', 'e'] rest))
  | '"' :: rest => do
    let (s, rest) ← liftText (Json.stringRest [] rest)
    return (.string s, rest)
  | '[' :: rest => return (.sequence, '[' :: rest)
  | '\x7b' :: rest => return (.map, '\x7b' :: rest)
  | c :: rest =>
    if Json.startsNumeral c then do
      let (n, rest) ← liftText (Json.numeral (c :: rest))
      return (foundNumber n, rest)
    else stopJson .expectedValue (c :: rest)

/-- The fault of a value of another type than expected. -/
def mismatch {α : Type} (expected : Expected) (cs : List Char) : Read α := do
  let (found, rest) ← found cs
  Json.stopBehind (.wrongType found expected) rest

def readBool (cs : List Char) : Read (Bool × List Char) :=
  match Json.skipBlanks cs with
  | 't' :: rest => return (true, ← liftText (Json.wordRest ['r', 'u', 'e'] rest))
  | 'f' :: rest => return (false, ← liftText (Json.wordRest ['a', 'l', 's', 'e'] rest))
  | cs => mismatch .bool cs

def readString (cs : List Char) : Read (String × List Char) :=
  match Json.skipBlanks cs with
  | '"' :: rest => liftText (Json.stringRest [] rest)
  | cs => mismatch .string cs

/-- Reads the value of a setting. -/
def readSetting (c : Config) (s : Setting) (cs : List Char) : Read (Config × List Char) := do
  match s with
  | .keyHelper =>
    let (v, rest) ← readString cs
    return ({ c with keyHelper := v }, rest)
  | s =>
    let (v, rest) ← readBool cs
    match s with
    | .declarations => return ({ c with declarations := v }, rest)
    | .continues => return ({ c with continues := v }, rest)
    | .loops => return ({ c with loops := v }, rest)
    | .switches => return ({ c with switches := v }, rest)
    | .finallys => return ({ c with finallys := v }, rest)
    | _ => return ({ c with emitKeyHelper := v }, rest)

/-- The text behind the quote of the next key, or behind the end of the object, and which of the two
it is; `isFirst` tells that no member stands before. -/
def nextKey (isFirst : Bool) (cs : List Char) : Read (Bool × List Char) :=
  match Json.skipBlanks cs with
  | '\x7d' :: rest => .ok (false, rest)
  | [] => stopJson .endInObject []
  | '"' :: rest => if isFirst then .ok (true, rest) else stopJson .expectedObjectEnd ('"' :: rest)
  | c :: rest =>
    if isFirst then stopJson .keyNotString (c :: rest)
    else if c == ',' then
      match Json.skipBlanks rest with
      | '"' :: rest => .ok (true, rest)
      | '\x7d' :: rest => stopJson .trailingComma ('\x7d' :: rest)
      | [] => stopJson .endInValue []
      | rest => stopJson .keyNotString rest
    else stopJson .expectedObjectEnd (c :: rest)

/-- Stops because of a key: behind it, the blanks that follow and the end of the object, if that
comes next. -/
def stopKey {α : Type} (fault : TextFault) (rest : List Char) : Read α :=
  match Json.skipBlanks rest with
  | '\x7d' :: rest => Json.stopBehind fault rest
  | rest => Json.stopBehind fault rest

/-- The members of an object; `seen` are the settings given before. -/
def readMembers (c : Config) :
    (fuel : Nat) → (seen : List Setting) → List Char → Read (Config × List Char)
  | 0, _, cs => stopJson .tooDeep cs
  | fuel + 1, seen, cs => do
    let (more, rest) ← nextKey seen.isEmpty cs
    if !more then return (c, rest)
    let (key, rest) ← liftText (Json.stringRest [] rest)
    match Setting.ofKey? key with
    | none => stopKey (.unknownKey key) rest
    | some s =>
      if s ∈ seen then stopKey (.duplicateKey s) rest
      else
        match Json.skipBlanks rest with
        | ':' :: rest =>
          let (c, rest) ← readSetting c s rest
          readMembers c fuel (s :: seen) rest
        | [] => stopJson .endInObject []
        | rest => stopJson .expectedColon rest

/-- The end of an array that has an element for every setting. -/
def endElems (c : Config) (cs : List Char) : Read (Config × List Char) :=
  match Json.skipBlanks cs with
  | ']' :: rest => .ok (c, rest)
  | [] => stopJson .endInList []
  | ',' :: rest =>
    match Json.skipBlanks rest with
    | ']' :: rest => stopJson .trailingComma (']' :: rest)
    | rest => stopJson .trailingText rest
  | rest => stopJson .trailingText rest

/-- The elements of an array, one for each of the given settings at most. -/
def readElems (c : Config) :
    (isFirst : Bool) → List Setting → List Char → Read (Config × List Char)
  | _, [], cs => endElems c cs
  | isFirst, s :: ss, cs =>
    match Json.skipBlanks cs with
    | ']' :: rest => .ok (c, rest)
    | [] => stopJson .endInList []
    | cs =>
      if isFirst then do
        let (c, rest) ← readSetting c s cs
        readElems c false ss rest
      else
        match cs with
        | ',' :: rest =>
          match Json.skipBlanks rest with
          | ']' :: rest => stopJson .trailingComma (']' :: rest)
          | [] => stopJson .endInValue []
          | rest => do
            let (c, rest) ← readSetting c s rest
            readElems c false ss rest
        | rest => stopJson .expectedListEnd rest

/-- The settings of a text, which are not checked together. -/
def readSettings (text : List Char) : Read Config := do
  let (c, rest) ←
    match Json.skipBlanks text with
    | '\x7b' :: rest => readMembers default (Setting.all.length + 1) [] rest
    | '[' :: rest => readElems default true Setting.all rest
    | cs => mismatch .settings cs
  match Json.skipBlanks rest with
  | [] => .ok c
  | rest => stopJson .trailingText rest

/-- The configuration that a text describes; what it does not mention has its default. -/
def ofJson (text : String) : Except ReadFault Config := do
  let c ← (readSettings text.toList).mapError fun s =>
    let (line, column) := s.place text.toList
    ReadFault.text s.fault line column
  c.validate.mapError .config
  return c

end Config

end PlainJs

import PlainJs.Text.Identifier

namespace PlainJs

/-- Which constructs are lowered. `keyHelper` names the function that enumerates keys;
`emitKeyHelper` asks for its definition behind a program that calls it. -/
structure Config where
  declarations : Bool
  continues : Bool
  loops : Bool
  switches : Bool
  finallys : Bool
  keyHelper : String
  emitKeyHelper : Bool
deriving DecidableEq, Repr

/-- Why a configuration cannot be used. -/
inductive ConfigFault
  /-- A `for` loop cannot be lowered while a `continue` may skip its update. -/
  | loopsWithoutContinues
  | helperName (name : String)
deriving DecidableEq, Repr

namespace ConfigFault

def message : ConfigFault → String
  | loopsWithoutContinues =>
    "the loop pass needs the continue pass: a surviving `continue` would skip the `for` update"
  | helperName name =>
    "`" ++ name ++ "` is not a valid JavaScript identifier or is a reserved word; " ++
      "it cannot name the for-in helper"

end ConfigFault

namespace Config

/-- Lowers everything and leaves the key helper to the host. -/
def default : Config := ⟨true, true, true, true, true, "$forIn", false⟩

def validate (c : Config) : Except ConfigFault Unit :=
  if c.loops && !c.continues then .error .loopsWithoutContinues
  else if !Text.isIdentifier c.keyHelper then .error (.helperName c.keyHelper)
  else .ok ()

/-- The definition of the key helper under its configured name. -/
def helperSource (c : Config) : String :=
  "function* " ++ c.keyHelper ++ "(o) \x7b for (const k in o) yield k; \x7d"

end Config

end PlainJs

namespace PlainJs

/-- Why a file can be neither read nor written. -/
inductive FileFault
  | missing
  | notDirectory
  | isDirectory
deriving DecidableEq, Repr

def FileFault.message : FileFault → String
  | missing => "No such file or directory (os error 2)"
  | notDirectory => "Not a directory (os error 20)"
  | isDirectory => "Is a directory (os error 21)"

/-- The files that a command finds: their texts, and the names under which files can be written. -/
structure Files where
  text : String → Except FileFault String
  place : String → Except FileFault String

/-- The names on the way to a file or directory, outermost first. -/
abbrev Route := List String

namespace Route

def ofPath (path : String) : Route := path.splitOn "/"

def toPath (r : Route) : String := "/".intercalate r

/-- Whether a name stays in the directory where it is read. -/
def isIdle (name : String) : Bool := name.isEmpty || name == "."

end Route

/-- Texts by the routes that lead to them. -/
abbrev FileTree := List (Route × String)

namespace FileTree

def ofTexts (texts : List (String × String)) : FileTree :=
  texts.map fun (path, text) => (Route.ofPath path, text)

def isFile (t : FileTree) (r : Route) : Bool := t.any (·.1 == r)

/-- Directories are what lies on the way to a file. -/
def isDirectory (t : FileTree) (r : Route) : Bool :=
  r.isEmpty || t.any fun (file, _) => r.isPrefixOf file && r != file

/-- Follows the names of a path from a directory; what lies outside the tree is missing. -/
def follow (t : FileTree) (here : Route) : List String → Except FileFault Route
  | [] => .ok here
  | name :: names => do
    if !t.isDirectory here then
      throw (if t.isFile here then .notDirectory else .missing)
    if Route.isIdle name then t.follow here names
    else if name == ".." then
      if here.isEmpty then throw .missing else t.follow here.dropLast names
    else t.follow (here ++ [name]) names

/-- Where a path leads. -/
def locate (t : FileTree) (path : String) : Except FileFault Route :=
  if path.startsWith "/" then .error .missing else t.follow [] (Route.ofPath path)

def text (t : FileTree) (path : String) : Except FileFault String := do
  let r ← t.locate path
  if t.isDirectory r then throw .isDirectory
  match t.lookup r with
  | some text => return text
  | none => throw .missing

/-- The name of a file that is written. -/
def place (t : FileTree) (path : String) : Except FileFault String := do
  let r ← t.locate path
  if t.isDirectory r || path.endsWith "/" then throw .isDirectory
  return Route.toPath r

def files (t : FileTree) : Files := ⟨t.text, t.place⟩

end FileTree

end PlainJs

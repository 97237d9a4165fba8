import StuntDouble.Config
import StuntDouble.FilePaths

/-!
Paths of the configuration as the standard library of a Unix system has them: file name,
extension, parent and join, on the text of the path.
-/
namespace StuntDouble.Configuration

open Files

/-- The last component, when it is a name. -/
def pathFileName (path : List Char) : Option (List Char) :=
  match (pathComponents path).getLast? with
  | some (.normal name) => some name
  | _ => none

/-- What follows the last dot of the file name, which must not be its first character. -/
def pathExtension (path : String) : Option String :=
  (pathFileName path.toList).bind fun name =>
    match splitOnce '.' name.reverse with
    | some (after, before) => if before = [] then none else some (String.ofList after.reverse)
    | none => none

/-- The pieces of a path, last first, without those at the end that are no component: empty
ones and single dots, but for a dot that starts a relative path. -/
def dropSilent (relative : Bool) : List (List Char) → List (List Char)
  | [] => []
  | [piece] =>
    if piece = [] ∨ (piece = ['.'] ∧ relative = false) then [] else [piece]
  | piece :: next :: rest =>
    if piece = [] ∨ piece = ['.'] then dropSilent relative (next :: rest)
    else piece :: next :: rest

def pathIsAbsolute (path : String) : Bool := path.toList.head? = some '/'

def joinPieces : List (List Char) → List Char
  | [] => []
  | [piece] => piece
  | piece :: rest => piece ++ '/' :: joinPieces rest

/-- The path without its last component; a root and the empty path have no parent. -/
def pathParent (path : String) : Option String :=
  let absolute := pathIsAbsolute path
  let body := if absolute then path.toList.tail else path.toList
  match dropSilent (!absolute) (body.splitOn '/').reverse with
  | [] => none
  | _ :: rest => some (String.ofList ((if absolute then ['/'] else []) ++
      joinPieces (dropSilent (!absolute) rest).reverse))

def pathJoin (base path : String) : String :=
  if pathIsAbsolute path then path
  else if base = "" ∨ base.toList.getLast? = some '/' then base ++ path
  else base ++ "/" ++ path

/-- What a Unix system leaves open: its files, the address grammars and how text is shown. -/
structure Surroundings where
  isDir : String → Bool
  isIpLiteral : String → Bool
  parseHost : String → Option String
  debugText : String → String

def unixPlatform (given : Surroundings) : Platform where
  isAbsolute := pathIsAbsolute
  join := pathJoin
  parent path := (pathParent path).getD "."
  extension := pathExtension
  isDir := given.isDir
  isIpLiteral := given.isIpLiteral
  parseHost := given.parseHost
  debugText := given.debugText

example : pathExtension "scripts/handlers.d/x.mjs" = some "mjs" := by decide +kernel

example : pathExtension "scripts/.js" = none := by decide +kernel

example : pathParent "demo/./stuntdouble.toml" = some "demo" := by decide +kernel

end StuntDouble.Configuration

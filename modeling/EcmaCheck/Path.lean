/-!
# Paths

Paths are names with slashes between them. Empty names and single dots name nothing, and two dots lead up.
-/

namespace EcmaCheck.Path

/-- What stands between the slashes of a path. -/
def parts (path : String) : List String :=
  path.splitOn "/"

/-- Whether a part of a path leads nowhere else. -/
def isVoid (part : String) : Bool :=
  part = "" || part = "."

/-- The parts of a path that name something. -/
def components (path : String) : List String :=
  (parts path).filter fun part => !isVoid part

/-- The part of a file name after its last dot, unless it begins with that dot. -/
def extension? (name : String) : Option String :=
  let characters := name.toList.reverse
  let afterDot := characters.takeWhile (· ≠ '.')
  match characters.drop afterDot.length with
  | '.' :: _ :: _ => some (String.ofList afterDot.reverse)
  | _ => none

/-- The name of the file that a path names, unless it leads up. -/
def fileName? (path : String) : Option String :=
  (components path).getLast?.filter (· ≠ "..")

end EcmaCheck.Path

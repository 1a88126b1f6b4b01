import StepScript.Text

/-! The folder in which the command runs, as reading a file shows it: the files in it, and nothing
known outside. -/
namespace StepScript.CommandLine

inductive ReadError where
  | missing
  | notFolder
  | isFolder
  | nameTooLong
  | other (text : Text)

def ReadError.message : ReadError → Text
  | .missing => "No such file or directory (os error 2)".toList
  | .notFolder => "Not a directory (os error 20)".toList
  | .isFolder => "Is a directory (os error 21)".toList
  | .nameTooLong => "File name too long (os error 36)".toList
  | .other text => text

/-- Names with contents. -/
abbrev Folder := List (Text × Text)

namespace Folder

/-- Follows a path name by name. An empty name and `.` stay; `..` leads out, where no name is
known. -/
def walk (folder : Folder) : List Text → Except ReadError Text
  | [] => .error .isFolder
  | name :: more =>
    if name = [] || name = ['.'] then walk folder more
    else if name = ['.', '.'] then walk [] more
    else if 255 < name.width then .error .nameTooLong
    else match folder.lookup name, more with
      | none, _ => .error .missing
      | some content, [] => .ok content
      | some _, _ :: _ => .error .notFolder

/-- A path that starts with a slash starts outside. -/
def read (folder : Folder) (path : Text) : Except ReadError Text :=
  if path.isEmpty then .error .missing
  else if 4095 < path.width then .error .nameTooLong
  else if path.head? = some '/' then walk [] (splitWhere (· == '/') path)
  else walk folder (splitWhere (· == '/') path)

end Folder
end StepScript.CommandLine

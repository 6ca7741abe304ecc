/-!
# Faults of the file tree

Why a step on the file tree was refused.

## Main definitions

* `TreeFault`: the reasons.
* `TreeFault.message`: their wording.
-/

namespace ResourceTables

/-- Why a step on the file tree was refused. -/
inductive TreeFault where
  /-- Nothing is there. -/
  | notFound
  /-- Something is there already. -/
  | alreadyThere
  /-- A file stands where a directory is needed. -/
  | notADirectory
  /-- A directory stands where a file is needed. -/
  | isADirectory
  /-- The bytes of a file are no text. -/
  | notText
  /-- A path holds the character NUL. -/
  | nulInPath
  /-- A reason given in words. -/
  | stated (reason : String)
deriving DecidableEq

/-- The wording of a fault. -/
def TreeFault.message : TreeFault → String
  | .notFound => "No such file or directory (os error 2)"
  | .alreadyThere => "File exists (os error 17)"
  | .notADirectory => "Not a directory (os error 20)"
  | .isADirectory => "Is a directory (os error 21)"
  | .notText => "stream did not contain valid UTF-8"
  | .nulInPath => "file name contained an unexpected NUL byte"
  | .stated reason => reason

end ResourceTables

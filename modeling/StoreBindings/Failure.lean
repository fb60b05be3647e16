import StoreBindings.Path.Basic

/-!
# What can stop the program

The causes for which an operation ends without a result. What is wrong with a store is none of
them: it is reported in a message, and the work goes on.
-/

namespace StoreBindings

/-- The cause for which an operation ended. -/
inductive Failure
  /-- No compiler configuration in a directory or above it. -/
  | noCompilerConfig (start : Path)
  | badCompilerConfig (file : Path)
  | badOptions (file : Path)
  | unknownDialect (name : String)
  | badPattern (pattern : String)
  /-- The directory of the stores cannot be watched. -/
  | notWatchable
  /-- A file or a directory cannot be read or written. -/
  | inaccessible
deriving DecidableEq, Repr

namespace Failure

/-- The wording of a failure, where it is the program's own. -/
def message? : Failure → Option String
  | noCompilerConfig start =>
    some s!"Could not find a tsconfig.json in '{start.toString}' or any parent directory"
  | badCompilerConfig file => some s!"Failed to parse compiler configuration '{file.toString}'"
  | badOptions file => some s!"Failed to parse plugin options '{file.toString}'"
  | unknownDialect name =>
    some (s!"Failed to load tree-sitter grammar: Unsupported language: '{name}'. " ++
      "Supported languages: typescript, tsx")
  | badPattern pattern => some s!"Invalid file pattern '{pattern}'"
  | notWatchable => none
  | inaccessible => none

end Failure

end StoreBindings

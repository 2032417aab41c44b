/-!
Failures that end the program: what could not be done, and why.
-/

namespace EditorLint.CommandLine

structure Failure where
  message : String
  cause : String
  deriving DecidableEq, Repr

def Failure.text (failure : Failure) : String :=
  "Error: " ++ failure.message ++ "\n\nCaused by:\n    " ++ failure.cause ++ "\n"

end EditorLint.CommandLine

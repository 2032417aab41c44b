/-!
Running programs.
-/

namespace EditorLint

structure Invocation where
  program : String
  arguments : List String
  directory : String
  input : String
  deriving DecidableEq, Repr

/-- How a program ended: its exit status, unless a signal ended it, and what it printed. -/
structure Completion where
  status : Option Nat
  output : String
  errors : String := ""
  deriving DecidableEq, Repr

/-- What happens when a program is run, which may depend on the runs before it. -/
abbrev Runner (σ : Type) := Invocation → σ → Completion × σ

end EditorLint

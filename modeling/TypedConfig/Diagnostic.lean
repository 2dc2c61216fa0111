/-! # Diagnostics -/

namespace TypedConfig

/-- An error as it is shown to a user: what kind it is, what happened and what to do about it. -/
structure Diagnostic where
  code : String
  message : String
  help : Option String
deriving DecidableEq, Repr

def Diagnostic.lines (d : Diagnostic) : List String :=
  (d.code ++ ": " ++ d.message) :: d.help.toList.map ("  help: " ++ ·)

end TypedConfig

/-!
# Mistakes of a caller

What a request can get wrong.  A query that finds nothing is an outcome, not a mistake.
-/

namespace CodeIndex

/-- A mistake in a request. -/
inductive QueryError where
  | invalidTypeFilter (value : String)
  | missingArgument (name : String)
  | invalidArgument (name reason : String)
  | unknownTool (name : String)
  deriving DecidableEq, Repr, Inhabited

/-- The wording of a mistake. -/
def QueryError.message : QueryError → String
  | .invalidTypeFilter value =>
    "invalid type filter '" ++ value ++
      "' (expected one of: all, class, method, constant, property)"
  | .missingArgument name => "missing required argument '" ++ name ++ "'"
  | .invalidArgument name reason => "invalid value for argument '" ++ name ++ "': " ++ reason
  | .unknownTool name => "unknown tool '" ++ name ++ "'"

end CodeIndex

/-!
# Errors

Why an operation is refused, and the message of each refusal.
-/

namespace CodeQuality

/-- Why an operation is refused. -/
inductive Error where
  /-- An input field holds what cannot be scored. -/
  | validation (field reason : String)
  /-- A configuration cannot be used. -/
  | configuration (reason : String)
  /-- An error, told apart by what was being done. -/
  | context (doing message : String)
  /-- A file cannot be read. -/
  | io (reason : String)
  /-- A text is no JSON, or no JSON of the expected form. -/
  | json
  /-- A text is no TOML, or no TOML of the expected form. -/
  | toml
deriving DecidableEq

namespace Error

/-- The message of an error. -/
def message : Error → String
  | validation field reason => s!"Validation error in {field}: {reason}"
  | configuration reason => s!"Configuration error: {reason}"
  | context doing message => s!"{doing}: {message}"
  | io reason => reason
  | json => "malformed JSON"
  | toml => "malformed TOML"

/-- The error with a note of what was being done. -/
def within (e : Error) (doing : String) : Error := context doing e.message

end Error

end CodeQuality

/-!
# Errors of the configuration

The causes for which there is no configuration, and their texts.
-/

namespace IdlModel

/-- Why there is no configuration. A path is that of the keys to the value in question. -/
inductive ConfigError where
  /-- The file that is asked for does not exist. -/
  | missingFile (path : String)
  /-- A file cannot be read, or is not TOML. -/
  | notToml
  /-- A value is not of the kind that is needed. -/
  | invalidType (path : List String)
  /-- A word is none of those that are known. -/
  | unknownVariant (path : List String)
  /-- A quoted text in a variable would have to be cut within a character. -/
  | cutCharacter
  deriving DecidableEq, Repr

/-- The text of an error. -/
def ConfigError.message : ConfigError → String
  | .missingFile path => "Config file not found: " ++ path
  | .notToml => "Configuration error: TOML parse error"
  | .invalidType path => "Configuration error: invalid type for key `" ++ ".".intercalate path ++ "`"
  | .unknownVariant path =>
    "Configuration error: unknown variant for key `" ++ ".".intercalate path ++ "`"
  | .cutCharacter => "Configuration error: text cut within a character"

end IdlModel

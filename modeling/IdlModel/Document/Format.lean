import IdlModel.Document.Encode
import IdlModel.Document.Outline
import IdlModel.Json.Printer

/-!
# Output formats

The three forms in which a document is written out.
-/

namespace IdlModel

/-- A form of output. -/
inductive Format where
  /-- JSON over several lines. -/
  | json
  /-- JSON on one line. -/
  | raw
  /-- The outline. -/
  | summary
  deriving DecidableEq, Repr, Inhabited

namespace Format

/-- Every format. -/
def all : List Format := [.json, .raw, .summary]

/-- The word for a format. -/
def name : Format → String
  | .json => "json"
  | .raw => "raw"
  | .summary => "summary"

/-- The format that a word stands for. -/
def ofName? : String → Option Format
  | "json" => some .json
  | "raw" => some .raw
  | "summary" => some .summary
  | _ => none

theorem ofName?_name (f : Format) : ofName? f.name = some f := by
  cases f <;> rfl

end Format

/-- A document in one of the formats. -/
def Document.render (d : Document) : Format → String
  | .json => d.toJson.pretty
  | .raw => d.toJson.compact
  | .summary => d.outline

end IdlModel

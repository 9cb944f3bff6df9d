import IdlModel.Proofs.Command.Output
import IdlModel.Proofs.Document.AnyForm
import IdlModel.Proofs.Document.Schema

/-!
# What `schema` prints

A run of `schema` with a configuration prints the schema of documents. The printed schema agrees
with what is written and with what is read (`Command.run_schema`): the JSON that a document is
rendered as is valid, and each text of a valid value, as long as the value repeats no key, holds no
number and does not nest too deep, is read as a document.
-/

namespace IdlModel

open Json (Readable Written)
open Json.Reader

/-- The value that a text denotes. -/
def Json.ofText (text : String) : Except Json.ReadError Json :=
  Json.Reader.read (value maxDepth) text

namespace Document

open Schema in
/-- The schema as a value. -/
theorem readable_schema : schema.Readable 8 := by
  -- the descriptions stay in pieces; joined, they are slow to check
  simp [-String.reduceAppend, schema, definitions, tagged, record, listOf, nullableText, text,
    ofType, reference, Json.ofMembers, Json.member, Json.member?, Json.ofStrings,
    Json.readable_object_iff, Json.readable_array_iff, Readable.string]

/-- The value that the JSON renderings of a document denote. -/
theorem read_render {f : Format} (d : Document) (hf : f ≠ .summary) :
    Json.ofText (d.render f) = .ok d.toJson := by
  have hvalue : d.toJson.Readable maxDepth := d.readable_toJson.mono (by decide)
  cases f with
  | json => exact read_print hvalue.numberFree (reads_value hvalue) (.indented 0)
  | raw => exact read_print hvalue.numberFree (reads_value hvalue) .compact
  | summary => exact absurd rfl hf

/-- Each text of a valid value is read as a document that the value is a form of. -/
theorem exists_ofJsonText {v : Json} {text : String} (hplain : v.Plain) (hdepth : v.depth ≤ 127)
    (hvalid : v.ValidAgainst schema) (htext : Written v.toTokens text.toList) :
    ∃ d : Document, ofJsonText text = .ok d ∧ d.IsForm v := by
  obtain ⟨d, h⟩ := (exists_isForm_iff hplain).2 hvalid
  exact ⟨d, read_written (reads_of_isForm h hdepth) htext, h⟩

end Document

namespace Command

variable {host : Host} {args : List String} {r : Request} {config : Config}

theorem run_of_schema (hargs : Request.ofArgs args = .ok r) (haction : r.action = .schema)
    (hconfig : Config.load host r.config = .ok config) :
    run host args = { code := 0, stdout := Document.schema.pretty ++ "\n" } := by
  simp only [run, hargs, Request.output, haction, hconfig, bind, Except.bind, pure, Except.pure]

/-- The schema that is printed, the renderings of documents and the reading of documents are of one
format. -/
theorem run_schema (hargs : Request.ofArgs args = .ok r) (haction : r.action = .schema)
    (hconfig : Config.load host r.config = .ok config) :
    let outcome := run host args
    outcome.code = 0 ∧
    Json.ofText outcome.stdout = .ok Document.schema ∧
    (∀ (d : Document) (f : Format), f ≠ .summary →
      ∃ v, Json.ofText (d.render f) = .ok v ∧ v.ValidAgainst Document.schema) ∧
    ∀ (v : Json) (text : String), v.DistinctKeys → v.NumberFree → v.depth ≤ 127 →
      v.ValidAgainst Document.schema → Written v.toTokens text.toList →
        ∃ d : Document, Document.ofJsonText text = .ok d ∧ d.IsForm v := by
  intro outcome
  have hrun : outcome = _ := run_of_schema hargs haction hconfig
  refine ⟨by rw [hrun], ?_, fun d f hf => ?_, fun v text hkeys hfree hdepth hvalid htext => ?_⟩
  · have hvalue : Document.schema.Readable maxDepth :=
      Document.readable_schema.mono (by decide)
    have hwritten : Written Document.schema.toTokens (Document.schema.pretty ++ "\n").toList := by
      have hnewline : Written [] ['\n'] := .space rfl .nil
      have hprinted := (Json.written_print hvalue.numberFree (.indented 0)).append hnewline
      rw [List.append_nil] at hprinted
      rw [String.toList_append, Json.pretty, String.toList_ofList]
      exact hprinted
    rw [hrun]
    exact read_written (reads_value hvalue) hwritten
  · exact ⟨d.toJson, d.read_render hf, Document.validAgainst_of_isForm d.isForm_toJson⟩
  · exact Document.exists_ofJsonText ⟨hkeys, hfree⟩ hdepth hvalid htext

/-- A value with a member that documents do not have, a comment that is null and a list that is left
out. -/
def fruit : Json :=
  .object [("note", .null),
    ("declarations", .array [.object [("comment", .null), ("name", .string "Fruit"),
      ("kind", .string "enum")]]),
    ("name", .string "orchard.idl")]

theorem distinctKeys_fruit : fruit.DistinctKeys := by
  refine .object (by decide) ?_
  simp only [List.forall_mem_cons]
  refine ⟨.null, .array (List.forall_mem_singleton.2 (.object (by decide) ?_)), .string _, nofun⟩
  simp only [List.forall_mem_cons]
  exact ⟨.null, .string _, .string _, nofun⟩

theorem numberFree_fruit : fruit.NumberFree := by
  refine .object ?_
  simp only [List.forall_mem_cons]
  refine ⟨.null, .array (List.forall_mem_singleton.2 (.object ?_)), .string _, nofun⟩
  simp only [List.forall_mem_cons]
  exact ⟨.null, .string _, .string _, nofun⟩

/-- The schema of documents, one document, and a form of another one. -/
theorem run_schema_orchard :
    (run orchard ["schema"]).code = 0 ∧
    Json.ofText (run orchard ["schema"]).stdout = .ok Document.schema ∧
    (∃ v, Json.ofText (Document.render ⟨"orchard.idl", []⟩ .raw) = .ok v ∧
      v.ValidAgainst Document.schema) ∧
    fruit.ValidAgainst Document.schema ∧
    ∃ d, Document.ofJsonText fruit.pretty = .ok d ∧ d.IsForm fruit := by
  have hargs : Request.ofArgs ["schema"] = .ok { action := .schema } := by decide +kernel
  have hconfig : Config.load orchard none = .ok { format := .summary } := by decide +kernel
  have hvalid : fruit.ValidAgainst Document.schema := ⟨14, by decide +kernel⟩
  have hfruit : Written fruit.toTokens fruit.pretty.toList := by
    rw [Json.pretty, String.toList_ofList]
    exact Json.written_print numberFree_fruit (.indented 0)
  obtain ⟨hcode, hschema, hrendered, hread⟩ := run_schema hargs rfl hconfig
  exact ⟨hcode, hschema, hrendered _ .raw nofun, hvalid,
    hread fruit _ distinctKeys_fruit numberFree_fruit (by decide +kernel) hvalid hfruit⟩

end Command

end IdlModel

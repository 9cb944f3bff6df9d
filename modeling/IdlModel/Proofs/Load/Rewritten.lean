import IdlModel.Proofs.Document.AnyForm
import IdlModel.Proofs.Node.Form

/-!
# Texts written in another way

What is read from a text depends neither on the form that it is the text of, nor on how the tokens
of the form are written (`ofJsonText_of_isForm`).
-/

namespace IdlModel

open Json (Written)
open Json.Reader

/-- Reading does not depend on how the JSON is written. Of a document or a tree, the form that is
written out is one of its forms; and every text that is made of the tokens of a form, whatever white
space there is between them and however its strings are escaped, is read as the document or the tree
again, if the form nests no deeper than 127 levels. -/
theorem ofJsonText_of_isForm :
    (∀ d : Document, d.IsForm d.toJson ∧ Written d.toJson.toTokens (d.render .raw).toList ∧
      ∀ (v : Json) (text : String), d.IsForm v → v.depth ≤ 127 →
        Written v.toTokens text.toList → Document.ofJsonText text = .ok d) ∧
    ∀ t : Node, t.IsForm t.toJson ∧ Written t.toJson.toTokens t.toJson.compact.toList ∧
      ∀ (v : Json) (text : String), t.IsForm v → v.depth ≤ 127 →
        Written v.toTokens text.toList → Node.ofJsonText text = .ok t := by
  have hcompact {v : Json} (h : v.NumberFree) : Written v.toTokens v.compact.toList :=
    String.toList_ofList ▸ Json.written_print h .compact
  refine ⟨fun d => ⟨d.isForm_toJson, hcompact d.readable_toJson.numberFree, ?_⟩,
    fun t => ⟨t.isForm_toJson, hcompact t.numberFree_toJson, ?_⟩⟩
  · exact fun v text h hdepth htext => read_written (Document.reads_of_isForm h hdepth) htext
  · exact fun v text h hdepth htext => read_written (Node.reads_of_isForm h hdepth) htext

/-- A document with an empty enum that has no comment. -/
def plain : Document :=
  { name := "plain.json", declarations := [{ name := "Colour", body := .enum [] }] }

/-- A form of the enum with its members the other way round: its kind comes last, its comment is
null and its list is missing, and there is a member that an enum does not have. -/
def reversedEnum : Json :=
  .object [("kind", .string "enum"), ("name", .string "Colour"), ("comment", .null),
    ("methods", .array [.null])].reverse

/-- A form of the document with that form of the enum in it. -/
def reversedDocument : Json :=
  .object [("name", .string "plain.json"), ("declarations", .array [reversedEnum]),
    ("version", .object [("beta", .bool true)])].reverse

/-- A form of an empty tree with everything that may be left out, and one member more. -/
def reversedTree : Json :=
  .object [("kind", .string "document"), ("text", .string ""), ("fields", .object []),
    ("children", .array []), ("line", .null)].reverse

/-- Both forms are read from texts with white space between their tokens. -/
theorem ofJsonText_of_isForm_reversed :
    plain.IsForm reversedDocument ∧ reversedDocument.depth ≤ 127 ∧
      Written reversedDocument.toTokens reversedDocument.pretty.toList ∧
      Document.ofJsonText reversedDocument.pretty = .ok plain ∧
      (Node.document []).IsForm reversedTree ∧ reversedTree.depth ≤ 127 ∧
      Written reversedTree.toTokens reversedTree.pretty.toList ∧
      Node.ofJsonText reversedTree.pretty = .ok (Node.document []) := by
  have henum : Declaration.IsForm { name := "Colour", body := .enum [] } reversedEnum := by
    refine ⟨[("kind", .string "enum"), ("name", .string "Colour"), ("comment", .null)],
      [("methods", .array [.null])], _, rfl, List.reverse_perm _,
      .written rfl (.written rfl (.written (.inr ⟨rfl, rfl⟩) (.leftOut (.inr ⟨rfl, rfl⟩) .nil))),
      List.forall_mem_singleton.2 ⟨by decide, ?_⟩⟩
    exact .array (List.forall_mem_singleton.2 .null)
  have hdocument : plain.IsForm reversedDocument := by
    refine ⟨[("name", .string "plain.json"), ("declarations", .array [reversedEnum])],
      [("version", .object [("beta", .bool true)])], _, rfl, List.reverse_perm _,
      .written rfl (.written (.inl ⟨[reversedEnum], rfl, .cons henum .nil⟩) .nil),
      List.forall_mem_singleton.2 ⟨by decide, ?_⟩⟩
    exact .object (List.forall_mem_singleton.2 (.bool true))
  have htree : (Node.document []).IsForm reversedTree := by
    refine Node.isForm_iff.2 ⟨[("kind", .string "document"), ("text", .string ""),
        ("fields", .object []), ("children", .array [])],
      [("line", .null)], _, rfl, List.reverse_perm _,
      .written rfl (.written (.inl rfl) (.written (.inl ⟨[], .refl _, rfl⟩)
        (.written (.inl ⟨[], rfl, .nil⟩) .nil))),
      List.forall_mem_singleton.2 ⟨by decide, .null⟩⟩
  have hpretty {v : Json} (h : v.NumberFree) : Written v.toTokens v.pretty.toList :=
    String.toList_ofList ▸ Json.written_print h (.indented 0)
  have hdocumentText := hpretty (hdocument.numberFree plain.nodup_slots plain.numberFree_of_slots)
  have htreeText := hpretty (Node.numberFree_of_isForm htree)
  have hlevels : reversedDocument.depth ≤ 127 := by decide
  have hlevels' : reversedTree.depth ≤ 127 := by decide
  exact ⟨hdocument, hlevels, hdocumentText,
    (ofJsonText_of_isForm.1 plain).2.2 _ _ hdocument hlevels hdocumentText,
    htree, hlevels', htreeText,
    (ofJsonText_of_isForm.2 (Node.document [])).2.2 _ _ htree hlevels' htreeText⟩

end IdlModel

import IdlModel.Proofs.Document.Rendering
import IdlModel.Proofs.Document.RoundTrip
import IdlModel.Proofs.Json.Streaming
import IdlModel.Proofs.Node.RoundTrip

/-!
# Files that are cut off

The readers of documents and of trees stream: they are made of parts that do, and so none of them
looks ahead. A form ends in its closing bracket, so that something of it is missing wherever its
text is cut, and as the whole text is read to its end, all that can be wrong with a beginning of it
is that it ends too early (`endOfText_of_cut`). It is not taken for a form with fewer members, and
no member that has been read before the cut is found not to fit.
-/

namespace IdlModel

open Json (Reader Token Layout)
open Json.Reader

/-! ## The readers stream -/

namespace Declaration

theorem streams_readKind : Streams readKind := by
  refine streams_head.bind fun head => ?_
  split
  · exact .ofExcept _
  · exact .mismatch _

theorem streams_readMember (levels : Nat) (key : String) (d : Draft) :
    Streams (readMember levels key d) := by
  rw [readMember]
  split
  · exact (streams_once streams_readKind key d.kind).map fun kind => { d with kind }
  · exact streams_colon.bind fun _ => (streams_value levels).map fun v =>
      { d with others := (key, v) :: d.others }

theorem streams_readTagged (levels : Nat) : Streams (readTagged levels) := by
  refine streams_head.bind fun head => ?_
  split
  · refine (streams_spend levels).bind fun _ => ?_
    refine (streams_members (streams_readMember (levels - 1)) {}).bind fun d => ?_
    refine (Streams.ofExcept _).bind fun kind => ?_
    exact (streams_close .curly).map fun _ => (kind, Json.object d.others.reverse)
  · refine (streams_spend levels).bind fun _ => ?_
    refine (streams_itemAt? streams_readKind 0).bind fun kind => ?_
    cases kind with
    | none => exact .mismatch _
    | some kind =>
      refine streams_itemsFrom (streams_value (levels - 1)) false fun vs => ?_
      exact (streams_close .square).map fun _ => (kind, Json.array vs)
  · exact .mismatch _

theorem streams_reader (levels : Nat) : Streams (reader levels) :=
  (streams_readTagged levels).bind fun _ => .ofExcept _

end Declaration

namespace Document

theorem streams_readDeclarations (levels : Nat) : Streams (readDeclarations levels) :=
  streams_list (Declaration.streams_reader (levels - 1)) levels

theorem streams_readMember (levels : Nat) (key : String) (d : Draft) :
    Streams (readMember levels key d) := by
  unfold readMember
  split
  · exact (streams_once streams_string _ d.name).map fun name => { d with name }
  · exact (streams_once (streams_readDeclarations levels) _ d.declarations).map fun declarations =>
      { d with declarations }
  · exact streams_colon.bind fun _ => streams_skipValue.map fun _ => d

theorem streams_reader (levels : Nat) : Streams (reader levels) := by
  refine streams_head.bind fun head => ?_
  split
  · refine (streams_spend levels).bind fun _ => ?_
    refine (streams_members (streams_readMember (levels - 1)) {}).bind fun d => ?_
    refine (Streams.ofExcept _).bind fun document => ?_
    exact (streams_close .curly).map fun _ => document
  · refine (streams_spend levels).bind fun _ => ?_
    refine (streams_itemAt? streams_string 0).bind fun name => ?_
    cases name with
    | none => exact .mismatch _
    | some name =>
      refine (streams_itemAt? (streams_readDeclarations (levels - 1)) 1).bind fun declarations => ?_
      refine (Streams.ofExcept _).bind fun document => ?_
      exact (streams_close .square).map fun _ => document
  · exact .mismatch _

end Document

namespace Node

variable {child : Reader Node}

theorem streams_readFields (levels : Nat) : Streams (readFields levels) := by
  refine streams_head.bind fun head => ?_
  split
  · refine (streams_spend levels).bind fun _ => ?_
    refine (streams_members (fun name fields => ?_) Fields.empty).bind fun fields => ?_
    · exact streams_colon.bind fun _ => streams_string.map fun text => fields.insert name text
    · exact (streams_close .curly).map fun _ => fields
  · exact .mismatch _

theorem streams_readMember (hchild : Streams child) (levels : Nat) (key : String) (d : Draft) :
    Streams (readMember levels child key d) := by
  unfold readMember
  split
  · exact (streams_once streams_string _ d.rule).map fun rule => { d with rule }
  · exact (streams_once streams_string _ d.text).map fun text => { d with text }
  · exact (streams_once (streams_readFields levels) _ d.fields).map fun fields => { d with fields }
  · exact (streams_once (streams_list hchild levels) _ d.children).map fun children =>
      { d with children }
  · exact streams_colon.bind fun _ => streams_skipValue.map fun _ => d

theorem streams_readItems (hchild : Streams child) (levels : Nat) :
    Streams (readItems levels child) := by
  refine (streams_itemAt? streams_string 0).bind fun rule => ?_
  cases rule with
  | none => exact .mismatch _
  | some rule =>
    refine (streams_itemAt? streams_string 1).bind fun text => ?_
    refine (streams_itemAt? (streams_readFields levels) 2).bind fun fields => ?_
    exact (streams_itemAt? (streams_list hchild levels) 3).bind fun children => .ofExcept _

theorem streams_readWith (hchild : Streams child) (levels : Nat) :
    Streams (readWith levels child) := by
  refine streams_head.bind fun head => ?_
  split
  · refine (streams_spend levels).bind fun _ => ?_
    refine (streams_members (streams_readMember hchild (levels - 1)) {}).bind fun d => ?_
    refine (Streams.ofExcept _).bind fun n => ?_
    exact (streams_close .curly).map fun _ => n
  · refine (streams_spend levels).bind fun _ => ?_
    refine (streams_readItems hchild (levels - 1)).bind fun n => ?_
    exact (streams_close .square).map fun _ => n
  · exact .mismatch _

theorem streams_reader (levels : Nat) : Streams (reader levels) := by
  induction levels using reader.induct with
  | case1 levels ih => exact streams_readWith ih (levels + 2)
  | case2 levels h =>
    rw [reader.eq_2 levels h]
    exact streams_readWith (.fault _) levels

end Node

/-! ## Cut texts -/

/-- Something other than white space is missing wherever the text of an object is cut. -/
theorem Json.exists_solid_of_cut {layout : Layout} {ms : List (String × Json)}
    {q missing : List Char} (h : (Json.object ms).print layout = q ++ missing)
    (hmissing : missing ≠ []) : ∃ c ∈ missing, Token.isSpace c = false := by
  obtain ⟨cs, hcs⟩ := exists_print_object layout ms
  have hlast : missing.getLast? = some '\x7d' := by
    rw [← List.getLast?_append_of_ne_nil q hmissing, ← h, hcs, List.getLast?_concat]
  exact ⟨'\x7d', List.mem_of_getLast? hlast, rfl⟩

theorem Json.Reader.read_cut_of_mem {α : Type} {r : Reader α} {a : α} {v : Json}
    {ms : List (String × Json)} {text cut : String} (hv : v = .object ms) (hfree : v.NumberFree)
    (h : Streams r) (hread : Reads r v.toTokens (.ok a)) (htext : text ∈ [v.compact, v.pretty])
    (hcut : cut.toList <+: text.toList) (hne : cut ≠ text) :
    read r cut = .error (.fault .endOfText) := by
  obtain ⟨layout, rfl⟩ : ∃ layout : Layout, text = String.ofList (v.print layout) := by
    rcases List.mem_cons.1 htext with rfl | htext
    · exact ⟨.compact, rfl⟩
    · exact ⟨.indented 0, List.mem_singleton.1 htext⟩
  obtain ⟨missing, hmissing⟩ := hcut
  have hsome : missing ≠ [] := by
    rintro rfl
    rw [List.append_nil] at hmissing
    exact hne (String.toList_inj.1 hmissing)
  have hprint : v.print layout = cut.toList ++ missing := by rw [hmissing, String.toList_ofList]
  have hwritten : Json.Written v.toTokens (String.ofList (v.print layout)).toList :=
    String.toList_ofList ▸ Json.written_print hfree layout
  exact read_cut h hread hwritten hmissing.symm (Json.exists_solid_of_cut (hv ▸ hprint) hsome)

/-- A beginning of the text of a tree or of a document, short of the whole text, is refused because
it ends too early. The form of a tree must not nest deeper than 127 levels, or else the whole text
would be refused as well. -/
theorem endOfText_of_cut :
    (∀ t : Node, t.nesting ≤ 127 → ∀ text ∈ [t.toJson.compact, t.toJson.pretty],
      ∀ cut : String, cut.toList <+: text.toList → cut ≠ text →
        Node.ofFile (.file cut) = .error (.notTree (.fault .endOfText))) ∧
    ∀ d : Document, ∀ text ∈ [d.render .raw, d.render .json],
      ∀ cut : String, cut.toList <+: text.toList → cut ≠ text →
        Document.ofJsonText cut = .error (.fault .endOfText) := by
  constructor
  · intro t hnesting text htext cut hcut hne
    have hread : Reads (Node.reader maxDepth) t.toJson.toTokens (.ok t) := by
      have hwithin : Node.within maxDepth t = .ok t := if_pos hnesting
      exact hwithin ▸ t.reads_toJson maxDepth
    have hcause : Node.ofJsonText cut = .error (.fault .endOfText) :=
      read_cut_of_mem t.toJson_eq t.numberFree_toJson (Node.streams_reader maxDepth) hread htext
        hcut hne
    rw [Node.ofFile, hcause]
  · intro d text htext cut hcut hne
    have hread : Reads (Document.reader maxDepth) d.toJson.toTokens (.ok d) :=
      d.reads_toJson (by decide)
    exact read_cut_of_mem rfl d.readable_toJson.numberFree (Document.streams_reader maxDepth) hread
      htext hcut hne

/-- A document with an enum of one value. -/
def colours : Document :=
  { name := "colours.json", declarations := [{ name := "Colour", body := .enum ["RED"] }] }

/-- A tree cut behind a key and in the middle of a word, and the text of a document cut in front of
its bracket and at its beginning. -/
theorem endOfText_of_cut_document :
    (Node.document []).nesting ≤ 127 ∧
      Node.ofFile (.file "\x7b\"kind\"") = .error (.notTree (.fault .endOfText)) ∧
      Node.ofFile (.file "\x7b\"kind\":\"docu") = .error (.notTree (.fault .endOfText)) ∧
      Document.ofJsonText (String.ofList (colours.render .raw).toList.dropLast) =
        .error (.fault .endOfText) ∧
      Document.ofJsonText "" = .error (.fault .endOfText) := by
  have hnesting : (Node.document []).nesting ≤ 127 := by decide
  have hkey : "\x7b\"kind\"".toList <+: (Node.document []).toJson.compact.toList := by
    decide +kernel
  have hword : "\x7b\"kind\":\"docu".toList <+: (Node.document []).toJson.compact.toList := by
    decide +kernel
  have hbracket : (String.ofList (colours.render .raw).toList.dropLast).toList <+:
      (colours.render .raw).toList := by
    rw [String.toList_ofList]
    exact List.dropLast_prefix _
  obtain ⟨htree, hdocument⟩ := endOfText_of_cut
  exact ⟨hnesting,
    htree _ hnesting _ List.mem_cons_self _ hkey (by decide +kernel),
    htree _ hnesting _ List.mem_cons_self _ hword (by decide +kernel),
    hdocument colours _ List.mem_cons_self _ hbracket (by decide +kernel),
    hdocument colours _ List.mem_cons_self _ List.nil_prefix (by decide +kernel)⟩

end IdlModel

import IdlModel.Command.Run
import IdlModel.Except
import IdlModel.Proofs.Document.Rendering

/-!
# What `load` prints

A run of `load` with a configuration succeeds exactly if there is a syntax tree and a document for it,
and prints that document (`Command.run_load`). The program trims the end of the text and adds a
newline. Since the white space at the end of a loaded document is known
(`Document.blankEnd_render`), this comes to a newline behind JSON and leaves outlines as they are, but
for those that consist of a name with white space at its end.
-/

namespace IdlModel

namespace Document

variable {d : Document}

theorem blankEnd_outline_eq_newline (h : ∀ t ∈ d.texts, Text.Clean t)
    (hname : ¬(d.declarations = [] ∧ Text.endsBlank d.name)) :
    Text.blankEnd (d.render .summary) = "\n" := by
  rw [blankEnd_render h, if_pos rfl]
  split
  · next hnil =>
    have hsolid : Text.endsBlank d.name = false :=
      Bool.eq_false_iff.2 fun hblank => hname ⟨hnil, hblank⟩
    rw [Text.blankEnd_eq_empty_iff.2 hsolid]
    rfl
  · rfl

/-- Trimming takes more than one newline from a loaded document exactly if it is printed as an
outline that is nothing but a name, and the name ends in white space. -/
theorem blankEnd_render_ragged_iff (h : ∀ t ∈ d.texts, Text.Clean t) (f : Format) :
    ¬(Text.blankEnd (d.render f) = "" ∨ Text.blankEnd (d.render f) = "\n") ↔
      f = .summary ∧ d.declarations = [] ∧ Text.endsBlank d.name := by
  constructor
  · intro hmore
    by_cases hf : f = .summary
    · subst hf
      refine ⟨rfl, ?_⟩
      by_contra hname
      exact hmore (.inr (blankEnd_outline_eq_newline h hname))
    · exact absurd (.inl (by rw [blankEnd_render h, if_neg hf])) hmore
  · rintro ⟨rfl, hnil, hblank⟩
    have hname : Text.blankEnd d.name ≠ "" := by
      rw [Ne, Text.blankEnd_eq_empty_iff, hblank]
      exact Bool.noConfusion
    rw [blankEnd_render h, if_pos rfl, if_pos hnil]
    simpa using hname

end Document

namespace Command

/-- What is done with the document of a `load`, or with the reason that there is none. -/
theorem run_of_load {host : Host} {args : List String} {r : Request} {tree : String}
    {name : Option String} {strict : Bool} {config : Config} (hargs : Request.ofArgs args = .ok r)
    (haction : r.action = .load tree name strict) (hconfig : Config.load host r.config = .ok config) :
    run host args = match loadDocument host config tree name strict with
      | .ok d =>
        { code := 0
          stdout := Text.trimmedEnd (d.render (r.format.getD config.format)) ++ "\n" }
      | .error e => { code := e.code, stderr := "thrifty error: " ++ e.message ++ "\n" } := by
  cases hdoc : loadDocument host config tree name strict <;>
    simp only [run, hargs, Request.output, haction, hconfig, hdoc, bind, Except.bind, pure, Except.pure]

section Stages

variable {host : Host} {config : Config} {tree : String} {name : Option String} {strict : Bool}

theorem loadDocument_of_unreadable {cause : TreeError}
    (h : Node.ofFile (host.lookup tree) = .error cause) :
    loadDocument host config tree name strict = .error (.tree tree cause) := by
  simp only [loadDocument, h]

theorem loadDocument_of_refused {root : Node} {cause : LoadError}
    (hroot : Node.ofFile (host.lookup tree) = .ok root)
    (h : Document.ofTree { strictFields := strict || config.strictFields } (name.getD tree) root =
      .error cause) :
    loadDocument host config tree name strict = .error (.load tree cause) := by
  simp only [loadDocument, hroot, h]

theorem loadDocument_of_loaded {root : Node} {d : Document}
    (hroot : Node.ofFile (host.lookup tree) = .ok root)
    (h : Document.ofTree { strictFields := strict || config.strictFields } (name.getD tree) root =
      .ok d) :
    loadDocument host config tree name strict = .ok d := by
  simp only [loadDocument, hroot, h]

end Stages

/-- A `load` with a configuration fails, with code 1 and nothing printed, exactly if there is no
syntax tree at the path or no document for the tree. Otherwise it succeeds and prints the document:
JSON with a newline behind it, and an outline as it is, since a newline is all the white space that
it ends in. Only of an outline that is a name with white space at its end more is trimmed. -/
theorem run_load {host : Host} {args : List String} {r : Request} {tree : String}
    {name : Option String} {strict : Bool} {config : Config} (hargs : Request.ofArgs args = .ok r)
    (haction : r.action = .load tree name strict) (hconfig : Config.load host r.config = .ok config) :
    let settings : LoadSettings := { strictFields := strict || config.strictFields }
    let format := r.format.getD config.format
    let outcome := run host args
    ((outcome.code = 1 ∧ outcome.stdout = "") ↔
      (∃ cause, Node.ofFile (host.lookup tree) = .error cause) ∨
        ∃ root cause, Node.ofFile (host.lookup tree) = .ok root ∧
          Document.ofTree settings (name.getD tree) root = .error cause) ∧
    ∀ root d, Node.ofFile (host.lookup tree) = .ok root →
      Document.ofTree settings (name.getD tree) root = .ok d →
        let text := d.render format
        outcome.code = 0 ∧
        outcome.stdout = Text.trimmedEnd text ++ "\n" ∧
        (format ≠ .summary → outcome.stdout = text ++ "\n") ∧
        (format = .summary → ¬(d.declarations = [] ∧ Text.endsBlank d.name) →
          outcome.stdout = text ∧ Text.blankEnd text = "\n") ∧
        (¬(Text.blankEnd text = "" ∨ Text.blankEnd text = "\n") ↔
          format = .summary ∧ d.declarations = [] ∧ Text.endsBlank d.name) := by
  intro settings format outcome
  have hrun : outcome = _ := run_of_load hargs haction hconfig
  constructor
  · cases htree : Node.ofFile (host.lookup tree) with
    | error cause =>
      rw [hrun, loadDocument_of_unreadable htree]
      simp [Failure.code]
    | ok root =>
      cases hload : Document.ofTree settings (name.getD tree) root with
      | error cause =>
        rw [hrun, loadDocument_of_refused htree hload]
        simp [Failure.code, hload]
      | ok d =>
        rw [hrun, loadDocument_of_loaded htree hload]
        simp [hload]
  · intro root d htree hload text
    -- trimming takes the white space at the end, and that is known of a loaded document
    have hclean := Document.clean_of_ofTree hload
    have hblank : Text.blankEnd text = _ := Document.blankEnd_render hclean format
    have htext : Text.trimmedEnd text ++ Text.blankEnd text = text :=
      Text.trimmedEnd_append_blankEnd text
    rw [loadDocument_of_loaded htree hload] at hrun
    have hstdout : outcome.stdout = Text.trimmedEnd text ++ "\n" := by rw [hrun]
    refine ⟨by rw [hrun], hstdout, fun hformat => ?_, fun hformat hname => ?_,
      Document.blankEnd_render_ragged_iff hclean format⟩
    · rw [if_neg hformat] at hblank
      rw [hblank, String.append_empty] at htext
      rw [hstdout, htext]
    · have hnewline : Text.blankEnd text = "\n" := by
        rw [show text = d.render .summary by rw [← hformat]]
        exact Document.blankEnd_outline_eq_newline hclean hname
      rw [hnewline] at htext
      exact ⟨by rw [hstdout, htext], hnewline⟩

/-- A machine with one syntax tree, where the environment asks for outlines. -/
def orchard : Host where
  lookup path :=
    if path = "orchard.json" then
      .file ("[\"document\", \"\", \x7b\x7d, [[\"enum_declaration\", \"\", " ++
        "\x7b\"identifier\": \" Fruit \"\x7d, " ++
        "[[\"enum_value\", \"\", \x7b\"identifier\": \"Apple\"\x7d]]]]]")
    else .missing
  environment := [("HOME", "/home/ada"), ("THRIFTY_OUTPUT__FORMAT", "summary")]

/-- An outline, printed as it is. -/
theorem run_load_orchard :
    Request.ofArgs ["-q", "load", "orchard.json"] =
      .ok { action := .load "orchard.json" none false, quiet := true } ∧
    Config.load orchard none = .ok { format := .summary } ∧
    (run orchard ["-q", "load", "orchard.json"]).code = 0 ∧
    (run orchard ["-q", "load", "orchard.json"]).stdout =
      "orchard.json\n  enum Fruit\n    Apple\n" := by
  have hargs : Request.ofArgs ["-q", "load", "orchard.json"] =
      .ok { action := .load "orchard.json" none false, quiet := true } := by decide +kernel
  have hconfig : Config.load orchard none = .ok { format := .summary } := by decide +kernel
  have hdocument : ((Node.ofFile (orchard.lookup "orchard.json")).toOption.bind fun root =>
      (Document.ofTree {} "orchard.json" root).toOption) =
        some ⟨"orchard.json", [⟨"Fruit", none, .enum ["Apple"]⟩]⟩ := by decide +kernel
  obtain ⟨root, htree, hload⟩ := Option.bind_eq_some_iff.1 hdocument
  obtain ⟨hcode, -, -, houtline, -⟩ := (run_load hargs rfl hconfig).2 root _
    (eq_ok_of_toOption htree) (eq_ok_of_toOption hload)
  refine ⟨hargs, hconfig, hcode, ?_⟩
  rw [(houtline rfl (by decide)).1]
  decide +kernel

end Command

end IdlModel

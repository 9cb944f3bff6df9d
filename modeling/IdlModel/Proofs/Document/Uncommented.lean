import IdlModel.Document.Format
import IdlModel.Proofs.Load.Canonical
import IdlModel.Proofs.Load.Extraction
import IdlModel.Proofs.Text.Pieces
import Mathlib.Data.List.Basic

/-!
# The outline without its comments

A line of an outline that belongs to a comment is told from the others by how it begins, behind
spaces, with two slashes (`Outline.isNote`). Whatever a comment holds, each of its lines begins so,
and no other line does as long as no entry is named like that. So taking these lines away from the
text of the outline gives the outline of the document without its comments
(`Document.withoutNotes_render`).

The law is about the text and not about the list of lines it is made from: it rests on a comment
being cut at its newlines, at which the text is cut again (`Document.pieces_outline`).
-/

namespace IdlModel

/-! ## Lines that begin as a comment does -/

namespace Outline

/-- Does the line begin, behind spaces, with two slashes? -/
def isNote (l : List Char) : Bool :=
  ['/', '/'].isPrefixOf (l.dropWhile (· == ' '))

/-- The text without those of its lines that begin, behind spaces, with two slashes. The first line
stays in any case. -/
def withoutNotes (text : String) : String :=
  let ls := Text.pieces text.toList
  String.ofList (Text.joinLines (ls.take 1 ++ (ls.drop 1).filter (!isNote ·)))

/-- Spaces in front of a line do not matter. -/
theorem isNote_indent {indent : String} (h : indent.toList.all (· == ' ') = true) (s : String) :
    isNote (indent ++ s).toList = isNote s.toList := by
  rw [String.toList_append, isNote, List.dropWhile_append_of_pos (List.all_eq_true.1 h), isNote]

/-- Behind a character that is neither a space nor a slash nothing matters. -/
theorem isNote_append_cons (l : List Char) {c : Char} (hspace : c ≠ ' ') (hslash : c ≠ '/')
    (rest : List Char) : isNote (l ++ c :: rest) = isNote l := by
  have hstop : (c :: rest).dropWhile (· == ' ') = c :: rest :=
    List.dropWhile_cons_of_neg (by simpa using hspace)
  rw [isNote, isNote, List.dropWhile_append, hstop]
  cases hl : l.dropWhile (· == ' ') with
  | nil => simp [List.isPrefixOf, Ne.symm hslash]
  | cons d ds =>
    cases ds with
    | nil => simp [List.isPrefixOf, Ne.symm hslash]
    | cons e es => simp [List.isPrefixOf]

/-- Each line of a comment begins with two slashes, whatever stands in the comment. -/
theorem isNote_of_mem_commentLines {indent : String} (h : indent.toList.all (· == ' ') = true)
    {comment : Option String} {l : String} (hl : l ∈ commentLines indent comment) :
    isNote l.toList = true := by
  cases comment with
  | none => cases hl
  | some text =>
    obtain ⟨line, -, rfl⟩ := List.mem_map.1 hl
    split
    · rw [isNote_indent h]
      rfl
    · rw [String.append_assoc, isNote_indent h, String.toList_append]
      rfl

theorem isNote_header (d : Declaration) :
    isNote ("  " ++ d.kind.keyword ++ " " ++ d.name).toList = false := by
  rw [String.append_assoc, String.append_assoc, isNote_indent (by decide), String.toList_append]
  cases d.kind <;> rfl

theorem isNote_attribute (a : Attribute) :
    isNote ("    " ++ typed a).toList = isNote a.name.toList := by
  have htyped : (typed a).toList = a.name.toList ++ ':' :: (' ' :: a.type.text.toList) := by
    simp [typed]
  rw [isNote_indent (by decide), htyped]
  exact isNote_append_cons _ (by decide) (by decide) _

theorem isNote_method (m : Method) :
    isNote ("    " ++ signature m).toList = isNote m.name.toList := by
  obtain ⟨rest, hsignature⟩ : ∃ rest, (signature m).toList = m.name.toList ++ '(' :: rest := by
    simp [signature]
  rw [isNote_indent (by decide), hsignature]
  exact isNote_append_cons _ (by decide) (by decide) _

end Outline

/-! ## Documents whose entries do not look like comments -/

/-- What the entries of a declaration begin with in an outline: its values, or the names of its
attributes or methods. -/
def Body.headings : Body → List String
  | .enum vs => vs
  | .struct as | .exception as => as.map Attribute.name
  | .service ms => ms.map Method.name

/-- No name, value or type goes on behind a line end, and no entry of a declaration begins, behind
spaces, with two slashes. Comments may be anything. -/
structure Document.Outlinable (d : Document) : Prop where
  newline_not_mem : ∀ t ∈ d.name :: d.texts, '\n' ∉ t.toList
  not_isNote : ∀ e ∈ d.declarations, ∀ h ∈ e.body.headings, Outline.isNote h.toList = false

instance Document.decidableOutlinable (d : Document) : Decidable d.Outlinable :=
  decidable_of_iff ((∀ t ∈ d.name :: d.texts, '\n' ∉ t.toList) ∧
      ∀ e ∈ d.declarations, ∀ h ∈ e.body.headings, Outline.isNote h.toList = false)
    ⟨fun ⟨h, h'⟩ => ⟨h, h'⟩, fun ⟨h, h'⟩ => ⟨h, h'⟩⟩

/-! ## The lines without those of comments -/

namespace Outline

theorem filter_commentLines {indent : String} (h : indent.toList.all (· == ' ') = true)
    (comment : Option String) : (commentLines indent comment).filter (!isNote ·.toList) = [] := by
  refine List.filter_eq_nil_iff.2 fun l hl => ?_
  rw [isNote_of_mem_commentLines h hl]
  exact Bool.false_ne_true

/-- Comment lines in front of a line that is none of them. -/
theorem filter_commented {indent : String} (h : indent.toList.all (· == ' ') = true)
    (comment : Option String) {l : String} (hl : isNote l.toList = false) :
    (commentLines indent comment ++ [l]).filter (!isNote ·.toList) = [l] := by
  rw [List.filter_append, filter_commentLines h, List.nil_append]
  exact List.filter_eq_self.2 (List.forall_mem_singleton.2 (by rw [hl]; rfl))

theorem signature_uncommented (m : Method) : signature m.uncommented = signature m := by
  have htyped : typed ∘ Attribute.uncommented = typed := rfl
  rw [signature, Method.uncommented, List.map_map, htyped]
  rfl

theorem filter_bodyLines {b : Body} (h : ∀ t ∈ b.headings, isNote t.toList = false) :
    (bodyLines b).filter (!isNote ·.toList) = bodyLines b.uncommented := by
  cases b with
  | enum vs =>
    refine List.filter_eq_self.2 (List.forall_mem_map.2 fun v hv => ?_)
    rw [isNote_indent (by decide), h v hv]
    rfl
  | struct as | exception as =>
    have hline : ∀ a ∈ as, (attributeLines a).filter (!isNote ·.toList) =
        attributeLines a.uncommented := by
      intro a ha
      have hname : isNote a.name.toList = false := h _ (List.mem_map_of_mem ha)
      exact filter_commented (by decide) a.comment ((isNote_attribute a).trans hname)
    rw [bodyLines, List.filter_flatMap, Body.uncommented, bodyLines, List.flatMap_map]
    exact List.flatMap_congr hline
  | service ms =>
    have hline : ∀ m ∈ ms, (methodLines m).filter (!isNote ·.toList) =
        methodLines m.uncommented := by
      intro m hm
      have hname : isNote m.name.toList = false := h _ (List.mem_map_of_mem hm)
      have hlines : methodLines m.uncommented = ["    " ++ signature m] := by
        rw [methodLines, signature_uncommented]
        rfl
      rw [hlines]
      exact filter_commented (by decide) m.comment ((isNote_method m).trans hname)
    rw [bodyLines, List.filter_flatMap, Body.uncommented, bodyLines, List.flatMap_map]
    exact List.flatMap_congr hline

theorem filter_declarationLines {d : Declaration}
    (h : ∀ t ∈ d.body.headings, isNote t.toList = false) :
    (declarationLines d).filter (!isNote ·.toList) = declarationLines d.uncommented := by
  have hkind : d.uncommented.kind = d.kind := by
    obtain ⟨name, comment, b⟩ := d
    cases b <;> rfl
  have hheader : declarationLines d.uncommented =
      ["  " ++ d.kind.keyword ++ " " ++ d.name] ++ bodyLines d.body.uncommented := by
    rw [declarationLines, hkind]
    rfl
  rw [declarationLines, List.filter_append, filter_commented (by decide) _ (isNote_header d),
    filter_bodyLines h, hheader]

/-! ## No line has a newline in it -/

theorem newline_not_mem_commentLines {indent : String} (h : '\n' ∉ indent.toList)
    {comment : Option String} {l : String} (hl : l ∈ commentLines indent comment) :
    '\n' ∉ l.toList := by
  cases comment with
  | none => cases hl
  | some text =>
    obtain ⟨line, hline, rfl⟩ := List.mem_map.1 hl
    have hnewline := Text.newline_not_mem_of_mem_lines hline
    split <;> simp [h, hnewline]

theorem newline_not_mem_typed {a : Attribute} (h : ∀ t ∈ a.texts, '\n' ∉ t.toList) :
    '\n' ∉ (typed a).toList := by
  have hname := h a.name (by simp [Attribute.texts])
  have htype := h a.type.text (by simp [Attribute.texts])
  simp [typed, hname, htype]

theorem newline_not_mem_intercalate {ts : List String} (h : ∀ t ∈ ts, '\n' ∉ t.toList) :
    '\n' ∉ (", ".intercalate ts).toList := by
  rw [String.toList_intercalate]
  induction ts with
  | nil => exact List.not_mem_nil
  | cons t ts ih =>
    rw [List.forall_mem_cons] at h
    cases ts with
    | nil => simpa using h.1
    | cons u us =>
      have hseparator : '\n' ∉ ", ".toList := by decide
      rw [List.map_cons, List.map_cons, List.intercalate_cons_cons, List.mem_append,
        List.mem_append, not_or, not_or]
      exact ⟨⟨h.1, hseparator⟩, ih h.2⟩

theorem newline_not_mem_signature {m : Method} (h : ∀ t ∈ m.texts, '\n' ∉ t.toList) :
    '\n' ∉ (signature m).toList := by
  have hname := h m.name (by simp [Method.texts])
  have hreturn := h m.returnType.text (by simp [Method.texts])
  have hparameters : '\n' ∉ (", ".intercalate (m.parameters.map typed)).toList := by
    refine newline_not_mem_intercalate (List.forall_mem_map.2 fun a ha => ?_)
    refine newline_not_mem_typed fun t ht => h t ?_
    have hmem : t ∈ m.parameters.flatMap Attribute.texts := List.mem_flatMap.2 ⟨a, ha, ht⟩
    simp [Method.texts, hmem]
  have hthrown : '\n' ∉ (", ".intercalate (m.exceptions.map TypeRef.text)).toList :=
    newline_not_mem_intercalate fun t ht => h t (by simp [Method.texts, ht])
  rw [signature]
  split <;>
    simp only [String.toList_append, List.mem_append, hname, hreturn, hparameters, hthrown, or_false,
      false_or] <;>
    decide

theorem newline_not_mem_bodyLines {b : Body} (h : ∀ t ∈ b.texts, '\n' ∉ t.toList) {l : String}
    (hl : l ∈ bodyLines b) : '\n' ∉ l.toList := by
  cases b with
  | enum vs =>
    obtain ⟨v, hv, rfl⟩ := List.mem_map.1 hl
    have hvalue := h v hv
    simp [hvalue]
  | struct as | exception as =>
    obtain ⟨a, ha, hl⟩ := List.mem_flatMap.1 hl
    have htyped := newline_not_mem_typed fun t ht => h t (List.mem_flatMap.2 ⟨a, ha, ht⟩)
    rcases List.mem_append.1 hl with hl | hl
    · exact newline_not_mem_commentLines (by decide) hl
    · rw [List.mem_singleton.1 hl]
      simp [htyped]
  | service ms =>
    obtain ⟨m, hm, hl⟩ := List.mem_flatMap.1 hl
    have hsignature := newline_not_mem_signature fun t ht => h t (List.mem_flatMap.2 ⟨m, hm, ht⟩)
    rcases List.mem_append.1 hl with hl | hl
    · exact newline_not_mem_commentLines (by decide) hl
    · rw [List.mem_singleton.1 hl]
      simp [hsignature]

theorem newline_not_mem_declarationLines {d : Declaration} (h : ∀ t ∈ d.texts, '\n' ∉ t.toList)
    {l : String} (hl : l ∈ declarationLines d) : '\n' ∉ l.toList := by
  have hname := h d.name List.mem_cons_self
  rw [declarationLines, List.mem_append, List.mem_append] at hl
  rcases hl with (hl | hl) | hl
  · exact newline_not_mem_commentLines (by decide) hl
  · rw [List.mem_singleton.1 hl]
    cases d.kind <;> simp [DeclarationKind.keyword, hname]
  · exact newline_not_mem_bodyLines (fun t ht => h t (List.mem_cons_of_mem _ ht)) hl

end Outline

/-! ## The text -/

namespace Document

open Outline

/-- An outline is its lines, put together with an empty one behind them. -/
theorem toList_outline (d : Document) :
    d.outline.toList = Text.joinLines (d.outlineLines.map String.toList ++ [[]]) := by
  rw [outline, String.toList_join, Text.joinLines_concat, List.append_nil, List.flatMap_map,
    List.flatMap_map]
  exact List.flatMap_congr fun l _ => String.toList_append

/-- Cutting the text of an outline at its newlines gives its lines. -/
theorem pieces_outline {d : Document} (h : ∀ t ∈ d.name :: d.texts, '\n' ∉ t.toList) :
    Text.pieces d.outline.toList = d.outlineLines.map String.toList ++ [[]] := by
  rw [toList_outline]
  refine Text.pieces_joinLines (by simp) ?_
  rw [List.forall_mem_append, List.forall_mem_singleton, List.forall_mem_map, outlineLines,
    List.forall_mem_cons]
  refine ⟨⟨h d.name List.mem_cons_self, fun l hl => ?_⟩, List.not_mem_nil⟩
  obtain ⟨e, he, hl⟩ := List.mem_flatMap.1 hl
  refine newline_not_mem_declarationLines (fun t ht => h t ?_) hl
  exact List.mem_cons_of_mem _ (List.mem_flatMap.2 ⟨e, he, ht⟩)

/-- No comment passes for anything but a comment: the outline without the lines behind the first
that begin, behind spaces, with two slashes is the outline of the document without comments. The
comments may hold newlines, carriage returns and lines that look like declarations. -/
theorem withoutNotes_render {d : Document} (h : d.Outlinable) :
    withoutNotes (d.render .summary) = d.uncommented.render .summary := by
  have hlines : (d.declarations.flatMap declarationLines).filter (!isNote ·.toList) =
      d.uncommented.declarations.flatMap declarationLines := by
    rw [List.filter_flatMap, uncommented, List.flatMap_map]
    exact List.flatMap_congr fun e he => filter_declarationLines (h.not_isNote e he)
  have hnotes : ((d.declarations.flatMap declarationLines).map String.toList ++ [[]]).filter
      (!isNote ·) = (d.uncommented.declarations.flatMap declarationLines).map String.toList ++
        [[]] := by
    rw [List.filter_append, List.filter_map, ← hlines]
    rfl
  rw [render, render, withoutNotes, pieces_outline h.newline_not_mem, outlineLines, List.map_cons,
    List.cons_append]
  simp only [List.take_succ_cons, List.take_zero, List.drop_succ_cons, List.drop_zero]
  rw [hnotes, ← String.toList_inj, String.toList_ofList, toList_outline]
  rfl

/-- Comments that end lines in every way, and hold lines that look like an outline. -/
theorem withoutNotes_render_forged :
    let d : Document := {
      name := "// calc.idl"
      declarations := [
        { name := "Op"
          comment := some "one\r\n  enum Op\r\n\n    ADD\rSUB\n"
          body := .enum ["ADD", " / /"] },
        { name := "Point"
          comment := some "\n"
          body := .struct [{ name := "x", type := ⟨"//"⟩, comment := some "    y: i32" }] },
        { name := "//"
          body := .service [{
            name := "ping", comment := some "", returnType := ⟨"void"⟩
            parameters := [{ name := "// a", type := ⟨"i32"⟩, comment := some "\n" }] }] }] }
    d.Outlinable ∧
      d.render .summary =
        "// calc.idl\n  // one\n  //   enum Op\n  //\n  //     ADD\rSUB\n  enum Op\n    ADD\n     / /\n" ++
        "  //\n  struct Point\n    //     y: i32\n    x: //\n  service //\n    ping(// a: i32) -> void\n" ∧
      withoutNotes (d.render .summary) = d.uncommented.render .summary ∧
      d.uncommented.render .summary =
        "// calc.idl\n  enum Op\n    ADD\n     / /\n  struct Point\n    x: //\n" ++
        "  service //\n    ping(// a: i32) -> void\n" := by
  intro d
  have h : d.Outlinable := by decide +kernel
  exact ⟨h, by decide +kernel, withoutNotes_render h, by decide +kernel⟩

end Document

end IdlModel

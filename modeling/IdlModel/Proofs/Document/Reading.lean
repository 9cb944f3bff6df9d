import IdlModel.Proofs.Document.Legible

/-!
# Reading an outline

An outline tells everything about a document but the comments of parameters, which it does not show:
two legible documents with the same outline are equal without these
(`Document.render_summary_eq_iff`).

The lines of an outline come in sections, each with the lines of a comment in front, one line that
names something, and lines with what it holds. Declarations are such sections
(`Outline.sectioned_declaration`), and so are attributes and methods within them
(`Outline.sectioned_entry`). Lines of comments are told by their slashes, and what a declaration holds
is told by how far it is indented.
-/

namespace IdlModel

namespace Outline

open Text

/-! ## Comments -/

/-- The lines of a comment as normalizing leaves it are what stands between its newlines. -/
theorem lines_eq_pieces {text : List Char} (h : Comment.Neat text) (hne : text ≠ []) :
    lines text = pieces text := by
  obtain ⟨ls, last, hpieces⟩ := exists_pieces_eq_concat text
  have htrimmed : ∀ l ∈ ls ++ [last], trim l = l := hpieces ▸ h.trimmed
  have hlast : last ≠ [] := by
    intro hnil
    refine (h.edges.resolve_left hne).2 ?_
    rw [hpieces, List.getLast?_concat, hnil]
  have hreturn : ∀ l ∈ ls, dropReturn l = l := by
    intro l hl
    have hsolid := (trim_eq_self_iff.1 (htrimmed l (List.mem_append_left _ hl))).2
    have hnot : l.getLast? ≠ some '\r' := fun hcr => absurd (hsolid '\r' hcr) (by decide)
    rw [dropReturn, if_neg hnot]
  rw [lines, hpieces, closeLines_concat, if_neg hlast, List.map_congr_left hreturn, List.map_id']

/-- A comment is told by the lines that are shown for it. -/
theorem commentLines_inj {indent : String} {c c' : Option String} (hc : Comment.Legible c)
    (hc' : Comment.Legible c') (h : commentLines indent c = commentLines indent c') : c = c' := by
  have hlines {text : String} (ht : Comment.Legible (some text)) :
      lines text.toList = pieces text.toList := by
    obtain ⟨hne, hneat⟩ := ht text rfl
    exact lines_eq_pieces hneat (by simpa using hne)
  have hshown : Function.Injective fun l : List Char =>
      if l.isEmpty then indent ++ "//" else indent ++ "// " ++ String.ofList l := by
    intro l l' hll
    simp only [← String.toList_inj] at hll
    cases l <;> cases l' <;> simp_all
  cases c with
  | none =>
    cases c' with
    | none => rfl
    | some text =>
      rw [commentLines, commentLines, hlines hc'] at h
      exact absurd (List.map_eq_nil_iff.1 h.symm) (pieces_ne_nil _)
  | some text =>
    cases c' with
    | none =>
      rw [commentLines, commentLines, hlines hc] at h
      exact absurd (List.map_eq_nil_iff.1 h) (pieces_ne_nil _)
    | some text' =>
      rw [commentLines, commentLines, hlines hc, hlines hc'] at h
      have hpieces := hshown.list_map h
      have htext : text.toList = text'.toList := by
        rw [← joinLines_pieces text.toList, hpieces, joinLines_pieces]
      rw [String.toList_inj.1 htext]

/-! ## Sections of lines -/

/-- An entry with its comment in front is a section with nothing behind the line of the entry. -/
theorem sectioned_entry {α : Type} (comment : α → Option String) {entry : α → String} {a : α}
    (h : isNote ("    " ++ entry a).toList = false) :
    Sectioned (fun l => isNote l.toList = true) (fun _ => False)
      (fun a => commentLines "    " (comment a)) (fun a => "    " ++ entry a) (fun _ => []) a :=
  ⟨fun _ hl => ⟨isNote_of_mem_commentLines (by decide) hl, not_false⟩,
    ⟨by rw [h]; exact Bool.false_ne_true, not_false⟩, nofun⟩

theorem append_left_inj {indent s t : String} (h : indent ++ s = indent ++ t) : s = t := by
  rw [← String.toList_inj, String.toList_append, String.toList_append] at h
  exact String.toList_inj.1 (List.append_cancel_left h)

theorem attributeLines_inj {as bs : List Attribute}
    (has : ∀ a ∈ as, a.Legible ∧ Comment.Legible a.comment)
    (hbs : ∀ b ∈ bs, b.Legible ∧ Comment.Legible b.comment)
    (h : as.flatMap attributeLines = bs.flatMap attributeLines) : as = bs := by
  have hsection {a : Attribute} (ha : a.Legible) := sectioned_entry Attribute.comment
    ((isNote_attribute a).trans ha.1.isNote_eq_false)
  have hmap := map_eq_of_sections (f := id) (fun a ha => hsection (has a ha).1)
    (fun b hb => hsection (hbs b hb).1) (fun a ha b hb hfront hhead _ => ?_) h
  · rwa [List.map_id, List.map_id] at hmap
  · have hcomment := commentLines_inj (has a ha).2 (hbs b hb).2 hfront
    have htyped := typed_inj (has a ha).1 (hbs b hb).1 (append_left_inj hhead)
    obtain ⟨name, type, comment⟩ := a
    obtain ⟨name', type', comment'⟩ := b
    simp only [Attribute.uncommented, Attribute.mk.injEq] at hcomment htyped
    obtain ⟨rfl, rfl, -⟩ := htyped
    rw [hcomment]

theorem methodLines_inj {ms ns : List Method} (hms : ∀ m ∈ ms, m.Legible)
    (hns : ∀ n ∈ ns, n.Legible) (h : ms.flatMap methodLines = ns.flatMap methodLines) :
    ms.map Method.withoutParameterComments = ns.map Method.withoutParameterComments := by
  have hsection {m : Method} (hm : m.Legible) := sectioned_entry Method.comment
    ((isNote_method m).trans hm.name.isNote_eq_false)
  refine map_eq_of_sections (fun m hm => hsection (hms m hm)) (fun n hn => hsection (hns n hn))
    (fun m hm n hn hfront hhead _ => ?_) h
  have hcomment := commentLines_inj (hms m hm).comment (hns n hn).comment hfront
  have hsignature := signature_inj (hms m hm) (hns n hn) (append_left_inj hhead)
  obtain ⟨name, comment, returnType, parameters, exceptions⟩ := m
  obtain ⟨name', comment', returnType', parameters', exceptions'⟩ := n
  simp only [Method.uncommented, Method.mk.injEq] at hcomment hsignature
  obtain ⟨rfl, -, rfl, hparameters, rfl⟩ := hsignature
  rw [Method.withoutParameterComments, Method.withoutParameterComments, hcomment, hparameters]

/-- What a declaration of a known kind holds is told by the lines of its body. -/
theorem bodyLines_inj {b b' : Body} (hb : b.Legible) (hb' : b'.Legible) (hkind : b.kind = b'.kind)
    (h : bodyLines b = bodyLines b') :
    b.withoutParameterComments = b'.withoutParameterComments := by
  cases b with
  | enum vs =>
    cases b' with
    | enum vs' =>
      have hvalues : Function.Injective fun v : String => "    " ++ v :=
        fun _ _ hv => append_left_inj hv
      rw [hvalues.list_map h]
    | _ => cases hkind
  | struct as =>
    cases b' with
    | struct as' => rw [attributeLines_inj hb hb' h]
    | _ => cases hkind
  | exception as =>
    cases b' with
    | exception as' => rw [attributeLines_inj hb hb' h]
    | _ => cases hkind
  | service ms =>
    cases b' with
    | service ms' =>
      rw [Body.withoutParameterComments, Body.withoutParameterComments, methodLines_inj hb hb' h]
    | _ => cases hkind

/-- The line is indented as far as what a declaration holds. -/
def IsInner (l : String) : Prop :=
  "    ".toList <+: l.toList

theorem isInner_append (s : String) : IsInner ("    " ++ s) := by
  rw [IsInner, String.toList_append]
  exact List.prefix_append _ _

/-- A line behind two spaces is not indented so far if it goes on with something else. -/
theorem not_isInner {s : String} (h : s.toList.head? ≠ some ' ') :
    ¬ IsInner ("  " ++ s) := by
  rw [IsInner, String.toList_append]
  intro hinner
  have hrest : "  ".toList <+: s.toList := (List.prefix_append_right_inj "  ".toList).1 hinner
  obtain ⟨cs, hcs⟩ := hrest
  exact h (by rw [← hcs]; rfl)

theorem isInner_of_mem_commentLines {comment : Option String} {l : String}
    (hl : l ∈ commentLines "    " comment) : IsInner l := by
  cases comment with
  | none => cases hl
  | some text =>
    obtain ⟨line, -, rfl⟩ := List.mem_map.1 hl
    split
    · exact isInner_append _
    · rw [String.append_assoc]
      exact isInner_append _

theorem isInner_of_mem_bodyLines {b : Body} {l : String} (hl : l ∈ bodyLines b) : IsInner l := by
  cases b with
  | enum vs =>
    obtain ⟨v, -, rfl⟩ := List.mem_map.1 hl
    exact isInner_append v
  | struct as | exception as =>
    obtain ⟨a, -, hl⟩ := List.mem_flatMap.1 hl
    rcases List.mem_append.1 hl with hl | hl
    · exact isInner_of_mem_commentLines hl
    · rw [List.mem_singleton.1 hl]
      exact isInner_append _
  | service ms =>
    obtain ⟨m, -, hl⟩ := List.mem_flatMap.1 hl
    rcases List.mem_append.1 hl with hl | hl
    · exact isInner_of_mem_commentLines hl
    · rw [List.mem_singleton.1 hl]
      exact isInner_append _

/-- A declaration is a section: its comment, the line with its name, and what it holds. -/
theorem sectioned_declaration (d : Declaration) :
    Sectioned (fun l => isNote l.toList = true) IsInner (fun d => commentLines "  " d.comment)
      (fun d => "  " ++ d.kind.keyword ++ " " ++ d.name) (fun d => bodyLines d.body) d := by
  refine ⟨fun l hl => ⟨isNote_of_mem_commentLines (by decide) hl, ?_⟩, ⟨?_, ?_⟩,
    fun l hl => isInner_of_mem_bodyLines hl⟩
  · cases hcomment : d.comment with
    | none => rw [hcomment] at hl; cases hl
    | some text =>
      rw [hcomment] at hl
      obtain ⟨line, -, rfl⟩ := List.mem_map.1 hl
      split
      · exact not_isInner (by decide)
      · rw [String.append_assoc]
        exact not_isInner (by simp)
  · rw [isNote_header]
    exact Bool.false_ne_true
  · rw [String.append_assoc, String.append_assoc]
    refine not_isInner ?_
    cases d.kind <;> simp [DeclarationKind.keyword]

/-- The line with the name of a declaration tells its kind and its name. -/
theorem header_inj {d e : Declaration}
    (h : "  " ++ d.kind.keyword ++ " " ++ d.name = "  " ++ e.kind.keyword ++ " " ++ e.name) :
    d.kind = e.kind ∧ d.name = e.name := by
  rw [String.append_assoc, String.append_assoc, String.append_assoc, String.append_assoc] at h
  have hrest := append_left_inj h
  rw [← String.toList_inj] at hrest
  cases hd : d.kind <;> cases he : e.kind <;>
    simp [hd, he, DeclarationKind.keyword, String.toList_inj] at hrest ⊢ <;> exact hrest

theorem declarationLines_inj {ds es : List Declaration} (hds : ∀ d ∈ ds, d.Legible)
    (hes : ∀ e ∈ es, e.Legible)
    (h : ds.flatMap declarationLines = es.flatMap declarationLines) :
    ds.map Declaration.withoutParameterComments = es.map Declaration.withoutParameterComments := by
  have hlines (d : Declaration) : declarationLines d = commentLines "  " d.comment ++
      ("  " ++ d.kind.keyword ++ " " ++ d.name) :: bodyLines d.body := by
    rw [declarationLines, List.append_assoc]
    rfl
  rw [List.flatMap_congr fun d _ => hlines d, List.flatMap_congr fun e _ => hlines e] at h
  refine map_eq_of_sections (fun d _ => sectioned_declaration d)
    (fun e _ => sectioned_declaration e) (fun d hd e he hfront hhead hback => ?_) h
  have hcomment := commentLines_inj (hds d hd).comment (hes e he).comment hfront
  obtain ⟨hkind, hname⟩ := header_inj hhead
  have hbody := bodyLines_inj (hds d hd).body (hes e he).body hkind hback
  obtain ⟨name, comment, body⟩ := d
  obtain ⟨name', comment', body'⟩ := e
  cases hname
  cases hcomment
  rw [Declaration.withoutParameterComments, Declaration.withoutParameterComments, hbody]

end Outline

/-! ## The text -/

open Outline

theorem Method.Legible.newline_not_mem {m : Method} (h : m.Legible) :
    ∀ t ∈ m.texts, '\n' ∉ t.toList := by
  rw [Method.forall_mem_texts]
  refine ⟨h.name.not_mem (by decide), h.returnType.not_mem (by decide), fun a ha t ht => ?_,
    fun t ht => (h.exceptions t ht).not_mem (by decide)⟩
  have hlegible := h.parameters a ha
  rcases List.mem_pair.1 ht with rfl | rfl
  · exact hlegible.1.not_mem (by decide)
  · exact hlegible.2.not_mem (by decide)

theorem Body.Legible.newline_not_mem {b : Body} (h : b.Legible) :
    ∀ t ∈ b.texts, '\n' ∉ t.toList := by
  intro t ht
  cases b with
  | enum vs => exact (h t ht).not_mem (by decide)
  | struct as | exception as =>
    obtain ⟨a, ha, ht⟩ := List.mem_flatMap.1 ht
    have hlegible := (h a ha).1
    rcases List.mem_pair.1 ht with rfl | rfl
    · exact hlegible.1.not_mem (by decide)
    · exact hlegible.2.not_mem (by decide)
  | service ms =>
    obtain ⟨m, hm, ht⟩ := List.mem_flatMap.1 ht
    exact (h m hm).newline_not_mem t ht

namespace Document

theorem Legible.newline_not_mem {d : Document} (h : d.Legible) :
    ∀ t ∈ d.name :: d.texts, '\n' ∉ t.toList := by
  refine List.forall_mem_cons.2 ⟨h.name, fun t ht => ?_⟩
  obtain ⟨e, he, ht⟩ := List.mem_flatMap.1 ht
  have hlegible := h.declarations e he
  rcases List.mem_cons.1 ht with rfl | ht
  · exact hlegible.name.not_mem (by decide)
  · exact hlegible.body.newline_not_mem t ht

/-- An outline does not show the comments of parameters. -/
theorem outline_withoutParameterComments (d : Document) :
    d.withoutParameterComments.outline = d.outline := by
  have hmethod (m : Method) : methodLines m.withoutParameterComments = methodLines m := by
    have hsignature : signature m.withoutParameterComments = signature m :=
      signature_uncommented m
    rw [methodLines, hsignature]
    rfl
  have hbody (b : Body) : bodyLines b.withoutParameterComments = bodyLines b := by
    cases b with
    | service ms =>
      rw [Body.withoutParameterComments, bodyLines, List.flatMap_map]
      exact List.flatMap_congr fun m _ => hmethod m
    | _ => rfl
  have hdeclaration (e : Declaration) :
      declarationLines e.withoutParameterComments = declarationLines e := by
    have hkind : e.withoutParameterComments.kind = e.kind := by
      obtain ⟨name, comment, b⟩ := e
      cases b <;> rfl
    rw [declarationLines, hkind]
    show _ ++ bodyLines e.body.withoutParameterComments = _
    rw [hbody]
    rfl
  have hlines : d.withoutParameterComments.outlineLines = d.outlineLines := by
    rw [outlineLines, withoutParameterComments, List.flatMap_map]
    exact congrArg (d.name :: ·) (List.flatMap_congr fun e _ => hdeclaration e)
  rw [outline, hlines, outline]

/-- Two documents have the same outline only if they differ in nothing but the comments of
parameters. The outline tells an absent comment from one that is there, and an empty list from one
that goes on. -/
theorem render_summary_eq_iff {d e : Document} (hd : d.Legible) (he : e.Legible) :
    d.render .summary = e.render .summary ↔
      d.withoutParameterComments = e.withoutParameterComments := by
  constructor
  · intro h
    have hpieces := congrArg (fun text : String => Text.pieces text.toList) h
    simp only [render, pieces_outline hd.newline_not_mem, pieces_outline he.newline_not_mem] at hpieces
    have hstrings : Function.Injective String.toList := fun _ _ hst => String.toList_inj.1 hst
    have hlines := hstrings.list_map (List.append_cancel_right hpieces)
    obtain ⟨hname, hrest⟩ := List.cons.inj hlines
    rw [withoutParameterComments, withoutParameterComments, hname,
      declarationLines_inj hd.declarations he.declarations hrest]
  · intro h
    rw [render, render, ← outline_withoutParameterComments d, h, outline_withoutParameterComments e]

/-- Two documents that differ in the comment of a parameter, and in nothing else. -/
theorem render_summary_eq_iff_parameter :
    let document (comment : Option String) : Document := {
      name := "calc.idl"
      declarations := [
        { name := "Point", comment := some "A point.\n\n// In the plane.", body := .struct [] },
        { name := "calc"
          body := .service [{
            name := "throws", comment := some "Adds.", returnType := ⟨"throws"⟩
            parameters := [{ name := "a", type := ⟨"i32)->"⟩, comment }, { name := "b", type := ⟨")"⟩ }]
            exceptions := [⟨"E"⟩, ⟨"F"⟩] }] }] }
    (document none).Legible ∧ (document (some "\t")).Legible ∧
      (document none).render .summary = (document (some "\t")).render .summary ∧
      (document none).withoutParameterComments = (document (some "\t")).withoutParameterComments ∧
      (document none).render .summary =
        "calc.idl\n  // A point.\n  //\n  // // In the plane.\n  struct Point\n  service calc\n" ++
        "    // Adds.\n    throws(a: i32)->, b: )) -> throws throws E, F\n" := by
  intro document
  have h : (document none).Legible := by decide +kernel
  have h' : (document (some "\t")).Legible := by decide +kernel
  have hrender : (document none).render .summary = (document (some "\t")).render .summary := by
    decide +kernel
  exact ⟨h, h', hrender, (render_summary_eq_iff h h').1 hrender, by decide +kernel⟩

end Document

end IdlModel

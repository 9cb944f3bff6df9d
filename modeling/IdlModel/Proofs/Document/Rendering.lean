import IdlModel.Document.Format
import IdlModel.Proofs.Load.Clean

/-!
# How the text of a document ends

The last line of an outline ends in a name or a type (`LastSolid`), so a newline is all the white
space at its end as long as names and types are clean. Only an outline without declarations ends in
whatever the name of the document ends in. JSON ends in a bracket. `Document.blankEnd_render` puts
these together: the white space at the end of a document in any format.
-/

namespace IdlModel

open Text (endsSolid endsSolid_append blankEnd)

theorem Text.Clean.endsSolid {s : String} (h : Text.Clean s) : Text.endsSolid s := by
  have hne : Text.trimmed s ≠ "" := by
    rw [h.2]
    exact h.1
  have hsolid := Text.endsSolid_trimmed hne
  rwa [h.2] at hsolid

/-! ## Lines -/

namespace Outline

/-- The last of some lines, if there is one, ends in something other than white space. -/
def LastSolid (ls : List String) : Prop :=
  ∀ l, ls.getLast? = some l → endsSolid l

theorem lastSolid_nil : LastSolid [] := by
  intro l hl
  cases hl

theorem lastSolid_of_forall {ls : List String} (h : ∀ l ∈ ls, endsSolid l) : LastSolid ls :=
  fun l hl => h l (List.mem_of_getLast? hl)

theorem lastSolid_append_concat (ls : List String) {l : String} (h : endsSolid l) :
    LastSolid (ls ++ [l]) := by
  intro l' hl'
  rw [List.getLast?_concat, Option.some.injEq] at hl'
  rwa [← hl']

theorem LastSolid.append {ls rs : List String} (hl : LastSolid ls) (hr : LastSolid rs) :
    LastSolid (ls ++ rs) := by
  intro l h
  rw [List.getLast?_append] at h
  cases hrs : rs.getLast? with
  | none => exact hl l (by rwa [hrs] at h)
  | some r =>
    rw [hrs, Option.some_or, Option.some.injEq] at h
    exact h ▸ hr r hrs

theorem lastSolid_flatMap {α : Type} {f : α → List String} {xs : List α}
    (h : ∀ x ∈ xs, LastSolid (f x)) : LastSolid (xs.flatMap f) := by
  induction xs with
  | nil => exact lastSolid_nil
  | cons x xs ih =>
    rw [List.flatMap_cons]
    exact (h x List.mem_cons_self).append (ih fun y hy => h y (List.mem_cons_of_mem _ hy))

theorem endsSolid_intercalate {separator : String} {ts : List String} (hne : ts ≠ [])
    (h : ∀ t ∈ ts, endsSolid t) : endsSolid (separator.intercalate ts) := by
  obtain rfl | ⟨init, t, rfl⟩ := List.eq_nil_or_concat ts
  · exact absurd rfl hne
  rw [List.concat_eq_append] at h ⊢
  have ht : endsSolid t := h t (by simp)
  obtain rfl | hinit := eq_or_ne init []
  · simpa using ht
  · rw [String.intercalate_append_of_ne_nil hinit (List.cons_ne_nil _ _),
      String.intercalate_singleton]
    exact endsSolid_append _ ht

/-! ## The lines of an outline -/

theorem endsSolid_typed {a : Attribute} (h : ∀ t ∈ a.texts, Text.Clean t) :
    endsSolid (typed a) :=
  endsSolid_append _ (h a.type.text (by simp [Attribute.texts])).endsSolid

theorem lastSolid_attributeLines {a : Attribute} (h : ∀ t ∈ a.texts, Text.Clean t) :
    LastSolid (attributeLines a) :=
  lastSolid_append_concat _ (endsSolid_append _ (endsSolid_typed h))

/-- A signature ends in its last exception, or else in the type that the method returns. -/
theorem endsSolid_signature {m : Method} (h : ∀ t ∈ m.texts, Text.Clean t) :
    endsSolid (signature m) := by
  have hreturn : endsSolid m.returnType.text := (h _ (by simp [Method.texts])).endsSolid
  rw [signature]
  cases hthrown : m.exceptions with
  | nil =>
    rw [List.isEmpty_nil, if_pos rfl, String.append_empty]
    exact endsSolid_append _ hreturn
  | cons e es =>
    rw [← hthrown]
    have hsome : m.exceptions.isEmpty = false := by rw [hthrown]; rfl
    rw [hsome, if_neg Bool.false_ne_true]
    refine endsSolid_append _ (endsSolid_append _ (endsSolid_intercalate ?_ ?_))
    · simp [hthrown]
    · intro t ht
      exact (h t (by simp [Method.texts, ht])).endsSolid

theorem lastSolid_methodLines {m : Method} (h : ∀ t ∈ m.texts, Text.Clean t) :
    LastSolid (methodLines m) :=
  lastSolid_append_concat _ (endsSolid_append _ (endsSolid_signature h))

theorem lastSolid_bodyLines {b : Body} (h : ∀ t ∈ b.texts, Text.Clean t) :
    LastSolid (bodyLines b) := by
  cases b with
  | enum values =>
    refine lastSolid_of_forall fun l hl => ?_
    obtain ⟨v, hv, rfl⟩ := List.mem_map.1 hl
    exact endsSolid_append _ (h v hv).endsSolid
  | struct attributes | exception attributes =>
    exact lastSolid_flatMap fun a ha =>
      lastSolid_attributeLines fun t ht => h t (List.mem_flatMap.2 ⟨a, ha, ht⟩)
  | service methods =>
    exact lastSolid_flatMap fun m hm =>
      lastSolid_methodLines fun t ht => h t (List.mem_flatMap.2 ⟨m, hm, ht⟩)

theorem declarationLines_ne_nil (d : Declaration) : declarationLines d ≠ [] := by
  simp [declarationLines]

theorem lastSolid_declarationLines {d : Declaration} (h : ∀ t ∈ d.texts, Text.Clean t) :
    LastSolid (declarationLines d) := by
  have hname : Text.Clean d.name := h _ List.mem_cons_self
  have hbody : ∀ t ∈ d.body.texts, Text.Clean t := fun t ht => h t (List.mem_cons_of_mem _ ht)
  exact (lastSolid_append_concat _ (endsSolid_append _ hname.endsSolid)).append
    (lastSolid_bodyLines hbody)

end Outline

namespace Document

open Outline

theorem outline_of_lines {d : Document} {ls : List String} {l : String}
    (h : d.outlineLines = ls ++ [l]) :
    d.outline = String.join (ls.map (· ++ "\n")) ++ l ++ "\n" := by
  rw [outline, h, List.map_append, String.join_append, String.append_assoc]
  rfl

theorem blankEnd_outline_of_nil {d : Document} (h : d.declarations = []) :
    blankEnd d.outline = blankEnd d.name ++ "\n" := by
  have hlines : d.outlineLines = [] ++ [d.name] := by rw [outlineLines, h]; rfl
  rw [outline_of_lines hlines, Text.blankEnd_append_newline]
  rfl

/-- An outline with declarations ends in one newline, with no other white space before it. -/
theorem blankEnd_outline {d : Document} (hclean : ∀ t ∈ d.texts, Text.Clean t)
    (h : d.declarations ≠ []) : blankEnd d.outline = "\n" := by
  have hlast : LastSolid (d.declarations.flatMap declarationLines) :=
    lastSolid_flatMap fun e he =>
      lastSolid_declarationLines fun t ht => hclean t (List.mem_flatMap.2 ⟨e, he, ht⟩)
  obtain hnil | ⟨ls, l, hconcat⟩ := List.eq_nil_or_concat (d.declarations.flatMap declarationLines)
  · obtain ⟨e, he⟩ := List.exists_mem_of_ne_nil _ h
    exact absurd (List.flatMap_eq_nil_iff.1 hnil e he) (declarationLines_ne_nil e)
  rw [List.concat_eq_append] at hconcat
  have hsolid : endsSolid l := hlast l (by rw [hconcat, List.getLast?_concat])
  have hlines : d.outlineLines = (d.name :: ls) ++ [l] := by rw [outlineLines, hconcat]; rfl
  rw [outline_of_lines hlines, Text.blankEnd_append_newline,
    Text.blankEnd_of_endsSolid (endsSolid_append _ hsolid)]
  rfl

end Document

/-! ## JSON -/

/-- An object ends in its bracket in every layout. -/
theorem Json.exists_print_object (layout : Json.Layout) (ms : List (String × Json)) :
    ∃ cs, (Json.object ms).print layout = cs ++ ['\x7d'] := by
  cases ms with
  | nil => exact ⟨['\x7b'], by rw [Json.print]; rfl⟩
  | cons m ms =>
    rw [Json.print]
    exact ⟨_, by rw [← List.append_assoc, ← List.append_assoc, ← List.cons_append]⟩

theorem Json.endsSolid_print_object (layout : Json.Layout) (ms : List (String × Json)) :
    endsSolid (String.ofList ((Json.object ms).print layout)) := by
  obtain ⟨cs, hcs⟩ := Json.exists_print_object layout ms
  rw [hcs, endsSolid, String.toList_ofList, List.getLast?_concat]
  rfl

/-- The white space at the end of a document with clean names and types: none in JSON, and one
newline in an outline, unless the outline is nothing but the name of the document. -/
theorem Document.blankEnd_render {d : Document} (h : ∀ t ∈ d.texts, Text.Clean t) (f : Format) :
    blankEnd (d.render f) =
      if f = .summary then (if d.declarations = [] then blankEnd d.name else "") ++ "\n" else "" := by
  cases f with
  | json | raw => exact Text.blankEnd_of_endsSolid (Json.endsSolid_print_object _ _)
  | summary =>
    rw [if_pos rfl, render]
    split
    · next hnil => exact blankEnd_outline_of_nil hnil
    · next hne => exact blankEnd_outline h hne

end IdlModel

import IdlModel.Proofs.Comment.Line

/-!
# Comments as they are usually laid out

A text that is laid out as a comment has each of its lines behind a star, and delimiters on lines of
their own. Normalizing takes exactly this away again (`Comment.normalize_layOut`): what a line holds
is not touched, though it may look like a delimiter or begin with a star.

The text has to be as normalizing leaves it, `Comment.Neat`: no white space around its lines, and no
empty lines around it all.
-/

namespace IdlModel.Comment

open IdlModel.Text

/-- No white space around the lines, and no empty lines around the whole. -/
structure Neat (text : List Char) : Prop where
  trimmed : ∀ l ∈ pieces text, trim l = l
  edges : text = [] ∨ (pieces text).head? ≠ some [] ∧ (pieces text).getLast? ≠ some []

instance decidableNeat (text : List Char) : Decidable (Neat text) :=
  decidable_of_iff ((∀ l ∈ pieces text, trim l = l) ∧
      (text = [] ∨ (pieces text).head? ≠ some [] ∧ (pieces text).getLast? ≠ some []))
    ⟨fun ⟨h, h'⟩ => ⟨h, h'⟩, fun ⟨h, h'⟩ => ⟨h, h'⟩⟩

/-- A line behind a star. -/
def withGutter (l : List Char) : List Char :=
  ' ' :: '*' :: ' ' :: l

/-- The comment with a text in it, each line behind a star. -/
def layOutChars (text : List Char) : List Char :=
  "/**\n".toList ++ (pieces text).flatMap (fun l => withGutter l ++ ['\n']) ++ " */".toList

/-- The comment with a text in it, each line behind a star. -/
def layOut (text : String) : String :=
  String.ofList (layOutChars text.toList)

/-! ## Delimiters -/

/-- What stands between the delimiters. -/
theorem body_delimited (cs : List Char) : body ('/' :: '*' :: '*' :: (cs ++ ['*', '/'])) = cs := by
  have htrim : trim ('/' :: '*' :: '*' :: (cs ++ ['*', '/'])) =
      ('/' :: '*' :: '*' :: cs) ++ ['*', '/'] := by
    refine trim_eq_self_iff.2 ⟨fun c hc => ?_, fun c hc => ?_⟩
    · cases hc
      rfl
    · rw [← List.cons_append, ← List.cons_append, ← List.cons_append, List.getLast?_append] at hc
      cases hc
      rfl
  rw [body, htrim, closed_iff.1 (.closed _)]
  rfl

/-! ## Lines -/

theorem ungutter_withGutter {l : List Char} (h : trim l = l) : ungutter (withGutter l) = l := by
  have hspace : trim ([' '] ++ l) = trim l := trim_append_left (List.forall_mem_singleton.2 rfl) l
  rw [withGutter, ungutter_cons_of_isBlank (by decide), ungutter_star_cons, ← List.singleton_append,
    hspace, h]

theorem pieces_layOutChars (text : List Char) :
    pieces (body (layOutChars text)) = [] :: ((pieces text).map withGutter ++ [[' ']]) := by
  have hraw : layOutChars text = '/' :: '*' :: '*' ::
      (joinLines ([] :: (pieces text).map withGutter ++ [[' ']]) ++ ['*', '/']) := by
    rw [joinLines_concat, List.flatMap_cons, List.flatMap_map, layOutChars]
    simp
  have hnewline : ∀ l ∈ [] :: (pieces text).map withGutter ++ [[' ']], '\n' ∉ l := by
    intro l hl
    simp only [List.cons_append, List.mem_cons, List.mem_append, List.mem_map, List.not_mem_nil,
      or_false] at hl
    rcases hl with rfl | ⟨piece, hpiece, rfl⟩ | rfl
    · exact List.not_mem_nil
    · simpa [withGutter] using newline_not_mem_of_mem_pieces hpiece
    · decide
  rw [hraw, body_delimited, pieces_joinLines (by simp) hnewline]
  rfl

/-! ## The whole comment -/

theorem normalizeChars_layOutChars {text : List Char} (h : Neat text) :
    normalizeChars (layOutChars text) = text := by
  have hlines : (pieces (body (layOutChars text))).map ungutter = [] :: (pieces text ++ [[]]) := by
    rw [pieces_layOutChars, List.map_cons, List.map_append, List.map_map]
    have hpieces : (pieces text).map (ungutter ∘ withGutter) = pieces text :=
      (List.map_congr_left fun l hl => ungutter_withGutter (h.trimmed l hl)).trans (List.map_id _)
    rw [hpieces]
    rfl
  have hblank : trimBlankLines ([[]] ++ (pieces text ++ [[]])) = trimBlankLines (pieces text) := by
    rw [trimBlankLines_append_left (by simp), trimBlankLines_append_right (by simp)]
  rw [normalizeChars, normalLines_eq_pieces, hlines, ← List.singleton_append, hblank]
  rcases h.edges with rfl | ⟨hhead, hlast⟩
  · rfl
  · rw [trimBlankLines_of_edges hhead hlast, joinLines_pieces]

/-- Laying out a text as a comment is undone by normalizing: the lines come back as they were,
empty ones between others, and such as look like a delimiter, begin with a star, or hold a carriage
return. -/
theorem normalize_layOut {text : String} (h : Neat text.toList) :
    normalize (layOut text) = text := by
  rw [normalize, layOut, String.toList_ofList, normalizeChars_layOutChars h, String.ofList_toList]

/-- Lines of all these kinds. -/
theorem normalize_layOut_delimiters :
    let text := "/** one */\n\n* two\n/*\n*/\r*/"
    Neat text.toList ∧
      layOut text = "/**\n * /** one */\n * \n * * two\n * /*\n * */\r*/\n */" ∧
      normalize (layOut text) = text := by
  intro text
  have h : Neat text.toList := by decide +kernel
  exact ⟨h, by decide +kernel, normalize_layOut h⟩

end IdlModel.Comment

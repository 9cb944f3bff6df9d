import IdlModel.Proofs.Comment.Layout

/-!
# Normalizing a second time

What normalizing leaves is `Neat`, and a neat text is left as it is unless it looks like a comment
itself: behind the star of a line, or between delimiters, there may be another star or another
delimiter (`normalize_eq_self_iff_neat`). Every step that does anything takes characters away, so a
text that comes back unchanged has passed each step unchanged.
-/

namespace IdlModel.Comment

open IdlModel.Text

/-- The text looks like a comment: it has a line behind a star, or a delimiter. -/
inductive LooksWritten (text : List Char) : Prop where
  | gutter {l : List Char} (h : l ∈ pieces text) (star : l.head? = some '*')
  | opening (h : ['/', '*'] <+: text)
  | closing (h : ['*', '/'] <:+ text)

/-! ## What normalizing leaves -/

theorem neat_normalizeChars (raw : List Char) : Neat (normalizeChars raw) := by
  by_cases hnil : normalLines raw = []
  · rw [normalizeChars_eq_nil_iff.2 hnil]
    exact ⟨by decide, .inl rfl⟩
  · have hpieces := pieces_normalizeChars hnil
    refine ⟨?_, .inr ?_⟩
    · rw [hpieces]
      exact fun l hl => trim_of_mem_normalLines hl
    · rw [hpieces]
      exact edges_normalLines raw

/-- A text that is neat has nothing around it that would be trimmed. -/
theorem Neat.trim_eq {text : List Char} (h : Neat text) : trim text = text := by
  rcases h.edges with rfl | ⟨hhead, hlast⟩
  · rfl
  · have hsolid := fun l hl => trim_eq_self_iff.1 (h.trimmed l hl)
    refine trim_eq_self_iff.2 ⟨?_, ?_⟩
    · obtain ⟨m, ms, hpieces⟩ := exists_pieces_eq_cons text
      rw [hpieces, List.head?_cons] at hhead
      obtain ⟨c, cs, rfl⟩ := List.exists_cons_of_ne_nil fun hm : m = [] => hhead (congrArg some hm)
      rw [head?_of_pieces hpieces]
      exact (hsolid _ (hpieces ▸ List.mem_cons_self)).1
    · obtain ⟨ls, l, hpieces⟩ := exists_pieces_eq_concat text
      rw [hpieces, List.getLast?_concat] at hlast
      have hne : l ≠ [] := fun hl => hlast (congrArg some hl)
      rw [getLast?_of_pieces hpieces, List.getLast?_eq_some_getLast hne, Option.some_or,
        ← List.getLast?_eq_some_getLast hne]
      exact (hsolid _ (hpieces ▸ List.mem_append_right _ (List.mem_singleton_self l))).2

/-! ## Texts that stay -/

theorem ungutter_eq_self {l : List Char} (h : trim l = l) (hstar : l.head? ≠ some '*') :
    ungutter l = l := by
  cases l with
  | nil => rfl
  | cons c cs =>
    have hsolid : isBlank c = false := (trim_eq_self_iff.1 h).1 c rfl
    rw [ungutter_cons_of_ne_star hsolid (fun hc => hstar (congrArg some hc)), h]

theorem normalizeChars_of_neat {text : List Char} (h : Neat text) (hplain : ¬ LooksWritten text) :
    normalizeChars text = text := by
  have hclosed : dropClosing text = text := closed_iff.1 (.bare fun hc => hplain (.closing hc))
  have hopened : dropOpening text = text := opened_iff.1 (.bare fun ho => hplain (.opening ho))
  have hlines : (pieces text).map ungutter = pieces text := by
    have hline : ∀ l ∈ pieces text, ungutter l = l := fun l hl =>
      ungutter_eq_self (h.trimmed l hl) fun hstar => hplain (.gutter hl hstar)
    exact (List.map_congr_left hline).trans (List.map_id _)
  rw [normalizeChars, normalLines_eq_pieces, body, h.trim_eq, hclosed, hopened, hlines]
  rcases h.edges with rfl | ⟨hhead, hlast⟩
  · rfl
  · rw [trimBlankLines_of_edges hhead hlast, joinLines_pieces]

/-! ## Texts that get shorter -/

/-- Normalizing does nothing but leave out characters of what stands between the delimiters. -/
theorem normalizeChars_sublist (raw : List Char) : (normalizeChars raw).Sublist (body raw) := by
  have hlines : (normalLines raw).Sublist ((pieces (body raw)).map ungutter) := by
    rw [normalLines_eq_pieces]
    exact stripEnds_sublist _ _
  have hjoin := (joinLines_sublist hlines).trans (joinLines_map_sublist ungutter_sublist _)
  rwa [joinLines_pieces] at hjoin

/-- A text that stays has no delimiters. -/
theorem dropClosing_dropOpening_of_fixed {text : List Char} (h : normalizeChars text = text) :
    ¬ ['*', '/'] <:+ text ∧ ¬ ['/', '*'] <+: text := by
  have hneat : Neat text := h ▸ neat_normalizeChars text
  have hlength : text.length ≤ (body text).length := by
    have hsub := normalizeChars_sublist text
    rw [h] at hsub
    exact hsub.length_le
  rw [body, hneat.trim_eq] at hlength
  have hopened := opened_dropOpening (dropClosing text)
  have hclosed : Closed text (dropClosing text) := closed_iff.2 rfl
  have hshort := hopened.suffix.length_le
  have hnot : ¬ ['*', '/'] <:+ text := by
    intro hsuffix
    have hlt := hclosed.length_lt hsuffix
    omega
  refine ⟨hnot, fun hprefix => ?_⟩
  rw [closed_iff.1 (.bare hnot)] at hopened hlength
  have hlt := hopened.length_lt hprefix
  omega

/-- The lines of a text that stays stay. -/
theorem ungutter_of_fixed {text l : List Char} (h : normalizeChars text = text)
    (hne : text ≠ []) (hl : l ∈ pieces text) : ungutter l = l := by
  have hneat : Neat text := h ▸ neat_normalizeChars text
  obtain ⟨hclosed, hopened⟩ := dropClosing_dropOpening_of_fixed h
  have hbody : body text = text := by
    rw [body, hneat.trim_eq, closed_iff.1 (.bare hclosed), opened_iff.1 (.bare hopened)]
  have hnil : normalLines text ≠ [] := fun hnil => hne (h ▸ normalizeChars_eq_nil_iff.2 hnil)
  have hpieces : pieces text = trimBlankLines ((pieces text).map ungutter) := by
    calc pieces text = pieces (normalizeChars text) := by rw [h]
      _ = normalLines text := pieces_normalizeChars hnil
      _ = trimBlankLines ((pieces text).map ungutter) := by rw [normalLines_eq_pieces, hbody]
  -- As many lines are left as there were, so none has been blank.
  have hall : trimBlankLines ((pieces text).map ungutter) = (pieces text).map ungutter := by
    refine (stripEnds_sublist _ _).eq_of_length ?_
    rw [← trimBlankLines_eq_stripEnds, ← hpieces, List.length_map]
  rw [hall] at hpieces
  exact List.map_inj_left.1 (hpieces.symm.trans (List.map_id _).symm) l hl

theorem not_looksWritten_of_fixed {text : List Char} (h : normalizeChars text = text) :
    ¬ LooksWritten text := by
  obtain ⟨hclosed, hopened⟩ := dropClosing_dropOpening_of_fixed h
  rintro (@⟨l, hl, hstar⟩ | hprefix | hsuffix)
  · obtain ⟨rest, rfl⟩ := List.head?_eq_some_iff.1 hstar
    have hne : text ≠ [] := by
      rintro rfl
      exact List.cons_ne_nil _ _ (List.mem_singleton.1 hl)
    have hline := ungutter_of_fixed h hne hl
    have hshort : (trim rest).length ≤ rest.length := (stripEnds_sublist isBlank rest).length_le
    rw [← ungutter_star_cons, hline, List.length_cons] at hshort
    omega
  · exact hopened hprefix
  · exact hclosed hsuffix

theorem normalizeChars_eq_self_iff {text : List Char} :
    normalizeChars text = text ↔ Neat text ∧ ¬ LooksWritten text :=
  ⟨fun h => ⟨h ▸ neat_normalizeChars text, not_looksWritten_of_fixed h⟩,
    fun h => normalizeChars_of_neat h.1 h.2⟩

theorem normalize_eq_self_iff {s : String} :
    normalize s = s ↔ Neat s.toList ∧ ¬ LooksWritten s.toList := by
  rw [← normalizeChars_eq_self_iff, ← toList_normalize, String.toList_inj]

/-- What a comment comes to is neat. The texts that normalizing leaves as they are are the neat ones
that do not look like a comment, and so it changes its own result just if that looks like a comment
again. -/
theorem normalize_eq_self_iff_neat :
    (∀ raw, Neat (normalize raw).toList) ∧
      (∀ s, normalize s = s ↔ Neat s.toList ∧ ¬ LooksWritten s.toList) ∧
      ∀ raw, normalize (normalize raw) ≠ normalize raw ↔
        LooksWritten (normalize raw).toList := by
  have hneat (raw : String) : Neat (normalize raw).toList := by
    rw [toList_normalize]
    exact neat_normalizeChars raw.toList
  refine ⟨hneat, fun s => normalize_eq_self_iff, fun raw => ?_⟩
  rw [Ne, normalize_eq_self_iff, not_and_not_right]
  exact ⟨fun h => h (hneat raw), fun h _ => h⟩

/-- A second star and a second delimiter go in a second pass. -/
example : normalize "/** ** a\n * /* b */ */" = "* a\n/* b */" ∧
    normalize "* a\n/* b */" = "a\n/* b" := by decide +kernel

end IdlModel.Comment

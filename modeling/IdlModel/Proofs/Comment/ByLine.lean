import IdlModel.Proofs.Comment.Line

/-!
# Normalizing line by line

What a comment comes to depends on nothing but its lines, each without the white space around it
(`tidyLines`). Normalizing can be done on these alone (`normalLines_eq_ofTidyLines`): blank lines
go off both ends, then the last line gives up the closing delimiter and the first one the opening
one, then each line its star, and what is blank now goes off both ends again.

So it is of no account how a comment is laid out: how far its lines are indented, what white space
stands behind them, and how they end.
-/

namespace IdlModel.Comment

open IdlModel.Text

/-- The lines of a text, each without the white space around it. -/
def tidyLines (cs : List Char) : List (List Char) :=
  (pieces cs).map trim

/-- The lines that a comment comes to, from its trimmed lines. -/
def ofTidyLines (ls : List (List Char)) : List (List Char) :=
  trimBlankLines ((((trimBlankLines ls).modifyLast dropClosing).modifyHead dropOpening).map ungutter)

/-! ## White space around the text -/

theorem trim_piece_eq_nil {cs l : List Char} (h : ∀ c ∈ cs, isBlank c) (hl : l ∈ pieces cs) :
    trim l = [] :=
  trim_eq_nil_iff.2 fun c hc => h c ((sublist_of_mem_pieces hl).subset hc)

/-- White space before a text adds blank lines before its first line. -/
theorem exists_tidyLines_append_left {front : List Char} (h : ∀ c ∈ front, isBlank c)
    (cs : List Char) : ∃ blank, tidyLines (front ++ cs) = blank ++ tidyLines cs ∧
      ∀ l ∈ blank, l = [] := by
  obtain ⟨ls, l, hfront⟩ := exists_pieces_eq_concat front
  obtain ⟨m, ms, hcs⟩ := exists_pieces_eq_cons cs
  have hl : ∀ c ∈ l, isBlank c := fun c hc =>
    h c ((sublist_of_mem_pieces (hfront ▸ List.mem_append_right ls (List.mem_singleton_self l))).subset
      hc)
  refine ⟨ls.map trim, ?_, ?_⟩
  · rw [tidyLines, tidyLines, pieces_append hfront hcs, hcs, List.map_append, List.map_cons,
      trim_append_left hl, List.map_cons]
  · intro k hk
    obtain ⟨k, hmem, rfl⟩ := List.mem_map.1 hk
    exact trim_piece_eq_nil h (hfront ▸ List.mem_append_left _ hmem)

/-- White space behind a text adds blank lines behind its last line. -/
theorem exists_tidyLines_append_right {back : List Char} (h : ∀ c ∈ back, isBlank c)
    (cs : List Char) : ∃ blank, tidyLines (cs ++ back) = tidyLines cs ++ blank ∧
      ∀ l ∈ blank, l = [] := by
  obtain ⟨ls, l, hcs⟩ := exists_pieces_eq_concat cs
  obtain ⟨m, ms, hback⟩ := exists_pieces_eq_cons back
  have hm : ∀ c ∈ m, isBlank c := fun c hc =>
    h c ((sublist_of_mem_pieces (hback ▸ List.mem_cons_self)).subset hc)
  refine ⟨ms.map trim, ?_, ?_⟩
  · rw [tidyLines, tidyLines, pieces_append hcs hback, hcs, List.map_append, List.map_append,
      List.map_cons, trim_append_right hm, List.append_assoc]
    rfl
  · intro k hk
    obtain ⟨k, hmem, rfl⟩ := List.mem_map.1 hk
    exact trim_piece_eq_nil h (hback ▸ List.mem_cons_of_mem _ hmem)

/-- Trimming a text takes blank lines away, and does nothing else that trimming its lines would not
do. -/
theorem trimBlankLines_tidyLines_trim (cs : List Char) :
    trimBlankLines (tidyLines (trim cs)) = trimBlankLines (tidyLines cs) := by
  obtain ⟨front, back, hcs, hfront, hback⟩ := exists_stripEnds isBlank cs
  rw [← trim_eq_stripEnds] at hcs
  obtain ⟨above, habove, hnone⟩ := exists_tidyLines_append_left hfront (trim cs)
  obtain ⟨below, hbelow, hnone'⟩ := exists_tidyLines_append_right hback (front ++ trim cs)
  calc trimBlankLines (tidyLines (trim cs))
      = trimBlankLines (above ++ tidyLines (trim cs) ++ below) :=
        by rw [trimBlankLines_append_right hnone', trimBlankLines_append_left hnone]
    _ = trimBlankLines (tidyLines cs) := by rw [← habove, ← hbelow, ← hcs]

theorem eq_some_of_or_newline {o : Option Char} {p : Prop} [Decidable p] {c : Char}
    (h : o.or (if p then none else some '\n') = some c) (hc : isBlank c = false) : o = some c := by
  cases o with
  | some d => exact h
  | none =>
    rw [Option.none_or] at h
    split at h
    · cases h
    · obtain rfl := Option.some.inj h
      cases hc

/-- A trimmed text begins with something in its first line. -/
theorem exists_head?_of_trim {t m : List Char} {ms : List (List Char)} (h : trim t = t)
    (hne : t ≠ []) (hpieces : pieces t = m :: ms) : ∃ c ∈ m.head?, isBlank c = false := by
  obtain ⟨c, cs, rfl⟩ := List.exists_cons_of_ne_nil hne
  have hsolid : isBlank c = false := (trim_eq_self_iff.1 h).1 c rfl
  exact ⟨c, eq_some_of_or_newline (head?_of_pieces hpieces).symm hsolid, hsolid⟩

/-- A trimmed text ends with something in its last line. -/
theorem exists_getLast?_of_trim {t l : List Char} {ls : List (List Char)} (h : trim t = t)
    (hne : t ≠ []) (hpieces : pieces t = ls ++ [l]) : ∃ c ∈ l.getLast?, isBlank c = false := by
  have hlast := List.getLast?_eq_some_getLast hne
  have hsolid : isBlank (t.getLast hne) = false := (trim_eq_self_iff.1 h).2 _ hlast
  rw [getLast?_of_pieces hpieces] at hlast
  exact ⟨_, eq_some_of_or_newline hlast hsolid, hsolid⟩

/-- No line at the edges of a trimmed text is blank. -/
theorem trimBlankLines_tidyLines_of_trim {t : List Char} (h : trim t = t) (hne : t ≠ []) :
    trimBlankLines (tidyLines t) = tidyLines t := by
  have hsome {l : List Char} {c : Char} (hc : c ∈ l) (hsolid : isBlank c = false) :
      some (trim l) ≠ some [] := by
    rw [Ne, Option.some.injEq, trim_eq_nil_iff]
    intro hblank
    rw [hblank c hc] at hsolid
    cases hsolid
  refine trimBlankLines_of_edges ?_ ?_
  · obtain ⟨m, ms, hpieces⟩ := exists_pieces_eq_cons t
    obtain ⟨c, hc, hsolid⟩ := exists_head?_of_trim h hne hpieces
    rw [tidyLines, hpieces, List.map_cons, List.head?_cons]
    exact hsome (List.mem_of_mem_head? hc) hsolid
  · obtain ⟨ls, l, hpieces⟩ := exists_pieces_eq_concat t
    obtain ⟨c, hc, hsolid⟩ := exists_getLast?_of_trim h hne hpieces
    rw [tidyLines, hpieces, List.map_append, List.map_singleton, List.getLast?_concat]
    exact hsome (List.mem_of_mem_getLast? hc) hsolid

/-! ## White space around the first line and the last -/

/-- White space is no part of a delimiter. -/
theorem ne_slash_and_ne_star_of_isBlank {c : Char} (h : isBlank c) : c ≠ '/' ∧ c ≠ '*' := by
  constructor <;> rintro rfl <;> exact absurd h (by decide)

/-- A first line that begins with something: white space behind it does not hide the opening
delimiter. -/
theorem ungutter_dropOpening_trim {l : List Char} (h : ∃ c ∈ l.head?, isBlank c = false) :
    ungutter (dropOpening (trim l)) = ungutter (dropOpening l) := by
  obtain ⟨back, hl, hback⟩ := exists_eq_trim_append h
  have hdrop : dropOpening l = dropOpening (trim l) ++ back := by
    conv => lhs; rw [hl]
    exact dropOpening_append _ fun c hc =>
      ne_slash_and_ne_star_of_isBlank (hback c (List.mem_of_mem_head? hc))
  rw [hdrop, ungutter_append_right hback]

/-- A last line that ends in something: white space before it does not hide the closing
delimiter. -/
theorem ungutter_dropClosing_trim {l : List Char} (h : ∃ c ∈ l.getLast?, isBlank c = false) :
    ungutter (dropClosing (trim l)) = ungutter (dropClosing l) := by
  obtain ⟨front, hl, hfront⟩ := exists_eq_append_trim h
  have hdrop : dropClosing l = front ++ dropClosing (trim l) := by
    conv => lhs; rw [hl]
    exact dropClosing_append (fun c hc =>
      ne_slash_and_ne_star_of_isBlank (hfront c (List.mem_of_mem_getLast? hc))) _
  rw [hdrop, ungutter_append_left hfront]

/-! ## All lines -/

/-- The delimiters of a trimmed text are found in its trimmed lines. -/
theorem map_ungutter_pieces {t : List Char} (h : trim t = t) (hne : t ≠ []) :
    (((pieces t).modifyLast dropClosing).modifyHead dropOpening).map ungutter =
      (((tidyLines t).modifyLast dropClosing).modifyHead dropOpening).map ungutter := by
  obtain ⟨m, ms, hpieces⟩ := exists_pieces_eq_cons t
  obtain rfl | ⟨ks, l, rfl⟩ := List.eq_nil_or_concat ms
  · have ht : m = t := by
      rw [← joinLines_pieces t, hpieces, joinLines, List.intercalate_singleton]
    rw [tidyLines, hpieces, List.map_singleton, ht, h]
  · rw [List.concat_eq_append] at hpieces
    have hpieces' : pieces t = (m :: ks) ++ [l] := hpieces
    have hfirst := ungutter_dropOpening_trim (exists_head?_of_trim h hne hpieces)
    have hlast := ungutter_dropClosing_trim (exists_getLast?_of_trim h hne hpieces')
    have hinner : (ks.map trim).map ungutter = ks.map ungutter := by
      rw [List.map_map]
      exact List.map_congr_left fun k _ => ungutter_trim k
    rw [tidyLines, hpieces, List.map_cons, List.map_append, List.map_singleton,
      ← List.cons_append, ← List.cons_append, List.modifyLast_concat, List.modifyLast_concat]
    simp only [List.cons_append, List.modifyHead_cons, List.map_cons, List.map_append, hfirst,
      hlast, hinner, List.map_nil]

/-- Normalizing can be done line by line. -/
theorem normalLines_eq_ofTidyLines (raw : List Char) :
    normalLines raw = ofTidyLines (tidyLines raw) := by
  rw [normalLines_eq_pieces, pieces_body, ofTidyLines, ← trimBlankLines_tidyLines_trim]
  by_cases hnil : trim raw = []
  · rw [hnil]
    rfl
  · rw [map_ungutter_pieces (trim_trim raw) hnil,
      trimBlankLines_tidyLines_of_trim (trim_trim raw) hnil]

end IdlModel.Comment

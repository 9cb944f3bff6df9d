import IdlModel.Proofs.Comment.Delimiter
import IdlModel.Proofs.Text.Trim

/-!
# The lines of a comment

Each line of a comment is dealt with on its own, by `ungutter`: the white space around it does not
count, and behind a star it is trimmed again (`ungutter_star_cons`). The lines may be cut at the
newlines alone, since line ends are trimmed away and an empty last line is blank
(`normalLines_eq_pieces`). The lines of the result are trimmed, hold no newlines, and those at the
edges are not empty, so they are found again in the text of the result (`pieces_normalizeChars`).
-/

namespace IdlModel.Comment

open IdlModel.Text

/-! ## Blank lines -/

/-- Trimming blank lines is taking the empty ones off both ends. -/
theorem trimBlankLines_eq_stripEnds (ls : List (List Char)) :
    trimBlankLines ls = stripEnds List.isEmpty ls := rfl

theorem trimBlankLines_append_left {front : List (List Char)} (h : ∀ l ∈ front, l = [])
    (ls : List (List Char)) : trimBlankLines (front ++ ls) = trimBlankLines ls :=
  stripEnds_append_left (fun l hl => List.isEmpty_iff.2 (h l hl)) ls

theorem trimBlankLines_append_right {back : List (List Char)} (h : ∀ l ∈ back, l = [])
    (ls : List (List Char)) : trimBlankLines (ls ++ back) = trimBlankLines ls :=
  stripEnds_append_right (fun l hl => List.isEmpty_iff.2 (h l hl)) ls

theorem trimBlankLines_of_edges {ls : List (List Char)} (hhead : ls.head? ≠ some [])
    (hlast : ls.getLast? ≠ some []) : trimBlankLines ls = ls := by
  have hsolid {l : List Char} {o : Option (List Char)} (ho : o ≠ some []) (hl : l ∈ o) :
      l.isEmpty = false := by
    rw [Bool.eq_false_iff, Ne, List.isEmpty_iff]
    rintro rfl
    exact ho hl
  exact stripEnds_eq_self_iff.2 ⟨fun l hl => hsolid hhead hl, fun l hl => hsolid hlast hl⟩

/-! ## One line -/

/-- Of a line, the white space around it does not count. -/
theorem ungutter_trim (l : List Char) : ungutter (trim l) = ungutter l := by
  rw [ungutter, ungutter, trim_trim]

theorem ungutter_append_left {front : List Char} (h : ∀ c ∈ front, isBlank c) (l : List Char) :
    ungutter (front ++ l) = ungutter l := by
  rw [← ungutter_trim, trim_append_left h, ungutter_trim]

theorem ungutter_append_right {back : List Char} (h : ∀ c ∈ back, isBlank c) (l : List Char) :
    ungutter (l ++ back) = ungutter l := by
  rw [← ungutter_trim, trim_append_right h, ungutter_trim]

theorem ungutter_cons_of_isBlank {c : Char} (h : isBlank c) (cs : List Char) :
    ungutter (c :: cs) = ungutter cs :=
  ungutter_append_left (List.forall_mem_singleton.2 h) cs

/-- Behind its star a line is trimmed again. -/
theorem ungutter_star_cons (cs : List Char) : ungutter ('*' :: cs) = trim cs := by
  rw [ungutter, trim_cons_of_not_isBlank (by decide)]
  exact dropWhile_rdropWhile isBlank cs

/-- A line without a star is trimmed. -/
theorem ungutter_cons_of_ne_star {c : Char} (h : isBlank c = false) (hstar : c ≠ '*')
    (cs : List Char) : ungutter (c :: cs) = trim (c :: cs) := by
  rw [ungutter, trim_cons_of_not_isBlank h]
  split
  · next heq => exact absurd (List.cons.inj heq).1 hstar
  · rfl

theorem trim_ungutter (l : List Char) : trim (ungutter l) = ungutter l := by
  induction l with
  | nil => rfl
  | cons c cs ih =>
    by_cases hblank : isBlank c = true
    · rw [ungutter_cons_of_isBlank hblank, ih]
    · rw [Bool.not_eq_true] at hblank
      by_cases hstar : c = '*'
      · rw [hstar, ungutter_star_cons, trim_trim]
      · rw [ungutter_cons_of_ne_star hblank hstar, trim_trim]

theorem ungutter_sublist (l : List Char) : (ungutter l).Sublist l := by
  have htrim (cs : List Char) : (trim cs).Sublist cs := stripEnds_sublist isBlank cs
  induction l with
  | nil => exact List.Sublist.refl _
  | cons c cs ih =>
    by_cases hblank : isBlank c = true
    · rw [ungutter_cons_of_isBlank hblank]
      exact ih.cons c
    · rw [Bool.not_eq_true] at hblank
      by_cases hstar : c = '*'
      · rw [hstar, ungutter_star_cons]
        exact (htrim cs).cons '*'
      · rw [ungutter_cons_of_ne_star hblank hstar]
        exact htrim (c :: cs)

/-! ## All lines -/

theorem ungutter_dropReturn (l : List Char) : ungutter (dropReturn l) = ungutter l := by
  rw [dropReturn]
  split
  · next hreturn =>
    obtain ⟨ds, rfl⟩ := List.getLast?_eq_some_iff.1 hreturn
    rw [List.dropLast_concat]
    exact (ungutter_append_right (List.forall_mem_singleton.2 rfl) ds).symm
  · rfl

/-- Line ends and an empty last line make no difference to a comment. -/
theorem trimBlankLines_map_ungutter_lines (cs : List Char) :
    trimBlankLines ((lines cs).map ungutter) = trimBlankLines ((pieces cs).map ungutter) := by
  obtain ⟨ls, l, hpieces⟩ := exists_pieces_eq_concat cs
  have hreturns : (ls.map dropReturn).map ungutter = ls.map ungutter := by
    rw [List.map_map]
    exact List.map_congr_left fun k _ => ungutter_dropReturn k
  rw [lines, hpieces, closeLines_concat, List.map_append, List.map_append, hreturns]
  split
  · next hl =>
    have hnone : ∀ k ∈ [l].map ungutter, k = [] := by
      rw [hl]
      decide
    rw [List.map_nil, List.append_nil, trimBlankLines_append_right hnone]
  · rfl

theorem normalLines_eq_pieces (raw : List Char) :
    normalLines raw = trimBlankLines ((pieces (body raw)).map ungutter) := by
  rw [normalLines, trimBlankLines_map_ungutter_lines]

/-! ## The lines of the result -/

theorem exists_of_mem_normalLines {raw l : List Char} (h : l ∈ normalLines raw) :
    ∃ k ∈ pieces (body raw), ungutter k = l := by
  rw [normalLines_eq_pieces] at h
  exact List.mem_map.1 ((stripEnds_sublist _ _).subset h)

theorem newline_not_mem_of_mem_normalLines {raw l : List Char} (h : l ∈ normalLines raw) :
    '\n' ∉ l := by
  obtain ⟨k, hk, rfl⟩ := exists_of_mem_normalLines h
  exact fun hl => newline_not_mem_of_mem_pieces hk ((ungutter_sublist k).subset hl)

theorem trim_of_mem_normalLines {raw l : List Char} (h : l ∈ normalLines raw) : trim l = l := by
  obtain ⟨k, -, rfl⟩ := exists_of_mem_normalLines h
  exact trim_ungutter k

/-- The first and the last line hold something. -/
theorem edges_normalLines (raw : List Char) :
    (normalLines raw).head? ≠ some [] ∧ (normalLines raw).getLast? ≠ some [] := by
  have hstrip : trimBlankLines (normalLines raw) = normalLines raw := stripEnds_stripEnds _ _
  obtain ⟨hhead, hlast⟩ := stripEnds_eq_self_iff.1 hstrip
  exact ⟨fun h => absurd (hhead [] h) (by decide), fun h => absurd (hlast [] h) (by decide)⟩

/-- The lines of what a comment comes to, if it comes to anything. -/
theorem pieces_normalizeChars {raw : List Char} (h : normalLines raw ≠ []) :
    pieces (normalizeChars raw) = normalLines raw :=
  pieces_joinLines h fun _ hl => newline_not_mem_of_mem_normalLines hl

theorem normalizeChars_eq_nil_iff {raw : List Char} :
    normalizeChars raw = [] ↔ normalLines raw = [] := by
  constructor
  · intro hnil
    by_contra hne
    have hpieces := pieces_normalizeChars hne
    rw [hnil, pieces] at hpieces
    exact (edges_normalLines raw).1 (by rw [← hpieces]; rfl)
  · intro hnil
    rw [normalizeChars, hnil]
    rfl

end IdlModel.Comment

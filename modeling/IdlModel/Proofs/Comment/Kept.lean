import IdlModel.Proofs.Comment.Line

/-!
# What a comment keeps

Between its delimiters a comment loses nothing but white space and, on each line, one star in front
of everything else. `marked` tells for each character of a line whether it is kept. The kept
characters of all lines are those of the result, line by line, and a line of the result is the
stretch from the first kept character of a line to its last, with all that stands between
(`normalize_keeps`). No line gets lost between two that keep something.
-/

namespace IdlModel.Comment

open IdlModel.Text

/-- The characters of a line, each with whether it is kept: white space is not, and neither is a
star before which there is nothing else. -/
def marked : List Char → List (Char × Bool)
  | [] => []
  | c :: cs =>
    if isBlank c then (c, false) :: marked cs
    else (c, c ≠ '*') :: cs.map fun d => (d, !isBlank d)

/-- The kept characters of a line. -/
def keptChars (l : List Char) : List Char :=
  ((marked l).filter Prod.snd).map Prod.fst

/-- The part of a line from its first kept character to its last. -/
def keptPart (l : List Char) : List Char :=
  (stripEnds (fun m => !m.2) (marked l)).map Prod.fst

/-- The lines from the first that keeps a character to the last. -/
def keptLines (ls : List (List Char)) : List (List Char) :=
  stripEnds (fun l => (keptChars l).isEmpty) ls

/-- The lines of a text, of which an empty one has none. -/
def rows (text : List Char) : List (List Char) :=
  if text = [] then [] else pieces text

/-! ## One line -/

/-- Where no star is passed over, the part from the first kept character to the last is the trimmed
line. -/
theorem stripEnds_map_solid (cs : List Char) :
    (stripEnds (fun m : Char × Bool => !m.2) (cs.map fun d => (d, !isBlank d))).map Prod.fst =
      trim cs := by
  have hmarks : (fun m : Char × Bool => !m.2) ∘ (fun d => (d, !isBlank d)) = isBlank := by
    funext d
    exact Bool.not_not (isBlank d)
  have hfst : Prod.fst ∘ (fun d => (d, !isBlank d)) = id := rfl
  rw [stripEnds_map, hmarks, List.map_map, hfst, List.map_id, trim_eq_stripEnds]

theorem filter_map_solid (cs : List Char) :
    ((cs.map fun d => (d, !isBlank d)).filter Prod.snd).map Prod.fst =
      cs.filter (!isBlank ·) := by
  have hsnd : Prod.snd ∘ (fun d => (d, !isBlank d)) = (!isBlank ·) := rfl
  have hfst : Prod.fst ∘ (fun d => (d, !isBlank d)) = id := rfl
  rw [List.filter_map, hsnd, List.map_map, hfst, List.map_id]

theorem marked_cons_of_isBlank {c : Char} (h : isBlank c) (cs : List Char) :
    marked (c :: cs) = (c, false) :: marked cs := by
  rw [marked, if_pos h]

theorem marked_star_cons (cs : List Char) :
    marked ('*' :: cs) = ('*', false) :: cs.map fun d => (d, !isBlank d) := rfl

theorem marked_cons_of_ne_star {c : Char} (h : isBlank c = false) (hstar : c ≠ '*')
    (cs : List Char) : marked (c :: cs) = (c :: cs).map fun d => (d, !isBlank d) := by
  rw [marked, h, if_neg Bool.false_ne_true, List.map_cons, h, decide_eq_true hstar, Bool.not_false]

/-- A line comes to the stretch between the ends of what it keeps, and that holds nothing else than
white space besides. -/
theorem ungutter_eq_keptPart (l : List Char) :
    ungutter l = keptPart l ∧ (ungutter l).filter (!isBlank ·) = keptChars l := by
  have hsolid (cs : List Char) : (trim cs).filter (!isBlank ·) = cs.filter (!isBlank ·) :=
    filter_stripEnds isBlank cs
  induction l with
  | nil => exact ⟨rfl, rfl⟩
  | cons c cs ih =>
    by_cases hblank : isBlank c = true
    · rw [ungutter_cons_of_isBlank hblank, keptPart, keptChars, marked_cons_of_isBlank hblank,
        stripEnds_cons_pos rfl, List.filter_cons_of_neg Bool.false_ne_true]
      exact ih
    · rw [Bool.not_eq_true] at hblank
      by_cases hstar : c = '*'
      · rw [hstar, ungutter_star_cons, keptPart, keptChars, marked_star_cons,
          stripEnds_cons_pos rfl, List.filter_cons_of_neg Bool.false_ne_true, hsolid,
          stripEnds_map_solid, filter_map_solid]
        exact ⟨rfl, rfl⟩
      · rw [ungutter_cons_of_ne_star hblank hstar, keptPart, keptChars,
          marked_cons_of_ne_star hblank hstar, hsolid, stripEnds_map_solid, filter_map_solid]
        exact ⟨rfl, rfl⟩

/-- A line comes to nothing if it keeps nothing. -/
theorem isEmpty_ungutter (l : List Char) : (ungutter l).isEmpty = (keptChars l).isEmpty := by
  rw [← (ungutter_eq_keptPart l).2]
  cases hl : ungutter l with
  | nil => rfl
  | cons c cs =>
    have hc : isBlank c = false := by
      have hhead := (trim_eq_self_iff.1 (trim_ungutter l)).1
      rw [hl] at hhead
      exact hhead c rfl
    rw [List.filter_cons_of_pos (by simp [hc])]
    rfl

/-! ## All lines -/

theorem normalLines_eq_map_keptPart (raw : List Char) :
    normalLines raw = (keptLines (pieces (body raw))).map keptPart := by
  have hempty : List.isEmpty ∘ ungutter = fun l => (keptChars l).isEmpty :=
    funext isEmpty_ungutter
  rw [normalLines_eq_pieces, trimBlankLines_eq_stripEnds, stripEnds_map, hempty, keptLines]
  exact List.map_congr_left fun l _ => (ungutter_eq_keptPart l).1

theorem filter_joinLines (ls : List (List Char)) :
    (joinLines ls).filter (!isBlank ·) = ls.flatMap (·.filter (!isBlank ·)) := by
  induction ls with
  | nil => rfl
  | cons l ls ih =>
    cases ls with
    | nil => simp [joinLines]
    | cons m ls =>
      rw [joinLines, List.intercalate_cons_cons, ← joinLines, List.filter_append,
        List.filter_append, ih, List.flatMap_cons]
      simp [show isBlank '\n' = true from rfl]

theorem filter_normalizeChars (raw : List Char) :
    (normalizeChars raw).filter (!isBlank ·) = (pieces (body raw)).flatMap keptChars := by
  have hblank (l : List Char) (hl : l.isEmpty) : l.filter (!isBlank ·) = [] := by
    rw [List.isEmpty_iff.1 hl]
    rfl
  rw [normalizeChars, filter_joinLines, normalLines_eq_pieces, trimBlankLines_eq_stripEnds,
    flatMap_stripEnds hblank, List.flatMap_map]
  exact List.flatMap_congr fun l _ => (ungutter_eq_keptPart l).2

theorem rows_normalizeChars (raw : List Char) : rows (normalizeChars raw) = normalLines raw := by
  rw [rows]
  split
  · next hnil => exact (normalizeChars_eq_nil_iff.1 hnil).symm
  · next hne => exact pieces_normalizeChars fun h => hne (normalizeChars_eq_nil_iff.2 h)

/-- Nothing gets lost but what has to: with `b` for what stands between the delimiters, the
characters of the result other than white space are the kept characters of the lines of `b`, in
order, and its lines are the kept parts of the lines of `b` from the first to the last that keeps
something. -/
theorem normalize_keeps (raw : String) :
    ∃ t b, Closed (trim raw.toList) t ∧ Opened t b ∧
      (normalize raw).toList.filter (!isBlank ·) = (pieces b).flatMap keptChars ∧
      rows (normalize raw).toList = (keptLines (pieces b)).map keptPart := by
  refine ⟨dropClosing (trim raw.toList), body raw.toList, closed_iff.2 rfl, opened_iff.2 rfl, ?_⟩
  rw [toList_normalize, rows_normalizeChars]
  exact ⟨filter_normalizeChars raw.toList, normalLines_eq_map_keptPart raw.toList⟩

end IdlModel.Comment

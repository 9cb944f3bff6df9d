import IdlModel.Proofs.Text.Ends
import IdlModel.Text.Blank

/-!
# What trimming takes away

Trimming the end of a text takes away a run of white space, `blankEnd`, and nothing else
(`trimmedEnd_append_blankEnd`). A text that `endsSolid`, in a character other than white space, stays
as it is. A trimmed text is such a text unless nothing is left of it (`endsSolid_trimmed`), and
trimming it again changes nothing (`trimmed_trimmed`).
-/

namespace IdlModel.Text

/-- The white space that a string ends with. -/
def blankEnd (s : String) : String :=
  String.ofList (s.toList.rtakeWhile isBlank)

/-- Does the string end in white space? -/
def endsBlank (s : String) : Bool :=
  s.toList.getLast?.any isBlank

/-- Does the string end in a character that is no white space? -/
def endsSolid (s : String) : Bool :=
  s.toList.getLast?.any (!isBlank ·)

/-! ## Lists of characters -/

theorem trimEnd_eq_rdropWhile (cs : List Char) : trimEnd cs = cs.rdropWhile isBlank := rfl

theorem trimStart_cons_of_not_isBlank {c : Char} (h : isBlank c = false) (cs : List Char) :
    trimStart (c :: cs) = c :: cs := by
  rw [trimStart, List.dropWhile_cons, if_neg (by simp [h])]

/-- Trimming is taking white space off both ends. -/
theorem trim_eq_stripEnds (cs : List Char) : trim cs = stripEnds isBlank cs := rfl

theorem trim_trim (cs : List Char) : trim (trim cs) = trim cs :=
  stripEnds_stripEnds isBlank cs

theorem trim_append_left {front : List Char} (h : ∀ c ∈ front, isBlank c) (cs : List Char) :
    trim (front ++ cs) = trim cs :=
  stripEnds_append_left h cs

theorem trim_append_right {back : List Char} (h : ∀ c ∈ back, isBlank c) (cs : List Char) :
    trim (cs ++ back) = trim cs :=
  stripEnds_append_right h cs

theorem trim_eq_nil_iff {cs : List Char} : trim cs = [] ↔ ∀ c ∈ cs, isBlank c :=
  stripEnds_eq_nil_iff

/-- A text is trimmed if it neither begins nor ends in white space. -/
theorem trim_eq_self_iff {cs : List Char} : trim cs = cs ↔
    (∀ c ∈ cs.head?, isBlank c = false) ∧ ∀ c ∈ cs.getLast?, isBlank c = false :=
  stripEnds_eq_self_iff

/-- Of a text that begins with something, trimming takes away an end. -/
theorem exists_eq_trim_append {cs : List Char} (h : ∃ c ∈ cs.head?, isBlank c = false) :
    ∃ back, cs = trim cs ++ back ∧ ∀ c ∈ back, isBlank c := by
  obtain ⟨c, hc, hsolid⟩ := h
  obtain ⟨cs, rfl⟩ := List.head?_eq_some_iff.1 hc
  refine ⟨(c :: cs).rtakeWhile isBlank, ?_, fun d hd => List.mem_rtakeWhile_imp hd⟩
  rw [trim, trimStart_cons_of_not_isBlank hsolid, trimEnd_eq_rdropWhile,
    List.rdropWhile_append_rtakeWhile]

/-- Of a text that ends in something, trimming takes away a beginning. -/
theorem exists_eq_append_trim {cs : List Char} (h : ∃ c ∈ cs.getLast?, isBlank c = false) :
    ∃ front, cs = front ++ trim cs ∧ ∀ c ∈ front, isBlank c := by
  obtain ⟨c, hc, hsolid⟩ := h
  obtain ⟨ds, rfl⟩ := List.getLast?_eq_some_iff.1 hc
  have hlast : trimEnd (trimStart (ds ++ [c])) = trimStart (ds ++ [c]) := by
    refine List.rdropWhile_eq_self_iff.2 fun hne => ?_
    have hsuffix : trimStart (ds ++ [c]) <:+ ds ++ [c] := List.dropWhile_suffix isBlank
    rw [hsuffix.getLast hne, List.getLast_append_singleton, hsolid]
    exact Bool.false_ne_true
  refine ⟨(ds ++ [c]).takeWhile isBlank, ?_, fun d hd => List.mem_takeWhile_imp hd⟩
  rw [trim, hlast]
  exact List.takeWhile_append_dropWhile.symm

/-- What a text begins with stays, and the rest is trimmed at its end. -/
theorem trim_cons_of_not_isBlank {c : Char} (h : isBlank c = false) (cs : List Char) :
    trim (c :: cs) = c :: trimEnd cs := by
  rw [trim, trimStart_cons_of_not_isBlank h, trimEnd_eq_rdropWhile, trimEnd_eq_rdropWhile,
    rdropWhile_cons_neg h]

/-! ## Strings -/

theorem trimmed_trimmed (s : String) : trimmed (trimmed s) = trimmed s := by
  rw [trimmed, toList_trimmed, trim_trim]
  rfl

/-- Trimming and what it takes away make up the whole. -/
theorem trimmedEnd_append_blankEnd (s : String) : trimmedEnd s ++ blankEnd s = s := by
  rw [trimmedEnd, blankEnd, ← String.ofList_append, trimEnd_eq_rdropWhile,
    List.rdropWhile_append_rtakeWhile, String.ofList_toList]

theorem exists_of_endsSolid {s : String} (h : endsSolid s) :
    ∃ cs c, s.toList = cs ++ [c] ∧ isBlank c = false := by
  obtain ⟨c, hc, hb⟩ := (Option.any_eq_true _ _).1 h
  obtain ⟨cs, hcs⟩ := List.getLast?_eq_some_iff.1 hc
  exact ⟨cs, c, hcs, by simpa using hb⟩

theorem endsSolid_append (s : String) {t : String} (h : endsSolid t) : endsSolid (s ++ t) := by
  obtain ⟨cs, c, ht, hc⟩ := exists_of_endsSolid h
  rw [endsSolid, String.toList_append, ht, ← List.append_assoc, List.getLast?_concat]
  simp [hc]

/-- Trimming takes nothing away exactly from the texts that do not end in white space. -/
theorem blankEnd_eq_empty_iff {s : String} : blankEnd s = "" ↔ endsBlank s = false := by
  rw [blankEnd, String.ofList_eq_empty_iff, endsBlank]
  rcases List.eq_nil_or_concat s.toList with hs | ⟨cs, c, hs⟩
  · simp [hs]
  · rw [hs, List.concat_eq_append, List.rtakeWhile_concat, List.getLast?_concat]
    cases hc : isBlank c <;> simp [hc]

theorem blankEnd_of_endsSolid {s : String} (h : endsSolid s) : blankEnd s = "" := by
  rw [blankEnd_eq_empty_iff, endsBlank]
  obtain ⟨cs, c, hs, hc⟩ := exists_of_endsSolid h
  simp [hs, hc]

/-- A newline at the end is taken away, with the white space before it. -/
theorem blankEnd_append_newline (s : String) : blankEnd (s ++ "\n") = blankEnd s ++ "\n" := by
  rw [blankEnd, String.toList_append, show "\n".toList = ['\n'] from rfl,
    List.rtakeWhile_concat_pos _ _ _ (by decide), String.ofList_append]
  rfl

theorem endsSolid_trimmed {s : String} (h : trimmed s ≠ "") : endsSolid (trimmed s) := by
  have hne : trim s.toList ≠ [] := fun ht => h (by rw [trimmed, ht])
  have hlast := List.rdropWhile_last_not isBlank (trimStart s.toList) hne
  rw [endsSolid, toList_trimmed, List.getLast?_eq_some_getLast hne, Option.any_some,
    Bool.not_eq_true', ← Bool.not_eq_true]
  exact hlast

end IdlModel.Text

import IdlModel.Text.Lines

/-!
# Cutting and joining

Cutting a text at its newlines is core's `List.splitOn`, and joining is its inverse: the pieces of
lines that were joined are these lines, as long as none of them holds a newline
(`pieces_joinLines`). Of two texts put together the pieces are theirs, joined where they meet
(`pieces_append`). The lines of a text come from its pieces, all but the last of which have been
ended by a newline (`closeLines_concat`).
-/

namespace IdlModel.Text

theorem pieces_eq_splitOn (cs : List Char) : pieces cs = cs.splitOn '\n' := by
  induction cs with
  | nil => rw [pieces, List.splitOn_nil]
  | cons c cs ih =>
    rw [pieces, List.splitOn_cons_eq_if_modifyHead, ih]
    simp only [beq_iff_eq]

theorem pieces_joinLines {ls : List (List Char)} (hne : ls ≠ []) (h : ∀ l ∈ ls, '\n' ∉ l) :
    pieces (joinLines ls) = ls := by
  rw [pieces_eq_splitOn]
  exact List.splitOn_intercalate '\n' h hne

/-- No newline is left in what stands between newlines. -/
theorem newline_not_mem_of_mem_pieces {cs l : List Char} (h : l ∈ pieces cs) : '\n' ∉ l := by
  induction cs generalizing l with
  | nil => simp_all [pieces]
  | cons c cs ih =>
    rw [pieces] at h
    split at h
    · rcases List.mem_cons.1 h with rfl | h
      · exact List.not_mem_nil
      · exact ih h
    · next hc =>
      obtain ⟨piece, rest, hpieces⟩ := List.exists_cons_of_ne_nil (pieces_ne_nil cs)
      rw [hpieces, List.modifyHead_cons] at h
      rw [hpieces] at ih
      rcases List.mem_cons.1 h with rfl | h
      · exact List.not_mem_cons_of_ne_of_not_mem (Ne.symm hc) (ih List.mem_cons_self)
      · exact ih (List.mem_cons_of_mem _ h)

/-- Lines that are ended by newlines, and something behind them. -/
theorem joinLines_concat (ls : List (List Char)) (last : List Char) :
    joinLines (ls ++ [last]) = ls.flatMap (· ++ ['\n']) ++ last := by
  induction ls with
  | nil => exact List.intercalate_singleton
  | cons l ls ih =>
    rw [List.cons_append, joinLines, List.intercalate_cons_of_ne_nil (by simp), ← joinLines, ih,
      List.flatMap_cons, List.append_assoc (l ++ _)]

/-- Texts put together share the line at which they meet. -/
theorem joinLines_append_joinLines (ls : List (List Char)) (l m : List Char)
    (ms : List (List Char)) :
    joinLines (ls ++ [l]) ++ joinLines (m :: ms) = joinLines (ls ++ (l ++ m) :: ms) := by
  induction ls with
  | nil => cases ms <;> simp [joinLines, List.intercalate_cons_cons]
  | cons k ls ih =>
    rw [List.cons_append, List.cons_append, joinLines, List.intercalate_cons_of_ne_nil (by simp),
      ← joinLines, List.append_assoc, ih, joinLines, joinLines,
      List.intercalate_cons_of_ne_nil (by simp)]

/-- Lines left out leave out their text. -/
theorem joinLines_sublist {ls ms : List (List Char)} (h : ls.Sublist ms) :
    (joinLines ls).Sublist (joinLines ms) := by
  induction h with
  | slnil => exact List.Sublist.refl _
  | @cons ls ms m _ ih =>
    cases ms with
    | nil =>
      obtain rfl := List.sublist_nil.1 ‹ls.Sublist []›
      exact List.nil_sublist _
    | cons n ms =>
      rw [joinLines, joinLines, List.intercalate_cons_cons]
      exact ih.trans (List.sublist_append_right _ _)
  | @cons_cons ls ms l hsub ih =>
    cases ms with
    | nil =>
      obtain rfl := List.sublist_nil.1 hsub
      exact List.Sublist.refl _
    | cons n ms =>
      rw [joinLines, joinLines, List.intercalate_cons_cons]
      cases ls with
      | nil =>
        rw [List.intercalate_singleton, List.append_assoc]
        exact List.sublist_append_left _ _
      | cons k ls =>
        rw [List.intercalate_cons_cons]
        exact (List.Sublist.refl _).append ih

/-- Lines cut down cut down their text. -/
theorem joinLines_map_sublist {f : List Char → List Char} (h : ∀ l, (f l).Sublist l)
    (ls : List (List Char)) : (joinLines (ls.map f)).Sublist (joinLines ls) := by
  induction ls with
  | nil => exact List.Sublist.refl _
  | cons l ls ih =>
    cases ls with
    | nil => simpa [joinLines] using h l
    | cons m ls =>
      rw [List.map_cons, List.map_cons, joinLines, joinLines, List.intercalate_cons_cons,
        List.intercalate_cons_cons]
      exact ((h l).append (List.Sublist.refl _)).append ih

/-- Each piece of a text is part of it. -/
theorem sublist_of_mem_pieces {cs l : List Char} (h : l ∈ pieces cs) : l.Sublist cs := by
  have hjoin := joinLines_sublist (List.singleton_sublist.2 h)
  rwa [joinLines_pieces, joinLines, List.intercalate_singleton] at hjoin

theorem exists_pieces_eq_cons (cs : List Char) : ∃ m ms, pieces cs = m :: ms :=
  List.exists_cons_of_ne_nil (pieces_ne_nil cs)

theorem exists_pieces_eq_concat (cs : List Char) : ∃ ls l, pieces cs = ls ++ [l] :=
  ⟨_, _, (List.dropLast_concat_getLast (pieces_ne_nil cs)).symm⟩

/-- A text begins as its first line does, or with the newline behind it. -/
theorem head?_of_pieces {cs m : List Char} {ms : List (List Char)} (h : pieces cs = m :: ms) :
    cs.head? = m.head?.or (if ms = [] then none else some '\n') := by
  rw [← joinLines_pieces cs, h]
  cases ms with
  | nil => simp [joinLines]
  | cons n ms => simp [joinLines, List.intercalate_cons_cons, List.head?_append]

/-- A text ends as its last line does, or with the newline before it. -/
theorem getLast?_of_pieces {cs l : List Char} {ls : List (List Char)} (h : pieces cs = ls ++ [l]) :
    cs.getLast? = l.getLast?.or (if ls = [] then none else some '\n') := by
  rw [← joinLines_pieces cs, h, joinLines_concat, List.getLast?_append]
  obtain rfl | ⟨ks, k, rfl⟩ := List.eq_nil_or_concat ls
  · rfl
  · simp

/-- The pieces of two texts put together, the last of one being joined to the first of the other. -/
theorem pieces_append {cs ds : List Char} {ls ms : List (List Char)} {l m : List Char}
    (hcs : pieces cs = ls ++ [l]) (hds : pieces ds = m :: ms) :
    pieces (cs ++ ds) = ls ++ (l ++ m) :: ms := by
  have hnewline : ∀ k ∈ ls ++ (l ++ m) :: ms, '\n' ∉ k := by
    have hleft : ∀ k ∈ ls ++ [l], '\n' ∉ k :=
      fun k hk => newline_not_mem_of_mem_pieces (hcs ▸ hk)
    have hright : ∀ k ∈ m :: ms, '\n' ∉ k :=
      fun k hk => newline_not_mem_of_mem_pieces (hds ▸ hk)
    simp only [List.mem_append, List.mem_cons, List.not_mem_nil, or_false] at hleft hright ⊢
    rintro k (hk | rfl | hk)
    · exact hleft k (.inl hk)
    · rw [List.mem_append, not_or]
      exact ⟨hleft l (.inr rfl), hright m (.inl rfl)⟩
    · exact hright k (.inr hk)
  rw [← pieces_joinLines (by simp) hnewline, ← joinLines_append_joinLines, ← hcs, ← hds,
    joinLines_pieces, joinLines_pieces]

/-- A text without newlines is one line. -/
theorem pieces_of_newline_not_mem {cs : List Char} (h : '\n' ∉ cs) : pieces cs = [cs] := by
  have hjoin : joinLines [cs] = cs := List.intercalate_singleton
  calc pieces cs = pieces (joinLines [cs]) := by rw [hjoin]
    _ = [cs] := pieces_joinLines (List.cons_ne_nil _ _) (List.forall_mem_singleton.2 h)

theorem dropReturn_sublist (cs : List Char) : (dropReturn cs).Sublist cs := by
  rw [dropReturn]
  split
  · exact List.dropLast_sublist cs
  · exact List.Sublist.refl cs

theorem closeLines_concat (ls : List (List Char)) (last : List Char) :
    closeLines (ls ++ [last]) = ls.map dropReturn ++ if last = [] then [] else [last] := by
  induction ls with
  | nil => rfl
  | cons l ls ih =>
    obtain ⟨next, rest, hnext⟩ := List.exists_cons_of_ne_nil (List.concat_ne_nil last ls)
    rw [List.cons_append, hnext, closeLines, ← hnext, ih]
    rfl

/-- No newline is left in a line. -/
theorem newline_not_mem_of_mem_lines {cs l : List Char} (h : l ∈ lines cs) : '\n' ∉ l := by
  obtain ⟨ls, last, hpieces⟩ := exists_pieces_eq_concat cs
  have hpiece : ∀ p ∈ ls ++ [last], '\n' ∉ p := fun p hp =>
    newline_not_mem_of_mem_pieces (hpieces ▸ hp)
  rw [lines, hpieces, closeLines_concat, List.mem_append] at h
  rcases h with h | h
  · obtain ⟨p, hp, rfl⟩ := List.mem_map.1 h
    have hline := hpiece p (List.mem_append_left _ hp)
    exact fun hmem => hline ((dropReturn_sublist p).subset hmem)
  · have hlast : l = last := by
      split at h
      · cases h
      · exact List.mem_singleton.1 h
    rw [hlast]
    exact hpiece last (List.mem_append_right _ (List.mem_singleton_self last))

end IdlModel.Text

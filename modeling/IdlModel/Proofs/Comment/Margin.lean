import IdlModel.Proofs.Comment.ByLine

/-!
# White space around the lines of a comment

A comment comes to the same text however its lines are indented, whatever white space stands behind
them, and whether they end in a newline or in a carriage return and a newline
(`normalize_withMargins`). Two texts with the same trimmed lines come to the same
(`normalize_congr`), and a `Margin` around a line is trimmed away.
-/

namespace IdlModel.Comment

open IdlModel.Text

/-- White space on either side of a line. -/
structure Margin where
  left : List Char
  right : List Char
  blank : ∀ c ∈ left ++ right, isBlank c ∧ c ≠ '\n'

/-- A line with white space on either side. -/
def Margin.around (margin : Margin) (l : List Char) : List Char :=
  margin.left ++ l ++ margin.right

/-- A text with more white space around its lines, each line having a margin of its own. -/
def withMargins (margin : Nat → Margin) (text : String) : String :=
  String.ofList (joinLines ((pieces text.toList).mapIdx fun i l => (margin i).around l))

/-- A text with a carriage return before each newline. -/
def withReturns (text : String) : String :=
  String.ofList (text.toList.flatMap fun c => if c = '\n' then ['\r', '\n'] else [c])

/-- What a comment comes to depends on nothing but its trimmed lines. -/
theorem normalize_congr {raw raw' : String} (h : tidyLines raw.toList = tidyLines raw'.toList) :
    normalize raw = normalize raw' := by
  rw [normalize, normalize, normalizeChars, normalizeChars, normalLines_eq_ofTidyLines, h,
    ← normalLines_eq_ofTidyLines]

/-! ## Margins -/

namespace Margin

variable (margin : Margin)

theorem trim_around (l : List Char) : trim (margin.around l) = trim l := by
  have hleft : ∀ c ∈ margin.left, isBlank c :=
    fun c hc => (margin.blank c (List.mem_append_left _ hc)).1
  have hright : ∀ c ∈ margin.right, isBlank c :=
    fun c hc => (margin.blank c (List.mem_append_right _ hc)).1
  rw [around, trim_append_right hright, trim_append_left hleft]

theorem newline_not_mem_around {l : List Char} (h : '\n' ∉ l) : '\n' ∉ margin.around l := by
  rw [around, List.mem_append, List.mem_append]
  rintro ((hleft | hl) | hright)
  · exact (margin.blank _ (List.mem_append_left _ hleft)).2 rfl
  · exact h hl
  · exact (margin.blank _ (List.mem_append_right _ hright)).2 rfl

end Margin

theorem pieces_withMargins (margin : Nat → Margin) (text : String) :
    pieces (withMargins margin text).toList =
      (pieces text.toList).mapIdx fun i l => (margin i).around l := by
  rw [withMargins, String.toList_ofList, pieces_joinLines]
  · simpa using pieces_ne_nil text.toList
  · intro l hl
    obtain ⟨i, hi, rfl⟩ := List.mem_mapIdx.1 hl
    exact (margin i).newline_not_mem_around
      (newline_not_mem_of_mem_pieces (List.getElem_mem hi))

theorem tidyLines_withMargins (margin : Nat → Margin) (text : String) :
    tidyLines (withMargins margin text).toList = tidyLines text.toList := by
  rw [tidyLines, tidyLines, pieces_withMargins]
  refine List.ext_getElem (by simp) fun i hi hi' => ?_
  rw [List.getElem_map, List.getElem_map, List.getElem_mapIdx, Margin.trim_around]

/-! ## Line ends -/

/-- Each line but the last ends in a carriage return. -/
theorem pieces_withReturns {text : String} {ls : List (List Char)} {l : List Char}
    (h : pieces text.toList = ls ++ [l]) :
    pieces (withReturns text).toList = ls.map (· ++ ['\r']) ++ [l] := by
  have hplain {k : List Char} (hk : '\n' ∉ k) :
      k.flatMap (fun c => if c = '\n' then ['\r', '\n'] else [c]) = k := by
    have hsame : ∀ c ∈ k, (if c = '\n' then ['\r', '\n'] else [c]) = [c] := by
      intro c hc
      rw [if_neg]
      rintro rfl
      exact hk hc
    rw [List.flatMap_congr hsame, List.flatMap_singleton']
  have hnewline : ∀ k ∈ ls ++ [l], '\n' ∉ k :=
    fun k hk => newline_not_mem_of_mem_pieces (h ▸ hk)
  rw [List.forall_mem_append, List.forall_mem_singleton] at hnewline
  have hjoin : (withReturns text).toList = joinLines (ls.map (· ++ ['\r']) ++ [l]) := by
    rw [withReturns, String.toList_ofList, ← joinLines_pieces text.toList, h, joinLines_concat,
      joinLines_concat, List.flatMap_append, hplain hnewline.2, List.flatMap_map,
      List.flatMap_assoc]
    congr 1
    refine List.flatMap_congr fun k hk => ?_
    rw [List.flatMap_append, hplain (hnewline.1 k hk), List.append_assoc]
    rfl
  rw [hjoin, pieces_joinLines (by simp)]
  rw [List.forall_mem_append, List.forall_mem_singleton, List.forall_mem_map]
  refine ⟨fun k hk => ?_, hnewline.2⟩
  rw [List.mem_append, not_or]
  exact ⟨hnewline.1 k hk, by decide⟩

theorem tidyLines_withReturns (text : String) :
    tidyLines (withReturns text).toList = tidyLines text.toList := by
  obtain ⟨ls, l, hpieces⟩ := exists_pieces_eq_concat text.toList
  have hreturn (k : List Char) : trim (k ++ ['\r']) = trim k :=
    trim_append_right (List.forall_mem_singleton.2 rfl) k
  rw [tidyLines, tidyLines, pieces_withReturns hpieces, hpieces, List.map_append, List.map_map,
    List.map_append]
  congr 1
  exact List.map_congr_left fun k _ => hreturn k

/-- White space at the beginning and at the end of the lines makes no difference to what a comment
comes to, and neither does a carriage return before each newline. -/
theorem normalize_withMargins (raw : String) :
    (∀ margin, normalize (withMargins margin raw) = normalize raw) ∧
      normalize (withReturns raw) = normalize raw :=
  ⟨fun margin => normalize_congr (tidyLines_withMargins margin raw),
    normalize_congr (tidyLines_withReturns raw)⟩

/-- A block moved to the right, with carriage returns. -/
example : withMargins (fun _ => ⟨['\t'], ['\r'], by simp; decide⟩) "/**\n * a\n */" =
    "\t/**\r\n\t * a\r\n\t */\r" := by decide +kernel

end IdlModel.Comment

import IdlModel.Comment.Normalize
import IdlModel.Proofs.Text.Pieces
import Mathlib.Data.List.ModifyLast

/-!
# The delimiters of a comment

`Opened` and `Closed` say what is left of a text without its opening or closing delimiter, and
`dropOpening` and `dropClosing` find it (`opened_iff`, `closed_iff`). A delimiter stands at one end
of a text and within one line: what stands at the other side of it does not matter
(`Opened.append`, `Closed.append`), so taking the delimiters off is a matter of the first and of the
last line (`pieces_body`).
-/

namespace IdlModel.Comment

open IdlModel.Text

/-- A text, and the text without an opening delimiter, the longer one if it may be either. -/
inductive Opened : List Char → List Char → Prop where
  | doc (b : List Char) : Opened ('/' :: '*' :: '*' :: b) b
  | plain {b : List Char} (h : '*' ∉ b.head?) : Opened ('/' :: '*' :: b) b
  | bare {b : List Char} (h : ¬ ['/', '*'] <+: b) : Opened b b

/-- A text, and the text without a closing delimiter. -/
inductive Closed : List Char → List Char → Prop where
  | closed (b : List Char) : Closed (b ++ ['*', '/']) b
  | bare {b : List Char} (h : ¬ ['*', '/'] <:+ b) : Closed b b

theorem opened_dropOpening (t : List Char) : Opened t (dropOpening t) := by
  unfold dropOpening
  split
  · exact .doc _
  · next rest hlong =>
    refine .plain fun hstar => ?_
    obtain ⟨rest', rfl⟩ := List.head?_eq_some_iff.1 hstar
    exact hlong rest' rfl
  · next hshort =>
    refine .bare fun hopened => ?_
    obtain ⟨rest, hrest⟩ := hopened
    exact hshort rest hrest.symm

theorem Opened.dropOpening_eq {t b : List Char} (h : Opened t b) : dropOpening t = b := by
  cases h with
  | doc => rfl
  | plain hstar =>
    unfold dropOpening
    split
    · next heq =>
      cases heq
      exact absurd rfl hstar
    · next heq =>
      cases heq
      rfl
    · next hshort => exact absurd rfl (hshort b)
  | bare hopened =>
    unfold dropOpening
    split
    · exact absurd (List.prefix_append ['/', '*'] _) hopened
    · exact absurd (List.prefix_append ['/', '*'] _) hopened
    · rfl

theorem opened_iff {t b : List Char} : Opened t b ↔ dropOpening t = b :=
  ⟨Opened.dropOpening_eq, fun h => h ▸ opened_dropOpening t⟩

theorem closed_iff {t b : List Char} : Closed t b ↔ dropClosing t = b := by
  constructor
  · rintro (_ | hclosed)
    · have hsuffix : ['*', '/'].isSuffixOf (b ++ ['*', '/']) :=
        List.isSuffixOf_iff_suffix.2 (List.suffix_append _ _)
      rw [dropClosing, if_pos hsuffix, List.length_append]
      exact List.take_left
    · exact if_neg fun hsuffix => hclosed (List.isSuffixOf_iff_suffix.1 hsuffix)
  · rintro rfl
    rw [dropClosing]
    split
    · next hsuffix =>
      obtain ⟨b, rfl⟩ := List.isSuffixOf_iff_suffix.1 hsuffix
      rw [List.length_append, show (b.length + ['*', '/'].length - 2) = b.length from rfl,
        List.take_left]
      exact .closed b
    · next hsuffix => exact .bare fun hclosed => hsuffix (List.isSuffixOf_iff_suffix.2 hclosed)

theorem Opened.suffix {t b : List Char} (h : Opened t b) : b <:+ t := by
  cases h with
  | doc => exact List.suffix_append ['/', '*', '*'] _
  | plain => exact List.suffix_append ['/', '*'] _
  | bare => exact List.suffix_refl _

theorem Closed.isPrefix {t b : List Char} (h : Closed t b) : b <+: t := by
  cases h with
  | closed => exact List.prefix_append _ _
  | bare => exact List.prefix_refl _

/-- A text with a delimiter gets shorter. -/
theorem Opened.length_lt {t b : List Char} (h : Opened t b) (hopened : ['/', '*'] <+: t) :
    b.length < t.length := by
  cases h with
  | doc | plain =>
    simp only [List.length_cons]
    omega
  | bare hbare => exact absurd hopened hbare

theorem Closed.length_lt {t b : List Char} (h : Closed t b) (hclosed : ['*', '/'] <:+ t) :
    b.length < t.length := by
  cases h with
  | closed =>
    simp only [List.length_append, List.length_cons]
    omega
  | bare hbare => exact absurd hclosed hbare

/-! ## One end of a text -/

/-- Two characters that a text begins with stand there whatever comes behind it. -/
theorem pair_isPrefix_of_append {a b : Char} {cs ds : List Char}
    (hds : ∀ d ∈ ds.head?, d ≠ a ∧ d ≠ b) (h : [a, b] <+: cs ++ ds) : [a, b] <+: cs := by
  have hhead {d : Char} {ds' : List Char} (hd : d :: ds' = ds) : d ≠ a ∧ d ≠ b :=
    hds d (by rw [← hd]; rfl)
  obtain ⟨rest, hrest⟩ := h
  obtain _ | ⟨c, _ | ⟨c', cs⟩⟩ := cs
  · exact absurd rfl (hhead hrest).1
  · obtain ⟨-, htail⟩ := List.cons.inj hrest
    exact absurd rfl (hhead htail).2
  · obtain ⟨rfl, htail⟩ := List.cons.inj hrest
    obtain ⟨rfl, -⟩ := List.cons.inj htail
    exact List.prefix_append [a, b] cs

/-- The opening delimiter is found whatever stands behind the text. -/
theorem Opened.append {t b ds : List Char} (h : Opened t b)
    (hds : ∀ d ∈ ds.head?, d ≠ '/' ∧ d ≠ '*') : Opened (t ++ ds) (b ++ ds) := by
  cases h with
  | doc => exact .doc (b ++ ds)
  | plain hstar =>
    refine .plain ?_
    show '*' ∉ (b ++ ds).head?
    rw [List.head?_append]
    cases b with
    | nil => exact fun hmem => (hds _ hmem).2 rfl
    | cons c b => exact hstar
  | bare hopened => exact .bare fun hprefix => hopened (pair_isPrefix_of_append hds hprefix)

/-- The closing delimiter is found whatever stands before the text. -/
theorem Closed.append {t b cs : List Char} (h : Closed t b)
    (hcs : ∀ c ∈ cs.getLast?, c ≠ '/' ∧ c ≠ '*') : Closed (cs ++ t) (cs ++ b) := by
  cases h with
  | closed =>
    rw [← List.append_assoc]
    exact .closed (cs ++ b)
  | bare hclosed =>
    refine .bare fun hsuffix => hclosed ?_
    have hhead : ∀ c ∈ cs.reverse.head?, c ≠ '/' ∧ c ≠ '*' := by rwa [List.head?_reverse]
    rw [← List.reverse_prefix] at hsuffix ⊢
    rw [List.reverse_append] at hsuffix
    exact pair_isPrefix_of_append hhead hsuffix

theorem dropOpening_append (cs : List Char) {ds : List Char}
    (h : ∀ d ∈ ds.head?, d ≠ '/' ∧ d ≠ '*') : dropOpening (cs ++ ds) = dropOpening cs ++ ds :=
  ((opened_dropOpening cs).append h).dropOpening_eq

theorem dropClosing_append {cs : List Char} (h : ∀ c ∈ cs.getLast?, c ≠ '/' ∧ c ≠ '*')
    (ds : List Char) : dropClosing (cs ++ ds) = cs ++ dropClosing ds :=
  closed_iff.1 ((closed_iff.2 rfl).append h)

/-! ## One line of a text -/

/-- The opening delimiter stands in the first line. -/
theorem pieces_dropOpening (cs : List Char) :
    pieces (dropOpening cs) = (pieces cs).modifyHead dropOpening := by
  obtain ⟨m, ms, hpieces⟩ := exists_pieces_eq_cons cs
  have hjoin : dropOpening cs = joinLines (dropOpening m :: ms) := by
    rw [← joinLines_pieces cs, hpieces]
    cases ms with
    | nil => rw [joinLines, joinLines, List.intercalate_singleton, List.intercalate_singleton]
    | cons n ms =>
      rw [joinLines, joinLines, List.intercalate_cons_cons, List.intercalate_cons_cons,
        List.append_assoc, List.append_assoc]
      exact dropOpening_append m (by simp)
  have hnewline : ∀ l ∈ dropOpening m :: ms, '\n' ∉ l := by
    have hmem : ∀ l ∈ m :: ms, '\n' ∉ l :=
      fun l hl => newline_not_mem_of_mem_pieces (hpieces ▸ hl)
    rw [List.forall_mem_cons] at hmem ⊢
    exact ⟨fun hm => hmem.1 ((opened_dropOpening m).suffix.subset hm), hmem.2⟩
  rw [hjoin, pieces_joinLines (List.cons_ne_nil _ _) hnewline, hpieces, List.modifyHead_cons]

/-- The closing delimiter stands in the last line. -/
theorem pieces_dropClosing (cs : List Char) :
    pieces (dropClosing cs) = (pieces cs).modifyLast dropClosing := by
  obtain ⟨ls, l, hpieces⟩ := exists_pieces_eq_concat cs
  have hjoin : dropClosing cs = joinLines (ls ++ [dropClosing l]) := by
    rw [← joinLines_pieces cs, hpieces, joinLines_concat, joinLines_concat]
    refine dropClosing_append ?_ l
    obtain rfl | ⟨ks, k, rfl⟩ := List.eq_nil_or_concat ls
    · simp
    · simp
  have hnewline : ∀ k ∈ ls ++ [dropClosing l], '\n' ∉ k := by
    have hmem : ∀ k ∈ ls ++ [l], '\n' ∉ k :=
      fun k hk => newline_not_mem_of_mem_pieces (hpieces ▸ hk)
    rw [List.forall_mem_append, List.forall_mem_singleton] at hmem ⊢
    exact ⟨hmem.1, fun hl => hmem.2 ((closed_iff.2 rfl).isPrefix.subset hl)⟩
  rw [hjoin, pieces_joinLines (by simp) hnewline, hpieces, List.modifyLast_concat]

theorem pieces_body (raw : List Char) :
    pieces (body raw) = ((pieces (trim raw)).modifyLast dropClosing).modifyHead dropOpening := by
  rw [body, pieces_dropOpening, pieces_dropClosing]

end IdlModel.Comment

import Mathlib.Data.List.DropRight

/-!
# Taking elements off both ends

`stripEnds p` takes the elements with `p` off both ends of a list. This is what trimming does with
the characters of a line, and what comments do with their blank lines. It is a stretch of the list
between elements with `p` (`exists_stripEnds`), and such elements may be added at either end without
changing it (`stripEnds_append_left`, `stripEnds_append_right`).
-/

namespace IdlModel.Text

variable {α β : Type} (p : α → Bool)

/-- The list without the elements with `p` at either end: from the first to the last element
without `p`. -/
def stripEnds (xs : List α) : List α :=
  (xs.dropWhile p).rdropWhile p

variable {p}

theorem stripEnds_cons_pos {x : α} (h : p x) (xs : List α) :
    stripEnds p (x :: xs) = stripEnds p xs := by
  rw [stripEnds, List.dropWhile_cons_of_pos h]
  rfl

theorem stripEnds_cons_neg {x : α} (h : p x = false) (xs : List α) :
    stripEnds p (x :: xs) = (x :: xs).rdropWhile p := by
  have hx : ¬ p x = true := by simp [h]
  rw [stripEnds, List.dropWhile_cons_of_neg hx]

theorem rdropWhile_append_of_forall (xs : List α) {back : List α} (h : ∀ x ∈ back, p x) :
    (xs ++ back).rdropWhile p = xs.rdropWhile p := by
  have hback : ∀ x ∈ back.reverse, p x := fun x hx => h x (List.mem_reverse.1 hx)
  rw [List.rdropWhile, List.reverse_append, List.dropWhile_append_of_pos hback]
  rfl

/-- An element without `p` stays, and nothing before it is taken off at the end. -/
theorem rdropWhile_cons_neg {x : α} (h : p x = false) (xs : List α) :
    (x :: xs).rdropWhile p = x :: xs.rdropWhile p := by
  have hall : xs.rdropWhile p ++ xs.rtakeWhile p = xs := List.rdropWhile_append_rtakeWhile
  have htaken : ∀ y ∈ xs.rtakeWhile p, p y := fun y hy => List.mem_rtakeWhile_imp hy
  have hkept : (x :: xs.rdropWhile p).rdropWhile p = x :: xs.rdropWhile p := by
    refine List.rdropWhile_eq_self_iff.2 fun hne => ?_
    by_cases hnil : xs.rdropWhile p = []
    · simp [hnil, h]
    · rw [List.getLast_cons hnil]
      exact List.rdropWhile_last_not p xs hnil
  calc (x :: xs).rdropWhile p
      = ((x :: xs.rdropWhile p) ++ xs.rtakeWhile p).rdropWhile p := by
        rw [List.cons_append, hall]
    _ = (x :: xs.rdropWhile p).rdropWhile p := rdropWhile_append_of_forall _ htaken
    _ = x :: xs.rdropWhile p := hkept

/-- Elements with `p` before a list do not count. -/
theorem stripEnds_append_left {front : List α} (h : ∀ x ∈ front, p x) (xs : List α) :
    stripEnds p (front ++ xs) = stripEnds p xs := by
  rw [stripEnds, List.dropWhile_append_of_pos h]
  rfl

/-- Elements with `p` behind a list do not count. -/
theorem stripEnds_append_right {back : List α} (h : ∀ x ∈ back, p x) (xs : List α) :
    stripEnds p (xs ++ back) = stripEnds p xs := by
  rw [stripEnds, List.dropWhile_append]
  split
  · next hnil =>
    have hempty : back.dropWhile p = [] := List.dropWhile_eq_nil_iff.2 h
    rw [hempty, stripEnds, List.isEmpty_iff.1 hnil]
  · exact rdropWhile_append_of_forall _ h

/-- What is taken off has `p`. -/
theorem exists_stripEnds (p : α → Bool) (xs : List α) : ∃ front back,
    xs = front ++ stripEnds p xs ++ back ∧ (∀ x ∈ front, p x) ∧ ∀ x ∈ back, p x := by
  refine ⟨xs.takeWhile p, (xs.dropWhile p).rtakeWhile p, ?_, ?_, ?_⟩
  · rw [List.append_assoc, stripEnds, List.rdropWhile_append_rtakeWhile,
      List.takeWhile_append_dropWhile]
  · exact fun x hx => List.mem_takeWhile_imp hx
  · exact fun x hx => List.mem_rtakeWhile_imp hx

theorem stripEnds_eq_nil_iff {xs : List α} : stripEnds p xs = [] ↔ ∀ x ∈ xs, p x := by
  constructor
  · intro hnil
    obtain ⟨front, back, hxs, hfront, hback⟩ := exists_stripEnds p xs
    rw [hnil, List.append_nil] at hxs
    intro x hx
    rw [hxs] at hx
    exact (List.mem_append.1 hx).elim (hfront x) (hback x)
  · intro h
    have hfront := stripEnds_append_left h []
    rwa [List.append_nil] at hfront

theorem stripEnds_sublist (p : α → Bool) (xs : List α) : (stripEnds p xs).Sublist xs :=
  (List.rdropWhile_prefix p _).sublist.trans (List.dropWhile_sublist p)

theorem stripEnds_map (p : β → Bool) (f : α → β) (xs : List α) :
    stripEnds p (xs.map f) = (stripEnds (p ∘ f) xs).map f := by
  simp only [stripEnds, List.rdropWhile, List.dropWhile_map, ← List.map_reverse]

/-- Elements that yield nothing may be taken off before. -/
theorem flatMap_stripEnds {f : α → List β} (h : ∀ x, p x → f x = []) (xs : List α) :
    (stripEnds p xs).flatMap f = xs.flatMap f := by
  obtain ⟨front, back, hxs, hfront, hback⟩ := exists_stripEnds p xs
  have hnone : ∀ ys : List α, (∀ y ∈ ys, p y) → ys.flatMap f = [] :=
    fun ys hys => List.flatMap_eq_nil_iff.2 fun y hy => h y (hys y hy)
  conv => rhs; rw [hxs]
  rw [List.flatMap_append, List.flatMap_append, hnone front hfront, hnone back hback,
    List.append_nil, List.nil_append]

/-- What is left holds all elements without `p`. -/
theorem filter_stripEnds (p : α → Bool) (xs : List α) :
    (stripEnds p xs).filter (!p ·) = xs.filter (!p ·) := by
  obtain ⟨front, back, hxs, hfront, hback⟩ := exists_stripEnds p xs
  have hnone : ∀ ys : List α, (∀ y ∈ ys, p y) → ys.filter (!p ·) = [] :=
    fun ys hys => List.filter_eq_nil_iff.2 fun y hy => by simp [hys y hy]
  conv => rhs; rw [hxs]
  rw [List.filter_append, List.filter_append, hnone front hfront, hnone back hback,
    List.append_nil, List.nil_append]

/-- The end may be dealt with before the beginning. -/
theorem dropWhile_rdropWhile (p : α → Bool) (xs : List α) :
    (xs.rdropWhile p).dropWhile p = stripEnds p xs := by
  have hsplit : xs.rdropWhile p ++ xs.rtakeWhile p = xs := List.rdropWhile_append_rtakeWhile
  have htaken : ∀ x ∈ xs.rtakeWhile p, p x := fun x hx => List.mem_rtakeWhile_imp hx
  have hfirst : stripEnds p xs = stripEnds p (xs.rdropWhile p) := by
    conv => lhs; rw [← hsplit]
    exact stripEnds_append_right htaken _
  rw [hfirst, stripEnds]
  refine (List.rdropWhile_eq_self_iff.2 fun hne => ?_).symm
  rw [(List.dropWhile_suffix p).getLast hne]
  exact List.rdropWhile_last_not p xs _

/-- Nothing is taken off a list that neither begins nor ends in an element with `p`. -/
theorem stripEnds_eq_self_iff {xs : List α} : stripEnds p xs = xs ↔
    (∀ x ∈ xs.head?, p x = false) ∧ ∀ x ∈ xs.getLast?, p x = false := by
  cases xs with
  | nil => simp [stripEnds]
  | cons x xs =>
    by_cases hx : p x = true
    · have hshort : stripEnds p (x :: xs) ≠ x :: xs := by
        rw [stripEnds_cons_pos hx]
        intro heq
        have hlength := (stripEnds_sublist p xs).length_le
        rw [heq, List.length_cons] at hlength
        omega
      simp [hshort, hx]
    · rw [Bool.not_eq_true] at hx
      rw [stripEnds_cons_neg hx, List.rdropWhile_eq_self_iff]
      simp [List.getLast?_eq_some_getLast, hx]

/-- What is left does not begin with an element with `p`. -/
theorem dropWhile_stripEnds (p : α → Bool) (xs : List α) :
    (stripEnds p xs).dropWhile p = stripEnds p xs := by
  cases hxs : xs.dropWhile p with
  | nil => simp [stripEnds, hxs]
  | cons y ys =>
    have hy : p y = false := by
      have hhead := List.head?_dropWhile_not p xs
      rwa [hxs] at hhead
    have hstrip : stripEnds p xs = y :: ys.rdropWhile p := by
      rw [stripEnds, hxs, rdropWhile_cons_neg hy]
    rw [hstrip, List.dropWhile_cons_of_neg (by simp [hy])]

theorem stripEnds_stripEnds (p : α → Bool) (xs : List α) :
    stripEnds p (stripEnds p xs) = stripEnds p xs := by
  rw [stripEnds, dropWhile_stripEnds]
  exact List.rdropWhile_idempotent p (xs.dropWhile p)

end IdlModel.Text

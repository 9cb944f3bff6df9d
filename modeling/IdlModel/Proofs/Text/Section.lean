import Mathlib.Data.List.Basic

/-!
# Telling parts of a list apart

What is written part by part can be read again if each part ends where the first element comes that
cannot belong to it. `append_inj_of_head?` is the law for one part and what is behind it,
`intercalate_inj` the one for parts with separators between them, and `map_eq_of_sections` the one
for sections: elements of one sort, a head, and elements of another sort.

The elements may be the characters of a line or the lines of a text.
-/

namespace IdlModel.Text

variable {α β L : Type} {p q : L → Prop}

/-- Two lists of elements with `p` are equal if they are equal with something behind them that does
not begin with `p`. -/
theorem append_inj_of_head? {as bs us vs : List L} (has : ∀ a ∈ as, p a) (hbs : ∀ b ∈ bs, p b)
    (hus : ∀ u ∈ us.head?, ¬ p u) (hvs : ∀ v ∈ vs.head?, ¬ p v) (h : as ++ us = bs ++ vs) :
    as = bs ∧ us = vs := by
  induction as generalizing bs with
  | nil =>
    cases bs with
    | nil => exact ⟨rfl, h⟩
    | cons b bs =>
      have hhead : us.head? = some b := by
        rw [List.nil_append] at h
        rw [h]
        rfl
      exact absurd (hbs b List.mem_cons_self) (hus b hhead)
  | cons a as ih =>
    cases bs with
    | nil =>
      have hhead : vs.head? = some a := by
        rw [List.nil_append] at h
        rw [← h]
        rfl
      exact absurd (has a List.mem_cons_self) (hvs a hhead)
    | cons b bs =>
      obtain ⟨rfl, hrest⟩ := List.cons.inj h
      obtain ⟨rfl, hus⟩ := ih (fun x hx => has x (List.mem_cons_of_mem _ hx))
        (fun x hx => hbs x (List.mem_cons_of_mem _ hx)) hrest
      exact ⟨rfl, hus⟩

/-- Something is written as a section: lines with `p`, one line without, and lines with `q`, which
none of those before them has. -/
structure Sectioned (p q : L → Prop) (front : α → List L) (head : α → L) (back : α → List L)
    (a : α) : Prop where
  front : ∀ l ∈ front a, p l ∧ ¬ q l
  head : ¬ p (head a) ∧ ¬ q (head a)
  back : ∀ l ∈ back a, q l

variable {front back : α → List L} {head : α → L}

theorem head?_flatMap_of_sectioned {as : List α} (h : ∀ a ∈ as, Sectioned p q front head back a) :
    ∀ l ∈ (as.flatMap fun a => front a ++ head a :: back a).head?, ¬ q l := by
  intro l hl
  cases as with
  | nil => cases hl
  | cons a as =>
    have ha := h a List.mem_cons_self
    rw [List.flatMap_cons] at hl
    cases hfront : front a with
    | nil =>
      rw [hfront] at hl
      obtain rfl : head a = l := by simpa using hl
      exact ha.head.2
    | cons k ks =>
      rw [hfront] at hl
      obtain rfl : k = l := by simpa using hl
      exact (ha.front k (hfront ▸ List.mem_cons_self)).2

/-- Sections one behind the other can be told apart: what the parts of a section tell is told by
all the lines together. -/
theorem map_eq_of_sections {f : α → β} {as bs : List α}
    (has : ∀ a ∈ as, Sectioned p q front head back a)
    (hbs : ∀ b ∈ bs, Sectioned p q front head back b)
    (hf : ∀ a ∈ as, ∀ b ∈ bs, front a = front b → head a = head b → back a = back b → f a = f b)
    (h : (as.flatMap fun a => front a ++ head a :: back a) =
      bs.flatMap fun b => front b ++ head b :: back b) : as.map f = bs.map f := by
  induction as generalizing bs with
  | nil =>
    cases bs with
    | nil => rfl
    | cons b bs => simp at h
  | cons a as ih =>
    cases bs with
    | nil => simp at h
    | cons b bs =>
      rw [List.forall_mem_cons] at has hbs
      rw [List.flatMap_cons, List.flatMap_cons, List.append_assoc, List.append_assoc,
        List.cons_append, List.cons_append] at h
      obtain ⟨hfront, hrest⟩ := append_inj_of_head? (fun l hl => (has.1.front l hl).1)
        (fun l hl => (hbs.1.front l hl).1) (by simpa using has.1.head.1)
        (by simpa using hbs.1.head.1) h
      obtain ⟨hhead, hrest⟩ := List.cons.inj hrest
      obtain ⟨hback, hrest⟩ := append_inj_of_head? has.1.back hbs.1.back
        (head?_flatMap_of_sectioned has.2) (head?_flatMap_of_sectioned hbs.2) hrest
      have hfirst := hf a List.mem_cons_self b List.mem_cons_self hfront hhead hback
      have hothers := ih has.2 hbs.2
        (fun x hx y hy => hf x (List.mem_cons_of_mem _ hx) y (List.mem_cons_of_mem _ hy)) hrest
      rw [List.map_cons, List.map_cons, hfirst, hothers]

/-- Joined items with one more separator in front are items that each follow a separator. -/
theorem append_intercalate (separator : List L) {as : List (List L)} (hne : as ≠ []) :
    separator ++ separator.intercalate as = as.flatMap (separator ++ ·) := by
  induction as with
  | nil => exact absurd rfl hne
  | cons a as ih =>
    rw [List.flatMap_cons]
    cases as with
    | nil => rw [List.intercalate_singleton, List.flatMap_nil, List.append_nil]
    | cons b bs =>
      rw [List.intercalate_cons_cons, ← ih (List.cons_ne_nil b bs), List.append_assoc,
        List.append_assoc]

/-- Items that do not hold what separates them can be told apart. -/
theorem intercalate_inj {c d : L} (hcd : d ≠ c) {as bs : List (List L)} (has : ∀ a ∈ as, c ∉ a)
    (hbs : ∀ b ∈ bs, c ∉ b) (hne : as ≠ []) (hne' : bs ≠ [])
    (h : [c, d].intercalate as = [c, d].intercalate bs) : as = bs := by
  have hsections : ∀ xs : List (List L), (∀ x ∈ xs, c ∉ x) → ∀ x ∈ xs,
      Sectioned (fun _ => False) (· ≠ c) (fun _ => []) (fun _ => c) (d :: ·) x := by
    intro xs hxs x hx
    refine ⟨nofun, by simp, List.forall_mem_cons.2 ⟨hcd, fun l hl hlc => ?_⟩⟩
    rw [hlc] at hl
    exact hxs x hx hl
  have hflat : as.flatMap ([c, d] ++ ·) = bs.flatMap ([c, d] ++ ·) := by
    rw [← append_intercalate _ hne, ← append_intercalate _ hne', h]
  have hmap := map_eq_of_sections (f := id) (hsections as has) (hsections bs hbs)
    (fun a _ b _ _ _ hback => (List.cons.inj hback).2) hflat
  rwa [List.map_id, List.map_id] at hmap

end IdlModel.Text

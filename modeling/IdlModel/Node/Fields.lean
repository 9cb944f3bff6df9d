/-!
# Named fields

The named texts of a syntax tree node. Every name occurs once, and the entries are kept in the
order of their names, so two collections are equal exactly when they give every name the same
text.
-/

namespace IdlModel

/-- Texts by name: the entries in strictly ascending order of the names. -/
structure Fields where
  entries : List (String × String)
  ascending : entries.Pairwise (·.1 < ·.1)
  deriving DecidableEq, Repr

namespace Fields

/-- No fields. -/
def empty : Fields :=
  ⟨[], .nil⟩

instance : Inhabited Fields := ⟨empty⟩

instance : EmptyCollection Fields := ⟨empty⟩

/-- Are there no fields? -/
def isEmpty (fs : Fields) : Bool :=
  fs.entries.isEmpty

/-- The text of a name. -/
def get? (fs : Fields) (name : String) : Option String :=
  fs.entries.lookup name

/-- The entries with one more, at the place its name has in the order; an entry of the same name
is replaced. -/
def insertEntry (name text : String) : List (String × String) → List (String × String)
  | [] => [(name, text)]
  | e :: rest =>
    if name < e.1 then (name, text) :: e :: rest
    else if name = e.1 then (name, text) :: rest
    else e :: insertEntry name text rest

theorem mem_insertEntry {name text : String} {es : List (String × String)}
    {e : String × String} (h : e ∈ insertEntry name text es) : e = (name, text) ∨ e ∈ es := by
  induction es with
  | nil => exact Or.inl (by simpa [insertEntry] using h)
  | cons d rest ih =>
    rw [insertEntry] at h
    split at h
    · simpa using h
    · split at h
      · rcases List.mem_cons.1 h with h | h
        · exact Or.inl h
        · exact Or.inr (List.mem_cons_of_mem _ h)
      · rcases List.mem_cons.1 h with rfl | h
        · exact Or.inr List.mem_cons_self
        · exact (ih h).imp_right (List.mem_cons_of_mem _)

theorem ascending_insertEntry (name text : String) {es : List (String × String)}
    (h : es.Pairwise (·.1 < ·.1)) : (insertEntry name text es).Pairwise (·.1 < ·.1) := by
  induction es with
  | nil => exact List.pairwise_singleton _ _
  | cons e rest ih =>
    obtain ⟨he, hrest⟩ := List.pairwise_cons.1 h
    rw [insertEntry]
    split
    · next hlt =>
      refine List.pairwise_cons.2 ⟨fun d hd => ?_, h⟩
      rcases List.mem_cons.1 hd with rfl | hd
      · exact hlt
      · exact String.lt_trans hlt (he d hd)
    · next hlt =>
      split
      · next heq => exact List.pairwise_cons.2 ⟨fun d hd => heq ▸ he d hd, hrest⟩
      · next hne =>
        refine List.pairwise_cons.2 ⟨fun d hd => ?_, ih hrest⟩
        rcases mem_insertEntry hd with rfl | hd
        · exact String.not_le.1 fun hle => hne (String.le_antisymm hle (String.not_lt.1 hlt))
        · exact he d hd

/-- The fields with the text of one name set. -/
def insert (fs : Fields) (name text : String) : Fields :=
  ⟨insertEntry name text fs.entries, ascending_insertEntry name text fs.ascending⟩

/-- The fields that a list of entries sets, one after the other: of two entries with one name the
later one counts. -/
def ofList (es : List (String × String)) : Fields :=
  es.foldl (fun fs e => fs.insert e.1 e.2) empty

@[ext] theorem ext {fs gs : Fields} (h : fs.entries = gs.entries) : fs = gs := by
  cases fs
  cases gs
  congr

@[simp] theorem get?_empty (name : String) : (empty : Fields).get? name = none := rfl

theorem lookup_cons (key : String) (e : String × String) (es : List (String × String)) :
    (e :: es).lookup key = if key = e.1 then some e.2 else es.lookup key := by
  obtain ⟨name, text⟩ := e
  rw [List.lookup_cons]
  by_cases h : key = name
  · rw [beq_iff_eq.2 h, if_pos h]
  · rw [beq_eq_false_iff_ne.2 h, if_neg h]

/-- After an insertion its name has the new text, and other names have the text they had. -/
theorem get?_insert (fs : Fields) (name text key : String) :
    (fs.insert name text).get? key = if key = name then some text else fs.get? key := by
  simp only [insert, get?]
  generalize fs.entries = es
  induction es with
  | nil => rw [insertEntry, lookup_cons]
  | cons e rest ih =>
    rw [insertEntry]
    split
    · rw [lookup_cons]
    · split
      · next heq =>
        rw [lookup_cons, lookup_cons, ← heq]
        by_cases hk : key = name
        · rw [if_pos hk, if_pos hk]
        · rw [if_neg hk, if_neg hk, if_neg hk]
      · next hne =>
        rw [lookup_cons, lookup_cons, ih]
        by_cases hk : key = name
        · rw [if_pos hk, if_neg (by rw [hk]; exact hne), if_pos hk]
        · rw [if_neg hk, if_neg hk]

/-- An entry above all others goes to the end. -/
theorem insertEntry_append {name text : String} {es : List (String × String)}
    (h : ∀ e ∈ es, e.1 < name) : insertEntry name text es = es ++ [(name, text)] := by
  induction es with
  | nil => rfl
  | cons e rest ih =>
    have he := h e List.mem_cons_self
    rw [insertEntry, if_neg (String.lt_asymm he),
      if_neg (fun heq => String.lt_irrefl name (by rw [heq] at he ⊢; exact he)),
      ih fun d hd => h d (List.mem_cons_of_mem _ hd), List.cons_append]

/-- Setting the entries of a collection one after the other gives it back. -/
theorem ofList_entries (fs : Fields) : ofList fs.entries = fs := by
  suffices h : ∀ (es : List (String × String)) (gs : Fields),
      (gs.entries ++ es).Pairwise (·.1 < ·.1) →
        (es.foldl (fun fs e => fs.insert e.1 e.2) gs).entries = gs.entries ++ es by
    ext1
    simpa [ofList, empty] using h fs.entries empty (by simpa [empty] using fs.ascending)
  intro es
  induction es with
  | nil => simp
  | cons e rest ih =>
    intro gs h
    have hins : (gs.insert e.1 e.2).entries = gs.entries ++ [e] := by
      exact insertEntry_append fun d hd =>
        (List.pairwise_append.1 h).2.2 d hd e List.mem_cons_self
    rw [List.foldl_cons, ih, hins, List.append_assoc, List.singleton_append]
    rw [hins, List.append_assoc, List.singleton_append]
    exact h

end Fields

end IdlModel

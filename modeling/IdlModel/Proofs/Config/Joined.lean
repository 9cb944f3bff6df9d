import IdlModel.Proofs.Config.Documented
import Mathlib.Data.List.Induction

/-!
# Looking up in joined tables

Joining tables is looking up in them one after the other: a key of a section has the value of the
highest layer that gives it one (`Config.Library.Documented.inside?_stack`), as long as every layer
is `Regular` there. A key that a layer does not have is not touched by it
(`Config.Library.Documented.lookup?_stack_insert`).
-/

namespace IdlModel

namespace Setting

/-- The value of a key in a section of a table. -/
def inside? (name key : String) (table : List (String × Setting)) : Option Setting :=
  match lookup? name table with
  | some (.table entries) => lookup? key entries
  | _ => none

/-- A section that is there is a table. -/
def HasSection (name : String) (table : List (String × Setting)) : Prop :=
  ∀ v, lookup? name table = some v → v.isTable

/-- A section that is there is a table, and its key, if that is there, is none. -/
structure Regular (name key : String) (table : List (String × Setting)) : Prop where
  hasSection : HasSection name table
  plain : ∀ v, inside? name key table = some v → v.isTable = false

instance (name : String) (table : List (String × Setting)) : Decidable (HasSection name table) :=
  decidable_of_iff ((lookup? name table).all isTable) (Option.all_eq_true _ _)

instance (name key : String) (table : List (String × Setting)) :
    Decidable (Regular name key table) :=
  decidable_of_iff (HasSection name table ∧ (inside? name key table).all (!·.isTable)) <| by
    rw [Option.all_eq_true]
    simp only [Bool.not_eq_true']
    exact ⟨fun h => ⟨h.1, h.2⟩, fun h => ⟨h.hasSection, h.plain⟩⟩

theorem HasSection.cases {name : String} {layer : List (String × Setting)}
    (h : HasSection name layer) :
    lookup? name layer = none ∨ ∃ entries, lookup? name layer = some (.table entries) := by
  cases hv : lookup? name layer with
  | none => exact .inl rfl
  | some v =>
    have htable := h v hv
    cases v with
    | table entries => exact .inr ⟨entries, rfl⟩
    | _ => cases htable

end Setting

namespace Config.Library.Documented

open Setting (HasSection Regular TidyTable inside? lookup?)

variable {library : Library} (hlibrary : library.Documented)

include hlibrary

/-! ## One layer -/

section Joined

variable {name key : String} {layer layer' below below' : List (String × Setting)}

/-- A table, over nothing, is as it is. -/
theorem lookup?_join_of_none_below {v : Setting} (htidy : TidyTable layer)
    (h : lookup? key layer = some v) (hbelow : lookup? key below = none) :
    lookup? key (library.join below layer) = some v :=
  hlibrary.lookup?_join_of_some htidy h fun _ b hb => by
    rw [hbelow] at hb
    cases hb

/-- A key of joined tables depends on that key alone. -/
theorem lookup?_join_congr (htidy : TidyTable layer) (htidy' : TidyTable layer')
    (hlayer : lookup? key layer = lookup? key layer')
    (hbelow : lookup? key below = lookup? key below') :
    lookup? key (library.join below layer) = lookup? key (library.join below' layer') := by
  cases hv : lookup? key layer with
  | none =>
    rw [hlibrary.lookup?_join_of_none htidy hv,
      hlibrary.lookup?_join_of_none htidy' (hlayer ▸ hv), hbelow]
  | some v =>
    by_cases htables : v.isTable → ∀ b, lookup? key below = some b → b.isTable = false
    · rw [hlibrary.lookup?_join_of_some htidy hv htables,
        hlibrary.lookup?_join_of_some htidy' (hlayer ▸ hv) (hbelow ▸ htables)]
    · push Not at htables
      obtain ⟨htable, b, hb, hunder⟩ := htables
      cases v with
      | table entries =>
        cases b with
        | table under =>
          rw [hlibrary.lookup?_join_of_tables htidy hv hb,
            hlibrary.lookup?_join_of_tables htidy' (hlayer ▸ hv) (hbelow ▸ hb)]
        | _ => exact absurd rfl hunder
      | _ => cases htable

theorem hasSection_join (htidy : TidyTable layer) (h : HasSection name layer)
    (hbelow : HasSection name below) : HasSection name (library.join below layer) := by
  intro v hv
  obtain hlayer | ⟨entries, hlayer⟩ := h.cases
  · rw [hlibrary.lookup?_join_of_none htidy hlayer] at hv
    exact hbelow v hv
  · obtain hb | ⟨under, hb⟩ := hbelow.cases
    · rw [hlibrary.lookup?_join_of_none_below htidy hlayer hb] at hv
      cases hv
      rfl
    · rw [hlibrary.lookup?_join_of_tables htidy hlayer hb] at hv
      cases hv
      rfl

/-- A layer over a table gives a key its own value, or leaves the one below it. -/
theorem inside?_join (htidy : TidyTable layer) (h : Regular name key layer)
    (hbelow : HasSection name below) :
    inside? name key (library.join below layer) =
      (inside? name key layer).or (inside? name key below) := by
  have hplain := h.plain
  obtain hlayer | ⟨entries, hlayer⟩ := h.hasSection.cases
  · simp only [inside?, hlibrary.lookup?_join_of_none htidy hlayer, hlayer, Option.none_or]
  simp only [inside?, hlayer] at hplain ⊢
  obtain hb | ⟨under, hb⟩ := hbelow.cases
  · simp only [hlibrary.lookup?_join_of_none_below htidy hlayer hb, hb, Option.or_none]
  have hentries := Setting.tidy_table_iff.1 (htidy.lookup? hlayer)
  simp only [hlibrary.lookup?_join_of_tables htidy hlayer hb, hb]
  cases hv : lookup? key entries with
  | none => rw [hlibrary.lookup?_join_of_none hentries hv, Option.none_or]
  | some v =>
    rw [Option.some_or]
    refine hlibrary.lookup?_join_of_some hentries hv fun htable => ?_
    rw [hplain v hv] at htable
    cases htable

end Joined

/-! ## Several layers -/

omit hlibrary in
theorem stack_concat (layers : List (List (String × Setting))) (layer : List (String × Setting)) :
    library.stack (layers ++ [layer]) = library.join (library.stack layers) layer := by
  rw [stack, List.foldl_append]
  rfl

theorem tidy_stack {layers : List (List (String × Setting))}
    (h : ∀ layer ∈ layers, TidyTable layer) : TidyTable (library.stack layers) := by
  induction layers using List.reverseRecOn with
  | nil => exact Setting.tidyTable_nil
  | append_singleton layers layer ih =>
    rw [List.forall_mem_append, List.forall_mem_singleton] at h
    rw [stack_concat]
    exact hlibrary.tidy_join (ih h.1) h.2

theorem hasSection_stack {name : String} {layers : List (List (String × Setting))}
    (htidy : ∀ layer ∈ layers, TidyTable layer) (h : ∀ layer ∈ layers, HasSection name layer) :
    HasSection name (library.stack layers) := by
  induction layers using List.reverseRecOn with
  | nil => exact fun v hv => nomatch hv
  | append_singleton layers layer ih =>
    rw [List.forall_mem_append, List.forall_mem_singleton] at htidy h
    rw [stack_concat]
    exact hlibrary.hasSection_join htidy.2 h.2 (ih htidy.1 h.1)

/-- In joined tables a key has the value of the highest layer that gives it one. -/
theorem inside?_stack {name key : String} {layers : List (List (String × Setting))}
    (htidy : ∀ layer ∈ layers, TidyTable layer) (h : ∀ layer ∈ layers, Regular name key layer) :
    inside? name key (library.stack layers) = layers.reverse.findSome? (inside? name key) := by
  -- layers are taken off from above, since the last one is the first to answer
  induction layers using List.reverseRecOn with
  | nil => rfl
  | append_singleton layers layer ih =>
    rw [List.forall_mem_append, List.forall_mem_singleton] at htidy h
    have hbelow := hlibrary.hasSection_stack htidy.1 fun l hl => (h.1 l hl).hasSection
    rw [stack_concat, hlibrary.inside?_join htidy.2 h.2 hbelow, ih htidy.1 h.1,
      List.reverse_append]
    rw [List.reverse_singleton, List.singleton_append, List.findSome?_cons]
    cases inside? name key layer <;> rfl

/-- A layer that does not have a key may be put anywhere. -/
theorem lookup?_stack_insert {key : String} {layer : List (String × Setting)}
    {before after : List (List (String × Setting))} (htidy : TidyTable layer)
    (hafter : ∀ l ∈ after, TidyTable l) (h : lookup? key layer = none) :
    lookup? key (library.stack (before ++ layer :: after)) =
      lookup? key (library.stack (before ++ after)) := by
  induction after using List.reverseRecOn with
  | nil => rw [stack_concat, hlibrary.lookup?_join_of_none htidy h, List.append_nil]
  | append_singleton after l ih =>
    rw [List.forall_mem_append, List.forall_mem_singleton] at hafter
    rw [← List.cons_append, ← List.append_assoc, ← List.append_assoc, stack_concat, stack_concat]
    exact hlibrary.lookup?_join_congr hafter.2 hafter.2 rfl (ih hafter.1)

end Config.Library.Documented

end IdlModel

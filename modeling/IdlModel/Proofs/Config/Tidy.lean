import IdlModel.Config.Setting
import Mathlib.Data.List.Nodup

/-!
# Tables without double keys

A setting is tidy if no table in it has a key twice. Covering one table by another keeps that
(`Setting.TidyTable.entriesAbove`), and a key of the result is looked up in both
(`Setting.lookup?_entriesAbove`).
-/

namespace IdlModel.Setting

/-- No table in a setting has a key twice. -/
inductive Tidy : Setting → Prop
  | bool (value : Bool) : Tidy (.bool value)
  | integer (value : Int) : Tidy (.integer value)
  | float (literal : String) : Tidy (.float literal)
  | character (value : Char) : Tidy (.character value)
  | text (value : String) : Tidy (.text value)
  | list {items : List Setting} (items_tidy : ∀ v ∈ items, Tidy v) : Tidy (.list items)
  | table {entries : List (String × Setting)} (keys_nodup : (entries.map Prod.fst).Nodup)
      (values_tidy : ∀ e ∈ entries, Tidy e.2) : Tidy (.table entries)

/-- No key twice, neither in a table nor in one of the tables inside. -/
structure TidyTable (entries : List (String × Setting)) : Prop where
  keys_nodup : (entries.map Prod.fst).Nodup
  values_tidy : ∀ e ∈ entries, Tidy e.2

theorem tidy_table_iff {entries : List (String × Setting)} :
    Tidy (.table entries) ↔ TidyTable entries := by
  constructor
  · rintro ⟨⟩
    next hkeys hvalues => exact ⟨hkeys, hvalues⟩
  · rintro ⟨hkeys, hvalues⟩
    exact .table hkeys hvalues

theorem tidyTable_nil : TidyTable [] :=
  ⟨List.nodup_nil, fun _ h => nomatch h⟩

theorem tidyTable_singleton {k : String} {v : Setting} (h : Tidy v) : TidyTable [(k, v)] := by
  refine ⟨List.nodup_singleton k, fun e he => ?_⟩
  rw [List.mem_singleton.1 he]
  exact h

/-! ## Looking up -/

theorem mem_of_lookup? {key : String} {entries : List (String × Setting)} {v : Setting}
    (h : lookup? key entries = some v) : (key, v) ∈ entries := by
  fun_induction lookup? key entries with
  | case1 => cases h
  | case2 v' entries => exact Option.some.inj h ▸ List.mem_cons_self
  | case3 k v' entries _ ih => exact List.mem_cons_of_mem _ (ih h)

theorem TidyTable.lookup? {key : String} {entries : List (String × Setting)} {v : Setting}
    (h : TidyTable entries) (hv : lookup? key entries = some v) : Tidy v :=
  h.values_tidy _ (mem_of_lookup? hv)

theorem lookup?_eq_none_iff {key : String} {entries : List (String × Setting)} :
    Setting.lookup? key entries = none ↔ key ∉ entries.map Prod.fst := by
  fun_induction Setting.lookup? key entries with
  | case1 => simp
  | case2 => simp
  | case3 k v entries hk ih =>
    rw [ih, List.map_cons, List.mem_cons, not_or]
    exact ⟨fun h => ⟨Ne.symm hk, h⟩, And.right⟩

/-! ## Changing one key -/

theorem keys_update (k : String) (change : Option Setting → Setting)
    (entries : List (String × Setting)) :
    (update k change entries).map Prod.fst =
      if k ∈ entries.map Prod.fst then entries.map Prod.fst else entries.map Prod.fst ++ [k] := by
  fun_induction update k change entries with
  | case1 => rfl
  | case2 v entries => simp
  | case3 k' v entries hk ih =>
    rw [List.map_cons, ih]
    simp only [List.map_cons, List.mem_cons, Ne.symm hk, false_or]
    split <;> rfl

/-- A key that comes last unless it is there is not there twice. -/
theorem nodup_unless_mem (k : String) {keys : List String} (h : keys.Nodup) :
    (if k ∈ keys then keys else keys ++ [k]).Nodup := by
  split
  · exact h
  · next hk =>
    refine List.nodup_append.2 ⟨h, List.nodup_singleton k, ?_⟩
    rintro _ ha _ hb rfl
    exact hk (List.mem_singleton.1 hb ▸ ha)

theorem mem_update {k : String} {change : Option Setting → Setting}
    {entries : List (String × Setting)} {e : String × Setting}
    (h : e ∈ update k change entries) :
    e ∈ entries ∨ e = (k, change (Setting.lookup? k entries)) := by
  fun_induction update k change entries with
  | case1 => exact .inr (List.mem_singleton.1 h)
  | case2 v entries =>
    rw [Setting.lookup?, if_pos rfl]
    obtain rfl | h := List.mem_cons.1 h
    · exact .inr rfl
    · exact .inl (List.mem_cons_of_mem _ h)
  | case3 k' v entries hk ih =>
    rw [Setting.lookup?, if_neg hk]
    obtain rfl | h := List.mem_cons.1 h
    · exact .inl List.mem_cons_self
    · exact (ih h).imp_left (List.mem_cons_of_mem _)

theorem TidyTable.update {k : String} {change : Option Setting → Setting}
    {entries : List (String × Setting)} (h : TidyTable entries)
    (hchange : Tidy (change (Setting.lookup? k entries))) :
    TidyTable (Setting.update k change entries) := by
  refine ⟨?_, fun e he => ?_⟩
  · rw [keys_update]
    exact nodup_unless_mem k h.keys_nodup
  · obtain he | rfl := mem_update he
    · exact h.values_tidy e he
    · exact hchange

/-! ## One over another -/

mutual

theorem Tidy.above {v : Setting} {below : Option Setting} (h : Tidy v)
    (hbelow : ∀ b, below = some b → Tidy b) : Tidy (above v below) := by
  -- only a table over a table is joined with it
  match v, below with
  | .table entries, some (.table under) =>
    rw [Setting.above, tidy_table_iff]
    exact TidyTable.entriesAbove (tidy_table_iff.1 h).values_tidy
      (tidy_table_iff.1 (hbelow _ rfl))
  | .table _, none | .table _, some (.bool _) | .table _, some (.integer _)
  | .table _, some (.float _) | .table _, some (.character _) | .table _, some (.text _)
  | .table _, some (.list _) | .bool _, _ | .integer _, _ | .float _, _ | .character _, _
  | .text _, _ | .list _, _ => exact h

/-- The keys come from below, as far as they are there, so only the values above must be tidy. -/
theorem TidyTable.entriesAbove {entries below : List (String × Setting)}
    (h : ∀ e ∈ entries, Tidy e.2) (hbelow : TidyTable below) :
    TidyTable (entriesAbove entries below) := by
  match entries with
  | [] => exact hbelow
  | (k, v) :: entries =>
    rw [Setting.entriesAbove]
    refine TidyTable.entriesAbove (fun e he => h e (List.mem_cons_of_mem _ he)) ?_
    refine hbelow.update (Tidy.above (h (k, v) List.mem_cons_self) fun b hb => ?_)
    exact hbelow.lookup? hb

end

theorem lookup?_entriesAbove (key : String) {entries below : List (String × Setting)}
    (h : (entries.map Prod.fst).Nodup) :
    lookup? key (entriesAbove entries below) =
      match lookup? key entries with
      | some v => some (above v (lookup? key below))
      | none => lookup? key below := by
  induction entries generalizing below with
  | nil => rfl
  | cons e entries ih =>
    obtain ⟨k, v⟩ := e
    obtain ⟨hk, hentries⟩ := List.nodup_cons.1 h
    rw [entriesAbove, ih hentries, lookup?_update, lookup?]
    by_cases hkey : k = key
    · subst hkey
      rw [lookup?_eq_none_iff.2 hk, if_pos rfl, if_pos rfl]
    · rw [if_neg (Ne.symm hkey), if_neg hkey]

end IdlModel.Setting

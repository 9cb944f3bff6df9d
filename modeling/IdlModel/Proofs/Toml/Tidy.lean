import IdlModel.Proofs.Config.Tidy
import IdlModel.Proofs.Text.Yields
import IdlModel.Toml.Parser

/-!
# No key twice in TOML

The table that a TOML text holds is tidy (`Toml.tidyTable_of_parse?`). While a text is read this is an
invariant of the entries (`Entries.Tidy`), which every way to add to them keeps.
-/

namespace IdlModel.Toml

open Setting (Tidy TidyTable)
open Text (Parser Yields)
open Text.Parser

/-! ## Entries -/

/-- No table has a key twice, as far as it has been read. -/
inductive Entry.Tidy : Entry → Prop
  | value {v : Setting} (h : v.Tidy) : Tidy (.value v)
  | table {origin : Origin} {entries : List (String × Entry)}
      (keys_nodup : (entries.map Prod.fst).Nodup) (entries_tidy : ∀ e ∈ entries, Tidy e.2) :
      Tidy (.table origin entries)
  | tables {latest : List (String × Entry)} {earlier : List Setting}
      (keys_nodup : (latest.map Prod.fst).Nodup) (latest_tidy : ∀ e ∈ latest, Tidy e.2)
      (earlier_tidy : ∀ v ∈ earlier, v.Tidy) : Tidy (.tables latest earlier)

theorem settings_eq_map (entries : Entries) :
    settings entries = entries.map fun e => (e.1, e.2.setting) := by
  induction entries with
  | nil => rfl
  | cons e entries ih => rw [settings, ih, List.map_cons]

theorem tidyTable_settings_of {entries : Entries} (hkeys : (entries.map Prod.fst).Nodup)
    (h : ∀ e ∈ entries, e.2.setting.Tidy) : TidyTable (settings entries) := by
  rw [settings_eq_map]
  refine ⟨?_, fun e he => ?_⟩
  · rw [List.map_map]
    exact hkeys
  · obtain ⟨e', he', rfl⟩ := List.mem_map.1 he
    exact h e' he'

theorem Entry.Tidy.setting {e : Entry} (h : e.Tidy) : e.setting.Tidy := by
  induction h with
  | value h => exact h
  | table hkeys _ ih =>
    rw [Entry.setting, Setting.tidy_table_iff]
    exact tidyTable_settings_of hkeys ih
  | tables hkeys _ hearlier ih =>
    rw [Entry.setting]
    refine .list fun v hv => ?_
    obtain hv | hv := List.mem_append.1 hv
    · exact hearlier v (List.mem_reverse.1 hv)
    · rw [List.mem_singleton.1 hv, Setting.tidy_table_iff]
      exact tidyTable_settings_of hkeys ih

namespace Entries

/-- No key twice, at any depth. -/
structure Tidy (es : Entries) : Prop where
  keys_nodup : (es.map Prod.fst).Nodup
  entries_tidy : ∀ e ∈ es, e.2.Tidy

variable {es : Entries}

theorem tidy_nil : Tidy [] :=
  ⟨List.nodup_nil, fun _ h => nomatch h⟩

theorem Tidy.table {origin : Origin} (h : Tidy es) : Entry.Tidy (.table origin es) :=
  .table h.keys_nodup h.entries_tidy

theorem Tidy.settings (h : Tidy es) : TidyTable (settings es) :=
  tidyTable_settings_of h.keys_nodup fun e he => (h.entries_tidy e he).setting

theorem Tidy.lookup? {key : String} {e : Entry} (h : Tidy es) (he : lookup? key es = some e) :
    e.Tidy := by
  obtain ⟨before, after, rfl, -⟩ := List.lookup_eq_some_iff.1 he
  exact h.entries_tidy (key, e) (by simp)

theorem Tidy.of_table {key : String} {origin : Origin} {inner : Entries} (h : Tidy es)
    (he : Entries.lookup? key es = some (.table origin inner)) : Tidy inner := by
  cases h.lookup? he
  next hkeys htidy => exact ⟨hkeys, htidy⟩

theorem Tidy.of_tables {key : String} {latest : Entries} {earlier : List Setting} (h : Tidy es)
    (he : Entries.lookup? key es = some (.tables latest earlier)) :
    Tidy latest ∧ ∀ v ∈ earlier, v.Tidy := by
  cases h.lookup? he
  next hkeys htidy hearlier => exact ⟨⟨hkeys, htidy⟩, hearlier⟩

theorem keys_set (key : String) (e : Entry) (es : Entries) :
    (set key e es).map Prod.fst =
      if key ∈ es.map Prod.fst then es.map Prod.fst else es.map Prod.fst ++ [key] := by
  fun_induction set key e es with
  | case1 => rfl
  | case2 old es => simp
  | case3 k old es hk ih =>
    rw [List.map_cons, ih]
    simp only [List.map_cons, List.mem_cons, Ne.symm hk, false_or]
    split <;> rfl

theorem mem_set {key : String} {e : Entry} {x : String × Entry} (h : x ∈ set key e es) :
    x ∈ es ∨ x = (key, e) := by
  fun_induction set key e es with
  | case1 => exact .inr (List.mem_singleton.1 h)
  | case2 old es =>
    obtain rfl | h := List.mem_cons.1 h
    · exact .inr rfl
    · exact .inl (List.mem_cons_of_mem _ h)
  | case3 k old es hk ih =>
    obtain rfl | h := List.mem_cons.1 h
    · exact .inl List.mem_cons_self
    · exact (ih h).imp_left (List.mem_cons_of_mem _)

theorem Tidy.set {key : String} {e : Entry} (h : Tidy es) (he : e.Tidy) :
    Tidy (Entries.set key e es) := by
  refine ⟨?_, fun x hx => ?_⟩
  · rw [keys_set]
    exact Setting.nodup_unless_mem key h.keys_nodup
  · obtain hx | rfl := mem_set hx
    · exact h.entries_tidy x hx
    · exact he

/-- A change inside a table keeps tidy what is around it. -/
theorem Tidy.within {change : Entries → Option Entries}
    (hchange : ∀ {es es' : Entries}, Tidy es → change es = some es' → Tidy es') {path : List String}
    {es' : Entries} (h : Tidy es) (hes : within change path es = some es') : Tidy es' := by
  induction path generalizing es es' with
  | nil => exact hchange h hes
  | cons k path ih =>
    rw [Entries.within] at hes
    split at hes
    · obtain ⟨inner', hinner, heq⟩ := Option.bind_eq_some_iff.1 hes
      cases heq
      exact h.set (ih tidy_nil hinner).table
    · next he =>
      obtain ⟨inner', hinner, heq⟩ := Option.bind_eq_some_iff.1 hes
      cases heq
      exact h.set (ih (h.of_table he) hinner).table
    · next he =>
      obtain ⟨inner', hinner, heq⟩ := Option.bind_eq_some_iff.1 hes
      cases heq
      obtain ⟨hlatest, hearlier⟩ := h.of_tables he
      have hinner' := ih hlatest hinner
      exact h.set (.tables hinner'.keys_nodup hinner'.entries_tidy hearlier)
    · cases hes

theorem Tidy.insertDotted {origin : Origin} {v : Setting} {path : List String} {es' : Entries}
    (hv : v.Tidy) (h : Tidy es) (hes : Entries.insertDotted origin v path es = some es') :
    Tidy es' := by
  fun_induction Entries.insertDotted origin v path es generalizing es' with
  -- the path is empty, or something that must not be added to is in the way
  | case1 | case2 | case5 | case8 => cases hes
  | case3 =>
    cases hes
    exact h.set (.value hv)
  -- the path goes on into a new table, into one that is there, or into the last one of an array
  | case4 origin k path es _ he ih =>
    obtain ⟨inner', hinner, heq⟩ := Option.bind_eq_some_iff.1 hes
    cases heq
    exact h.set (ih tidy_nil hinner).table
  | case6 origin k path es _ origin' inner hexplicit he ih =>
    obtain ⟨inner', hinner, heq⟩ := Option.bind_eq_some_iff.1 hes
    cases heq
    exact h.set (ih (h.of_table he) hinner).table
  | case7 origin k path es _ latest earlier he ih =>
    obtain ⟨latest', hlatest', heq⟩ := Option.bind_eq_some_iff.1 hes
    cases heq
    obtain ⟨hlatest, hearlier⟩ := h.of_tables he
    have htidy := ih hlatest hlatest'
    exact h.set (.tables htidy.keys_nodup htidy.entries_tidy hearlier)

theorem Tidy.openTable {key : String} {es' : Entries} (h : Tidy es)
    (hes : Entries.openTable key es = some es') : Tidy es' := by
  rw [Entries.openTable] at hes
  split at hes
  · cases hes
    exact h.set tidy_nil.table
  · next he =>
    cases hes
    exact h.set (h.of_table he).table
  · cases hes

theorem Tidy.openItem {key : String} {es' : Entries} (h : Tidy es)
    (hes : Entries.openItem key es = some es') : Tidy es' := by
  rw [Entries.openItem] at hes
  split at hes
  · cases hes
    exact h.set (.tables List.nodup_nil (List.forall_mem_nil _) (List.forall_mem_nil _))
  · next he =>
    cases hes
    obtain ⟨hlatest, hearlier⟩ := h.of_tables he
    refine h.set (.tables List.nodup_nil (List.forall_mem_nil _) ?_)
    rw [List.forall_mem_cons]
    exact ⟨Setting.tidy_table_iff.2 hlatest.settings, hearlier⟩
  · cases hes

theorem Tidy.openPath {array : Bool} {path : List String} {es' : Entries} (h : Tidy es)
    (hes : Entries.openPath array path es = some es') : Tidy es' := by
  rw [Entries.openPath] at hes
  split at hes
  · cases hes
  · refine h.within (fun h' hes' => ?_) hes
    cases array
    · exact h'.openTable hes'
    · exact h'.openItem hes'

theorem Tidy.insertAt {header key : List String} {v : Setting} {es' : Entries} (hv : v.Tidy)
    (h : Tidy es) (hes : Entries.insertAt header key v es = some es') : Tidy es' :=
  h.within (fun h' hes' => h'.insertDotted hv hes') hes

end Entries

/-! ## Values -/

theorem yields_word {w : List Char} {v : Setting} (hv : v.Tidy) : Yields (word w v) Setting.Tidy :=
  Yields.after fun _ => Yields.pure hv

/-- A date is a table with one key. -/
theorem yields_dateTime : Yields dateTime Setting.Tidy := by
  refine Yields.after fun cs => Yields.pure ?_
  rw [Setting.tidy_table_iff]
  exact Setting.tidyTable_singleton (.text _)

theorem yields_float : Yields float Setting.Tidy :=
  Yields.after fun _ => Yields.after fun _ => Yields.after fun _ => Yields.after fun _ =>
    Yields.ite Yields.failure (Yields.ite Yields.failure (Yields.pure (.float _)))

theorem yields_specialFloat : Yields specialFloat Setting.Tidy :=
  Yields.after fun _ => Yields.after fun _ =>
    Yields.ite (Yields.after fun _ => Yields.pure (.float _))
      (Yields.after fun _ => Yields.pure (.float _))

theorem yields_bounded (n : Int) : Yields (bounded n) Setting.Tidy := by
  rw [bounded]
  exact Yields.ite (Yields.pure (.integer n)) Yields.failure

theorem yields_basedInteger (letter : Char) (base : Nat) (p : Char → Bool) :
    Yields (basedInteger letter base p) Setting.Tidy :=
  Yields.after fun _ => Yields.after fun _ => yields_bounded _

theorem yields_integer : Yields integer Setting.Tidy :=
  (yields_basedInteger _ _ _).orElse <| (yields_basedInteger _ _ _).orElse <|
    (yields_basedInteger _ _ _).orElse <|
      Yields.after fun _ => Yields.after fun _ => yields_bounded _

theorem yields_scalar : Yields scalar Setting.Tidy :=
  (yields_word (.bool true)).orElse <| (yields_word (.bool false)).orElse <|
    yields_dateTime.orElse <| yields_float.orElse <| yields_specialFloat.orElse yields_integer

section Brackets

variable {inner : Parser Setting} (hinner : Yields inner Setting.Tidy)

include hinner

theorem yields_itemsUpTo (fuel : Nat) : Yields (itemsUpTo inner fuel) fun vs => ∀ v ∈ vs, v.Tidy := by
  induction fuel with
  | zero => exact Yields.failure
  | succ fuel ih =>
    refine Yields.after fun _ => Yields.after fun next => ?_
    split
    · exact Yields.after fun _ => Yields.pure (List.forall_mem_nil _)
    · refine Yields.bind hinner fun v hv => Yields.after fun _ => Yields.after fun next => ?_
      split
      · exact Yields.after fun _ => Yields.bind ih fun vs hvs =>
          Yields.pure (List.forall_mem_cons.2 ⟨hv, hvs⟩)
      · exact Yields.after fun _ => Yields.pure (List.forall_mem_singleton.2 hv)

theorem yields_array : Yields (array inner) Setting.Tidy :=
  Yields.after fun _ => Yields.after fun _ => Yields.bind (yields_itemsUpTo hinner _) fun _ hvs =>
    Yields.pure (.list hvs)

theorem yields_entry : Yields (entry inner) fun e => e.2.Tidy :=
  Yields.after fun _ => Yields.after fun _ => Yields.after fun _ =>
    Yields.bind hinner fun _ hv => Yields.pure hv

theorem yields_inlineEntriesUpTo (fuel : Nat) {es : Entries} (h : es.Tidy) :
    Yields (inlineEntriesUpTo inner fuel es) Entries.Tidy := by
  induction fuel generalizing es with
  | zero => exact Yields.failure
  | succ fuel ih =>
    refine Yields.bind (yields_entry hinner) fun e he => Yields.after fun _ => ?_
    split
    · exact Yields.failure
    · next hes =>
      have hes' := h.insertDotted he hes
      refine Yields.after fun next => ?_
      split
      · exact Yields.after fun _ => ih hes'
      · exact Yields.after fun _ => Yields.pure hes'

theorem yields_inlineTable : Yields (inlineTable inner) Setting.Tidy := by
  refine Yields.after fun _ => Yields.after fun _ => Yields.after fun next => ?_
  split
  · exact Yields.after fun _ => Yields.pure (Setting.tidy_table_iff.2 Setting.tidyTable_nil)
  · refine Yields.after fun cs =>
      Yields.bind (yields_inlineEntriesUpTo hinner _ Entries.tidy_nil) fun es hes => ?_
    exact Yields.pure (Setting.tidy_table_iff.2 hes.settings)

theorem yields_valueWith : Yields (valueWith inner) Setting.Tidy := by
  refine Yields.after fun next => ?_
  split
  · exact yields_array hinner
  · exact yields_inlineTable hinner
  · exact Yields.map (fun s _ => .text s) (Yields.trivial _)
  · exact Yields.map (fun s _ => .text s) (Yields.trivial _)
  · exact yields_scalar

end Brackets

theorem yields_value (levels : Nat) : Yields (value levels) Setting.Tidy := by
  induction levels with
  | zero =>
    refine Yields.after fun next => ?_
    split
    · exact Yields.failure
    · exact Yields.failure
    · exact yields_valueWith Yields.failure
  | succ levels ih => exact yields_valueWith ih

/-! ## Lines -/

theorem yields_header {p : Progress} (h : p.entries.Tidy) :
    Yields (header p) fun p' => p'.entries.Tidy := by
  refine Yields.after fun array => ?_
  refine Yields.ite (Yields.after fun _ => ?_) ?_
  all_goals
    refine Yields.after fun path => Yields.after fun _ => Yields.after fun _ => ?_
    split
    · next hes => exact Yields.pure (h.openPath hes)
    · exact Yields.failure

theorem yields_line {p : Progress} (h : p.entries.Tidy) :
    Yields (line p) fun p' => p'.entries.Tidy := by
  refine Yields.after fun _ => Yields.after fun next => ?_
  split
  · exact Yields.after fun _ => Yields.pure h
  · exact Yields.after fun _ => Yields.pure h
  · exact Yields.after fun _ => Yields.pure h
  · exact Yields.after fun _ => Yields.pure h
  · exact Yields.after fun _ => yields_header h
  · refine Yields.bind (yields_entry (yields_value _)) fun e he => Yields.after fun _ => ?_
    split
    · next hes => exact Yields.pure (h.insertAt he hes)
    · exact Yields.failure

theorem yields_linesUpTo (fuel : Nat) {p : Progress} (h : p.entries.Tidy) :
    Yields (linesUpTo fuel p) fun p' => p'.entries.Tidy := by
  induction fuel generalizing p with
  | zero => exact Yields.pure h
  | succ fuel ih =>
    refine Yields.after fun cs => ?_
    split
    · exact Yields.pure h
    · exact Yields.bind (yields_line h) fun p' hp' => ih hp'

/-- No table of a TOML text has a key twice. -/
theorem tidyTable_of_parse? {text : String} {table : List (String × Setting)}
    (h : parse? text = some table) : TidyTable table := by
  rw [parse?] at h
  obtain ⟨⟨p, rest⟩, hp, h⟩ := Option.bind_eq_some_iff.1 h
  have hp' : p.entries.Tidy := yields_linesUpTo _ Entries.tidy_nil _ _ _ hp
  change (if rest.isEmpty then some (settings p.entries) else none) = some table at h
  obtain ⟨-, h⟩ := Option.ite_none_right_eq_some.1 h
  exact Option.some.inj h ▸ hp'.settings

end IdlModel.Toml

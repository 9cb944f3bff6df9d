import IdlModel.Except
import IdlModel.Proofs.Config.Documented
import IdlModel.Proofs.Text.Yields
import IdlModel.Proofs.Toml.Tidy

/-!
# What the libraries do

The libraries do what they document (`Config.Library.documented_standard`). For the values of variables
and for TOML this is a law of the parsers: whatever they make of a text has no key twice.
-/

namespace IdlModel

namespace Setting

/-! ## Reserved keys -/

mutual

theorem unwrap?_of_isUnreserved {v : Setting} (h : v.isUnreserved) : unwrap? v = some v := by
  match v with
  | .list items =>
    rw [isUnreserved] at h
    rw [unwrap?, unwrapItems?_of_itemsUnreserved h]
    rfl
  | .table entries =>
    simp only [isUnreserved, Bool.and_eq_true, Option.isNone_iff_eq_none] at h
    obtain ⟨⟨hvalue, hsource⟩, hentries⟩ := h
    simp [unwrap?, unwrapEntries?_of_entriesUnreserved hentries, hvalue, hsource]
  | .bool _ | .integer _ | .float _ | .character _ | .text _ => rfl

theorem unwrapItems?_of_itemsUnreserved {items : List Setting} (h : itemsUnreserved items) :
    unwrapItems? items = some items := by
  match items with
  | [] => rfl
  | v :: items =>
    rw [itemsUnreserved, Bool.and_eq_true] at h
    simp [unwrapItems?, unwrap?_of_isUnreserved h.1, unwrapItems?_of_itemsUnreserved h.2]

theorem unwrapEntries?_of_entriesUnreserved {entries : List (String × Setting)}
    (h : entriesUnreserved entries) : unwrapEntries? entries = some entries := by
  match entries with
  | [] => rfl
  | (k, v) :: entries =>
    rw [entriesUnreserved, Bool.and_eq_true] at h
    simp [unwrapEntries?, unwrap?_of_isUnreserved h.1, unwrapEntries?_of_entriesUnreserved h.2]

end

end Setting

namespace Config

open Setting (Tidy TidyTable lookup?)
open Text (Outcomes Yields)

/-! ## Files -/

theorem directory?_insert {name text : String} {path : List String}
    (before after : List (String × String)) (accountHome : Option String)
    (h : variablePath? name = some path) :
    directory? (before ++ (name, text) :: after) accountHome =
      directory? (before ++ after) accountHome := by
  have hne {other : String} (hother : variablePath? other = none) : (other == name) = false := by
    rw [beq_eq_false_iff_ne]
    rintro rfl
    rw [hother] at h
    cases h
  have hhome := hne (show variablePath? "HOME" = none by decide)
  have hconfig := hne (show variablePath? "XDG_CONFIG_HOME" = none by decide)
  simp only [directory?, List.lookup_append, List.lookup_cons, hhome, hconfig]

/-- A search begins at the path itself. -/
theorem search_of_isFile {disk : Disk} {path : String} (hknown : disk.workingDirectory.isSome)
    (h : (disk.lookup path).isFile) : search disk path = disk.lookup path := by
  obtain ⟨names, hnames⟩ := Option.isSome_iff_exists.1 hknown
  have hfirst : ∃ others, searchPaths disk.workingDirectory path = path :: others := by
    rw [hnames, searchPaths.eq_def]
    split
    · exact ⟨[], rfl⟩
    · exact ⟨_, rfl⟩
  obtain ⟨others, hothers⟩ := hfirst
  rw [search, hothers, List.map_cons, List.find?_cons, h]
  rfl

/-! ## Variables -/

instance : Outcomes Reading where
  Gives x a := x.run = .ok (some a)
  eq_of_pure h := Option.some.inj (Except.ok.inj h)
  exists_of_bind {_ _ x _ _} h := by
    rw [OptionT.run_bind] at h
    obtain ⟨result, hresult, h⟩ := bind_eq_ok_iff.1 h
    cases result with
    | none => cases h
    | some a => exact ⟨a, hresult, h⟩

theorem yields_failure {α : Type} {P : α → Prop} : Yields (failure : ValueParser α) P :=
  fun _ _ _ h => nomatch h

theorem tidy_bare (cs : List Char) : Tidy (bare cs) := by
  rw [bare]
  split
  · exact .float _
  · split
    · exact .integer _
    · exact .text _

section Brackets

variable {α : Type} {item : ValueParser α} {P : α → Prop} (hitem : Yields item P)

include hitem

theorem yields_separatedUpTo (close : Char) (fuel : Nat) :
    Yields (separatedUpTo item close fuel) fun as => ∀ a ∈ as, P a := by
  induction fuel with
  | zero => exact yields_failure
  | succ fuel ih =>
    refine Yields.after fun next => Yields.ite ?_ ?_
    · exact Yields.after fun _ => Yields.pure (List.forall_mem_nil _)
    · refine Yields.bind hitem fun a ha => Yields.after fun next => Yields.ite ?_ ?_
      · exact Yields.after fun _ => Yields.bind ih fun as has =>
          Yields.pure (List.forall_mem_cons.2 ⟨ha, has⟩)
      · exact Yields.after fun _ => Yields.pure (List.forall_mem_singleton.2 ha)

theorem yields_separated (start close : Char) :
    Yields (separated item start close) fun as => ∀ a ∈ as, P a :=
  Yields.after fun _ => Yields.after fun _ => yields_separatedUpTo hitem close _

end Brackets

theorem yields_keyed {value : ValueParser Setting} (h : Yields value Tidy) :
    Yields (keyed value) fun e => e.2.Tidy := by
  refine Yields.after fun _ => Yields.after fun next => Yields.ite ?_ ?_
  all_goals
    exact Yields.after fun k => Yields.after fun _ => Yields.after fun _ => Yields.bind h fun v hv =>
      Yields.pure hv

/-- Of two entries with one key only the later one is left. -/
theorem tidyTable_foldl_update {es : List (String × Setting)} (h : ∀ e ∈ es, e.2.Tidy) :
    TidyTable (es.foldl (fun es (k, v) => Setting.update k (fun _ => v) es) []) := by
  suffices hfold : ∀ below, TidyTable below →
      TidyTable (es.foldl (fun es (k, v) => Setting.update k (fun _ => v) es) below) from
    hfold [] Setting.tidyTable_nil
  induction es with
  | nil => exact fun _ hbelow => hbelow
  | cons e es ih =>
    intro below hbelow
    obtain ⟨he, hes⟩ := List.forall_mem_cons.1 h
    exact ih hes _ (hbelow.update he)

theorem yields_value (fuel : Nat) : Yields (value fuel) Tidy := by
  induction fuel with
  | zero => exact yields_failure
  | succ fuel ih =>
    refine Yields.after fun _ => Yields.bind ?_ fun v hv => Yields.after fun _ => Yields.pure hv
    refine Yields.after fun istrue => Yields.ite (Yields.after fun _ => Yields.pure (.bool true)) ?_
    refine Yields.after fun isfalse => Yields.ite (Yields.after fun _ => Yields.pure (.bool false)) ?_
    refine Yields.after fun next => ?_
    split
    · refine Yields.bind (yields_separated (yields_keyed ih) _ _) fun es hes => Yields.pure ?_
      exact Setting.tidy_table_iff.2 (tidyTable_foldl_update hes)
    · exact Yields.map (fun _ hvs => .list hvs) (yields_separated ih _ _)
    · exact Yields.map (fun _ _ => .text _) (Yields.trivial _)
    · exact Yields.map (fun _ _ => .character _) (Yields.trivial _)
    · exact Yields.map (fun _ _ => tidy_bare _) (Yields.trivial _)

theorem tidy_of_variableValue {text : String} {v : Setting} (h : variableValue text = .ok v) :
    v.Tidy := by
  rw [variableValue] at h
  obtain ⟨result, hread, h⟩ := bind_eq_ok_iff.1 h
  split at h
  · cases h
    exact yields_value _ _ _ _ hread
  · cases h
    exact .text text

/-! ## Values that are asked for -/

theorem toBool_eq_ok_iff {path : List String} {v : Setting} {b : Bool} :
    toBool path v = .ok b ↔ v = .bool b := by
  cases v with
  | bool b' => simp [toBool]
  | _ => simp [toBool]

theorem toWord_eq_ok_iff {words path : List String} {v : Setting} {word : String} :
    toWord words path v = .ok word ↔ v = .text word ∧ word ∈ words := by
  cases v with
  | text word' =>
    rw [toWord]
    split
    · next hmem =>
      rw [Except.ok.injEq, Setting.text.injEq]
      exact ⟨fun h => ⟨h, h ▸ hmem⟩, And.left⟩
    · next hmem =>
      simp only [reduceCtorEq, Setting.text.injEq, false_iff, not_and]
      rintro rfl
      exact hmem
  | table entries =>
    simp only [reduceCtorEq, false_and, iff_false]
    rw [toWord]
    split
    · exact nofun
    · split <;> exact nofun
  | _ => simp [toWord]

/-! ## Together -/

theorem Library.documented_standard : Library.standard.Documented where
  directory?_insert := directory?_insert
  search_of_isFile := search_of_isFile
  tidy_of_toml? := Toml.tidyTable_of_parse?
  take?_of_unreserved := Setting.unwrapEntries?_of_entriesUnreserved
  tidy_of_value := tidy_of_variableValue
  tidy_join hbelow hlayer := hbelow.entriesAbove hlayer.values_tidy
  lookup?_join_of_none {key below layer} htidy h := by
    change lookup? key (Setting.entriesAbove layer below) = _
    rw [Setting.lookup?_entriesAbove key htidy.keys_nodup, h]
  lookup?_join_of_tables {key below layer under entries} htidy h hbelow := by
    change lookup? key (Setting.entriesAbove layer below) = _
    rw [Setting.lookup?_entriesAbove key htidy.keys_nodup, h, hbelow]
    rfl
  lookup?_join_of_some {key below layer v} htidy h htables := by
    change lookup? key (Setting.entriesAbove layer below) = _
    rw [Setting.lookup?_entriesAbove key htidy.keys_nodup, h]
    -- only a table over a table is joined with it
    cases v with
    | table entries =>
      cases hb : lookup? key below with
      | none => rfl
      | some b =>
        have hb := htables rfl b hb
        cases b with
        | table => cases hb
        | _ => rfl
    | _ => rfl
  bool_eq_ok_iff := toBool_eq_ok_iff
  word_eq_ok_iff := toWord_eq_ok_iff

end Config

end IdlModel

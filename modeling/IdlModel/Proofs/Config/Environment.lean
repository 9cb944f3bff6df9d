import IdlModel.Except
import IdlModel.Proofs.Config.Joined

/-!
# The layer of the environment

What the variables of an environment set is put together like the layers of a configuration. So it is
tidy (`Config.Library.Documented.tidy_environmentTable`), a key has the value of the last variable
that sets it (`Config.Library.Documented.inside?_environmentTable`), and one variable more or less
does not change what the others set (`Config.Library.Documented.environmentTable_insert`).
-/

namespace IdlModel.Config

open Setting (HasSection Regular TidyTable inside? lookup?)

/-- The variables that set a key, by their paths. -/
def settingVariables (library : Library) (environment : List (String × String)) :
    List (List String × String) :=
  environment.filterMap fun x => (library.keyPath? x.1).map (·, x.2)

/-- What a path and a text set. -/
def variableTable (library : Library) (x : List String × String) :
    Except ConfigError (List (String × Setting)) :=
  nested x.1 <$> library.value x.2

theorem environmentTable_eq (library : Library) (environment : List (String × String)) :
    environmentTable library environment =
      library.stack <$> (settingVariables library environment).mapM (variableTable library) := rfl

theorem tidyTable_nested {v : Setting} (h : v.Tidy) (path : List String) :
    TidyTable (nested path v) := by
  fun_induction nested path v with
  | case1 => exact Setting.tidyTable_nil
  | case2 v k => exact Setting.tidyTable_singleton h
  | case3 v k path _ ih => exact Setting.tidyTable_singleton (Setting.tidy_table_iff.2 (ih h))

theorem lookup?_nested_of_ne {key k : String} (h : key ≠ k) (path : List String) (v : Setting) :
    lookup? key (nested (k :: path) v) = none := by
  cases path <;> simp [nested, lookup?, Ne.symm h]

/-- The environment has a layer if the text of every variable that sets a key can be read. -/
theorem exists_environmentTable {library : Library} {environment : List (String × String)}
    (h : ∀ x ∈ environment, (library.keyPath? x.1).isSome → (library.value x.2).isOk) :
    ∃ table, environmentTable library environment = .ok table := by
  have hread : ∀ x ∈ settingVariables library environment,
      ∃ table, variableTable library x = .ok table := by
    intro s hs
    obtain ⟨x, hx, hpath⟩ := List.mem_filterMap.1 hs
    obtain ⟨path, hsome, rfl⟩ := Option.map_eq_some_iff.1 hpath
    have hok := h x hx (by rw [hsome]; rfl)
    cases hv : library.value x.2 with
    | error e =>
      rw [hv] at hok
      cases hok
    | ok v => exact ⟨nested path v, map_eq_ok_iff.2 ⟨v, hv, rfl⟩⟩
  obtain ⟨tables, htables⟩ := exists_mapM_eq_ok hread
  exact ⟨library.stack tables, map_eq_ok_iff.2 ⟨tables, htables, rfl⟩⟩

/-! ## One variable -/

/-- The value that a variable gives a key, if it is that key that it sets. -/
def Library.setting? (library : Library) (name key : String) (x : String × String) :
    Option Setting :=
  if library.keyPath? x.1 = some [name, key] then (library.value x.2).toOption else none

/-- A path and a value set neither a whole section nor anything inside its key, and the key itself
not to a table. -/
def Direct (name key : String) (path : List String) (v : Setting) : Prop :=
  path ≠ [name] ∧ ([name, key] <+: path → path = [name, key] ∧ v.isTable = false)

section Nested

variable {name key : String} {path : List String} {v : Setting}

theorem lookup?_nested_cons (k : String) (path : List String) (v : Setting) :
    lookup? k (nested (k :: path) v) =
      some (if path = [] then v else .table (nested path v)) := by
  cases path <;> simp [nested, lookup?]

theorem hasSection_nested (h : Direct name key path v) : HasSection name (nested path v) := by
  intro w hw
  cases path with
  | nil => cases hw
  | cons k path =>
    by_cases hk : name = k
    · subst hk
      have hpath : path ≠ [] := fun hpath => h.1 (by rw [hpath])
      rw [lookup?_nested_cons, if_neg hpath] at hw
      cases hw
      rfl
    · rw [lookup?_nested_of_ne hk] at hw
      cases hw

theorem inside?_nested (h : Direct name key path v) :
    inside? name key (nested path v) = if path = [name, key] then some v else none := by
  match path with
  | [] => rfl
  | [k] =>
    have hk : name ≠ k := fun hk => h.1 (by rw [hk])
    rw [inside?, lookup?_nested_of_ne hk, if_neg (by simp)]
  | k :: k' :: path =>
    by_cases hk : name = k
    · subst hk
      rw [inside?, lookup?_nested_cons, if_neg (List.cons_ne_nil _ _)]
      dsimp only
      by_cases hk' : key = k'
      · subst hk'
        obtain ⟨hpath, -⟩ := h.2 ⟨path, rfl⟩
        rw [if_pos hpath]
        cases hpath
        rw [lookup?_nested_cons, if_pos rfl]
      · rw [lookup?_nested_of_ne hk', if_neg (by simp [Ne.symm hk'])]
    · rw [inside?, lookup?_nested_of_ne hk, if_neg (by simp [Ne.symm hk])]

theorem regular_nested (h : Direct name key path v) : Regular name key (nested path v) := by
  refine ⟨hasSection_nested h, fun w hw => ?_⟩
  rw [inside?_nested h] at hw
  split at hw
  · next hpath =>
    cases hw
    exact (h.2 (hpath ▸ List.prefix_refl _)).2
  · cases hw

/-- Of several variables the last one that sets a key counts. -/
theorem findSome?_inside? {environment : List (String × String)}
    {tables : List (List (String × Setting))} {library : Library}
    (h : (settingVariables library environment).mapM (variableTable library) = .ok tables)
    (hdirect : ∀ x ∈ environment, ∀ path v, library.keyPath? x.1 = some path →
      library.value x.2 = .ok v → Direct name key path v) :
    tables.reverse.findSome? (inside? name key) =
      environment.reverse.findSome? (library.setting? name key) := by
  induction environment generalizing tables with
  | nil =>
    cases h
    rfl
  | cons x environment ih =>
    obtain ⟨hx, hdirect⟩ := List.forall_mem_cons.1 hdirect
    rw [List.reverse_cons, List.findSome?_append]
    cases hpath : library.keyPath? x.1 with
    | none =>
      have hvariables : settingVariables library (x :: environment) =
          settingVariables library environment := by
        simp [settingVariables, hpath]
      rw [hvariables] at h
      rw [ih h hdirect]
      simp [Library.setting?, hpath]
    | some path =>
      have hvariables : settingVariables library (x :: environment) =
          (path, x.2) :: settingVariables library environment := by
        simp [settingVariables, hpath]
      rw [hvariables, List.mapM_cons] at h
      obtain ⟨table, htable, h⟩ := bind_eq_ok_iff.1 h
      obtain ⟨tables', htables, h⟩ := bind_eq_ok_iff.1 h
      cases h
      obtain ⟨v, hv, rfl⟩ := map_eq_ok_iff.1 htable
      rw [List.reverse_cons, List.findSome?_append, ih htables hdirect]
      congr 1
      simp [inside?_nested (hx path v hpath hv), Library.setting?, hpath, hv, Except.toOption]

end Nested

/-! ## All variables -/

namespace Library.Documented

variable {library : Library} (hlibrary : library.Documented)

include hlibrary

theorem tidy_variableTable {x : List String × String} {table : List (String × Setting)}
    (h : variableTable library x = .ok table) : TidyTable table := by
  obtain ⟨v, hv, rfl⟩ := map_eq_ok_iff.1 h
  exact tidyTable_nested (hlibrary.tidy_of_value hv) x.1

theorem tidy_variableTables {xs : List (List String × String)}
    {tables : List (List (String × Setting))} (h : xs.mapM (variableTable library) = .ok tables) :
    ∀ table ∈ tables, TidyTable table := by
  intro table htable
  obtain ⟨x, -, hx⟩ := mem_of_mapM_eq_ok h table htable
  exact hlibrary.tidy_variableTable hx

theorem tidy_environmentTable {environment : List (String × String)}
    {table : List (String × Setting)} (h : environmentTable library environment = .ok table) :
    TidyTable table := by
  rw [environmentTable_eq] at h
  obtain ⟨tables, htables, rfl⟩ := map_eq_ok_iff.1 h
  exact hlibrary.tidy_stack (hlibrary.tidy_variableTables htables)

/-- A key has the value of the last variable that sets it. -/
theorem inside?_environmentTable {environment : List (String × String)}
    {table : List (String × Setting)} {name key : String}
    (h : environmentTable library environment = .ok table)
    (hdirect : ∀ x ∈ environment, ∀ path v, library.keyPath? x.1 = some path →
      library.value x.2 = .ok v → Direct name key path v) :
    inside? name key table = environment.reverse.findSome? (library.setting? name key) := by
  rw [environmentTable_eq] at h
  obtain ⟨tables, htables, rfl⟩ := map_eq_ok_iff.1 h
  have hregular : ∀ table ∈ tables, Regular name key table := by
    intro table htable
    obtain ⟨y, hy, htable⟩ := mem_of_mapM_eq_ok htables table htable
    obtain ⟨x, hx, hpath⟩ := List.mem_filterMap.1 hy
    obtain ⟨path, hsome, rfl⟩ := Option.map_eq_some_iff.1 hpath
    obtain ⟨v, hv, rfl⟩ := map_eq_ok_iff.1 htable
    exact regular_nested (hdirect x hx path v hsome hv)
  rw [hlibrary.inside?_stack (hlibrary.tidy_variableTables htables) hregular,
    findSome?_inside? htables hdirect]

/-- A variable that can be read changes its own key only. What is wrong in the environment stays what
it was. -/
theorem environmentTable_insert (before after : List (String × String)) {name text k : String}
    {path : List String} {v : Setting} (hpath : library.keyPath? name = some (k :: path))
    (hv : library.value text = .ok v) :
    (∃ e, environmentTable library (before ++ (name, text) :: after) = .error e ∧
      environmentTable library (before ++ after) = .error e) ∨
    ∃ table table', environmentTable library (before ++ (name, text) :: after) = .ok table ∧
      environmentTable library (before ++ after) = .ok table' ∧
      ∀ key, key ≠ k → lookup? key table = lookup? key table' := by
  have hset : variableTable library (k :: path, text) = .ok (nested (k :: path) v) := by
    rw [variableTable, hv]
    rfl
  have hwith : settingVariables library (before ++ (name, text) :: after) =
      settingVariables library before ++ (k :: path, text) :: settingVariables library after := by
    simp [settingVariables, hpath]
  have hwithout : settingVariables library (before ++ after) =
      settingVariables library before ++ settingVariables library after := by
    simp [settingVariables]
  rw [environmentTable_eq, environmentTable_eq, hwith, hwithout, List.mapM_append,
    List.mapM_append, List.mapM_cons, hset]
  cases hbefore : (settingVariables library before).mapM (variableTable library) with
  | error e => exact .inl ⟨e, rfl, rfl⟩
  | ok earlier =>
    cases hafter : (settingVariables library after).mapM (variableTable library) with
    | error e => exact .inl ⟨e, rfl, rfl⟩
    | ok later =>
      refine .inr ⟨_, _, rfl, rfl, fun key hkey => ?_⟩
      exact hlibrary.lookup?_stack_insert (tidyTable_nested (hlibrary.tidy_of_value hv) _)
        (hlibrary.tidy_variableTables hafter) (lookup?_nested_of_ne hkey path v)

end Library.Documented

end IdlModel.Config

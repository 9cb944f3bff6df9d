/-!
# Settings

Configuration values of every kind that a file or the environment can give, and the rule by which
one layer of configuration covers another: tables are joined key by key, and any other value takes
the place of the one below it. A table of a file may also stand for a value that it holds under a
reserved key.
-/

namespace IdlModel

/-- A configuration value. -/
inductive Setting where
  | bool (value : Bool)
  | integer (value : Int)
  /-- A number with a fraction or an exponent, as it is written. -/
  | float (literal : String)
  | character (value : Char)
  | text (value : String)
  | list (items : List Setting)
  | table (entries : List (String × Setting))
  deriving Inhabited, Repr

namespace Setting

/-- The value of a key in a table: the first entry with that key. -/
def lookup? (key : String) : List (String × Setting) → Option Setting
  | [] => none
  | (k, v) :: entries => if k = key then some v else lookup? key entries

/-- The entries with the value of one key changed; a key that is not there comes last. -/
def update (key : String) (change : Option Setting → Setting) :
    List (String × Setting) → List (String × Setting)
  | [] => [(key, change none)]
  | (k, v) :: entries =>
    if k = key then (k, change (some v)) :: entries else (k, v) :: update key change entries

mutual

/-- A value over another one, or over nothing. -/
def above : Setting → Option Setting → Setting
  | .table entries, some (.table below) => .table (entriesAbove entries below)
  | v, _ => v

/-- The entries of a table over those of another. -/
def entriesAbove : List (String × Setting) → List (String × Setting) → List (String × Setting)
  | [], below => below
  | (k, v) :: entries, below => entriesAbove entries (update k (above v) below)

end

/-! ## Tables that stand for a value -/

/-- The key of the value that a table stands for. -/
def valueKey : String := "___figment_value_value"

/-- The key of the number of the source that such a value comes from. No value in a file is such a
number. -/
def sourceKey : String := "___figment_value_id"

mutual

/-- A value in which the tables that stand for another value are replaced by it; none if one of
them names a source. -/
def unwrap? : Setting → Option Setting
  | .list items => .list <$> unwrapItems? items
  | .table entries => do
    let entries ← unwrapEntries? entries
    if (lookup? sourceKey entries).isSome then none
    else some ((lookup? valueKey entries).getD (.table entries))
  | v => some v

/-- The items of a list, each with such tables replaced. -/
def unwrapItems? : List Setting → Option (List Setting)
  | [] => some []
  | v :: items => do
    let v ← unwrap? v
    let items ← unwrapItems? items
    some (v :: items)

/-- The entries of a table, each with such tables replaced. -/
def unwrapEntries? : List (String × Setting) → Option (List (String × Setting))
  | [] => some []
  | (k, v) :: entries => do
    let v ← unwrap? v
    let entries ← unwrapEntries? entries
    some ((k, v) :: entries)

end

theorem lookup?_update (key k : String) (change : Option Setting → Setting)
    (entries : List (String × Setting)) :
    lookup? key (update k change entries) =
      if key = k then some (change (lookup? k entries)) else lookup? key entries := by
  induction entries with
  | nil => by_cases h : key = k <;> simp [update, lookup?, h, eq_comm]
  | cons e entries ih =>
    obtain ⟨k', v⟩ := e
    rw [update]
    by_cases h' : k' = k
    · by_cases h : key = k <;> simp [lookup?, h', h, eq_comm]
    · by_cases h : key = k
      · subst h
        simp [lookup?, h', ih]
      · by_cases hk : k' = key <;> simp [lookup?, h', hk, ih, h]

end Setting

end IdlModel

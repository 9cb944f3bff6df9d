import IdlModel.Json.Basic

/-!
# Validation against a schema

What the keywords of JSON Schema say about a value, in the dialect of draft 2020-12, as far as the
schema of documents uses them. A schema is an object each of whose members is a keyword with its
argument; the value is valid if all of them say so. A keyword that is only about objects or only
about arrays says yes to all other values, and one that is unknown or that merely annotates says yes
to everything. References lead to the definitions of the whole schema, `root`.

Since references may lead anywhere, `assess` is given a number of schemas that may be applied inside
one another, and has no verdict if that is not enough. More of them do not change a verdict
(`assess_mono`), so it does not matter which number is given, and a value is valid
(`Json.ValidAgainst`) if there is one that is enough to say so.
-/

namespace IdlModel.Schema

/-! ## Verdicts -/

/-- The verdicts on some things, all of which there have to be, taken together. -/
def together {α : Type} (judge : List Bool → Bool) (as : List α) (verdict : α → Option Bool) :
    Option Bool :=
  (as.mapM verdict).map judge

/-- Are all of them valid? -/
def every {α : Type} : List α → (α → Option Bool) → Option Bool :=
  together (·.all id)

/-- Is exactly one of them valid? -/
def exactlyOne {α : Type} : List α → (α → Option Bool) → Option Bool :=
  together (·.count true == 1)

/-! ## Keywords -/

/-- Is there nothing behind the point? -/
def isWhole : Json.Number → Bool
  | .integer _ => true
  | .float x => x.floor == x

/-- The names of the types of a value. A whole number is an integer, however it is written. -/
def typeNames : Json → List String
  | .null => ["null"]
  | .bool _ => ["boolean"]
  | .number n => "number" :: if isWhole n then ["integer"] else []
  | .string _ => ["string"]
  | .array _ => ["array"]
  | .object _ => ["object"]

/-- Does the value have the type of this name? -/
def hasType (v : Json) : Json → Bool
  | .string name => (typeNames v).contains name
  | _ => false

/-- `type`: the value has the type, or one of the types. -/
def typed (argument v : Json) : Option Bool :=
  match argument with
  | .string _ => some (hasType v argument)
  | .array names => some (names.any (hasType v))
  | _ => none

/-- `const`: the value is this one. Other constants than strings do not occur. -/
def constant (argument v : Json) : Option Bool :=
  match argument, v with
  | .string s, .string t => some (t == s)
  | .string _, _ => some false
  | _, _ => none

/-- Does a member of one of these have the key? -/
def hasKey (ms : List (String × Json)) : Json → Bool
  | .string key => (ms.map Prod.fst).contains key
  | _ => false

/-- `required`: an object has members with these keys. -/
def required (argument v : Json) : Option Bool :=
  match argument, v with
  | .array keys, .object ms => some (keys.all (hasKey ms))
  | .array _, _ => some true
  | _, _ => none

/-- `properties`: the members of an object are valid against the schemas that there are for their
keys. -/
def properties (apply : Json → Json → Option Bool) (argument v : Json) : Option Bool :=
  match argument, v with
  | .object schemas, .object ms => every ms fun m =>
    match schemas.lookup m.1 with
    | some schema => apply schema m.2
    | none => some true
  | .object _, _ => some true
  | _, _ => none

/-- `items`: the items of an array are valid against the schema. -/
def items (apply : Json → Json → Option Bool) (schema v : Json) : Option Bool :=
  match v with
  | .array vs => every vs (apply schema)
  | _ => some true

/-- `oneOf`: the value is valid against exactly one of the schemas. -/
def oneOf (apply : Json → Json → Option Bool) (argument v : Json) : Option Bool :=
  match argument with
  | .array schemas => exactlyOne schemas (apply · v)
  | _ => none

/-- The definitions of a schema. -/
def definitionsOf (root : Json) : List (String × Json) :=
  match root with
  | .object ms => match ms.lookup "$defs" with
    | some (.object definitions) => definitions
    | _ => []
  | _ => []

/-- The definition that is referred to. -/
def resolve? (root : Json) (reference : String) : Option Json :=
  ((definitionsOf root).find? fun d => "#/$defs/" ++ d.1 == reference).map Prod.snd

/-- `$ref`: the value is valid against the definition that is referred to. -/
def referred (root : Json) (apply : Json → Json → Option Bool) (argument v : Json) : Option Bool :=
  match argument with
  | .string reference => (resolve? root reference).bind (apply · v)
  | _ => none

/-- What a keyword with its argument says about a value, given how schemas apply to values. -/
def keyword (root : Json) (apply : Json → Json → Option Bool) (name : String) (argument v : Json) :
    Option Bool :=
  match name with
  | "type" => typed argument v
  | "const" => constant argument v
  | "required" => required argument v
  | "properties" => properties apply argument v
  | "items" => items apply argument v
  | "oneOf" => oneOf apply argument v
  | "$ref" => referred root apply argument v
  | _ => some true

/-- The verdict of a schema on a value, if no more schemas than this apply inside one another. -/
def assess (root : Json) : Nat → Json → Json → Option Bool
  | _ + 1, .bool b, _ => some b
  | n + 1, .object ms, v => every ms fun m => keyword root (assess root n) m.1 m.2 v
  | _, _, _ => none

/-! ## More schemas inside one another -/

section Mono

variable {α : Type} {f g : α → Option Bool} {as : List α}

theorem mapM_mono (h : ∀ a b, f a = some b → g a = some b) {bs : List Bool}
    (hbs : as.mapM f = some bs) : as.mapM g = some bs := by
  induction as generalizing bs with
  | nil => exact hbs
  | cons a as ih =>
    rw [List.mapM_cons] at hbs ⊢
    obtain ⟨b, hb, hbs⟩ := Option.bind_eq_some_iff.1 hbs
    obtain ⟨bs', hbs', hbs⟩ := Option.bind_eq_some_iff.1 hbs
    rw [h a b hb, ih hbs']
    exact hbs

theorem together_mono (h : ∀ a b, f a = some b → g a = some b) {judge : List Bool → Bool} {b : Bool}
    (hb : together judge as f = some b) : together judge as g = some b := by
  obtain ⟨bs, hbs, rfl⟩ := Option.map_eq_some_iff.1 hb
  rw [together, mapM_mono h hbs]
  rfl

variable {apply apply' : Json → Json → Option Bool} {root argument v : Json} {b : Bool}

theorem properties_mono (h : ∀ s w b, apply s w = some b → apply' s w = some b)
    (hb : properties apply argument v = some b) : properties apply' argument v = some b := by
  revert hb
  unfold properties
  split
  · refine together_mono fun m b => ?_
    split
    · exact h _ m.2 b
    · exact id
  · exact id
  · exact id

theorem items_mono (h : ∀ s w b, apply s w = some b → apply' s w = some b)
    (hb : items apply argument v = some b) : items apply' argument v = some b := by
  revert hb
  unfold items
  split
  · exact together_mono (h argument)
  · exact id

theorem oneOf_mono (h : ∀ s w b, apply s w = some b → apply' s w = some b)
    (hb : oneOf apply argument v = some b) : oneOf apply' argument v = some b := by
  revert hb
  unfold oneOf
  split
  · exact together_mono fun s => h s v
  · exact id

theorem referred_mono (h : ∀ s w b, apply s w = some b → apply' s w = some b)
    (hb : referred root apply argument v = some b) :
    referred root apply' argument v = some b := by
  revert hb
  unfold referred
  split
  · intro hb
    obtain ⟨s, hs, hb⟩ := Option.bind_eq_some_iff.1 hb
    rw [hs]
    exact h s v b hb
  · exact id

theorem keyword_mono (h : ∀ s w b, apply s w = some b → apply' s w = some b) {name : String}
    (hb : keyword root apply name argument v = some b) :
    keyword root apply' name argument v = some b := by
  revert hb
  unfold keyword
  split
  · exact id
  · exact id
  · exact id
  · exact properties_mono h
  · exact items_mono h
  · exact oneOf_mono h
  · exact referred_mono h
  · exact id

theorem assess_succ (root : Json) (n : Nat) :
    ∀ s w b, assess root n s w = some b → assess root (n + 1) s w = some b := by
  induction n with
  | zero => exact fun s w b hb => nomatch hb
  | succ n ih =>
    intro s w b hb
    cases s with
    | bool _ => exact hb
    | object ms => exact together_mono (fun m b => keyword_mono ih) hb
    | _ => cases hb

/-- A verdict stays the same if more schemas may apply inside one another. -/
theorem assess_mono {n m : Nat} (hb : assess root n argument v = some b) (h : n ≤ m) :
    assess root m argument v = some b := by
  induction h with
  | refl => exact hb
  | step _ ih => exact assess_succ root _ argument v b ih

end Mono

end Schema

/-- The value is valid against the schema. -/
def Json.ValidAgainst (v schema : Json) : Prop :=
  ∃ n, Schema.assess schema n schema v = some true

/-- There is one verdict. -/
theorem Json.validAgainst_iff {v schema : Json} {n : Nat} {b : Bool}
    (h : Schema.assess schema n schema v = some b) : v.ValidAgainst schema ↔ b = true := by
  constructor
  · rintro ⟨m, hm⟩
    have h' := Schema.assess_mono h (Nat.le_max_left n m)
    rw [Schema.assess_mono hm (Nat.le_max_right n m)] at h'
    exact (Option.some.inj h').symm
  · rintro rfl
    exact ⟨n, h⟩

end IdlModel

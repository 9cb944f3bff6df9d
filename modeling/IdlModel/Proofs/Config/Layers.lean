import IdlModel.Proofs.Config.Sources
import IdlModel.Proofs.Config.Standard

/-!
# Layers of configuration

All sources are tidy, so a key has the value of the highest layer that gives it one, and the
configuration is a function of two such values (`Config.Library.Documented.load_eq_ofWinners`). What
lower layers say of the two keys does not matter, not even if it is of the wrong kind, and neither do
other keys (`Config.Library.Documented.load_insert`), as long as all sources can be read and no file
has a reserved key. All this follows from what the libraries document.
-/

namespace IdlModel

namespace Format

theorem eq_name_of_ofName? {word : String} {f : Format} (h : ofName? word = some f) :
    word = f.name := by
  rw [ofName?.eq_def] at h
  split at h <;> cases h <;> rfl

theorem name_mem_all (f : Format) : f.name ∈ all.map name := by
  cases f <;> decide

end Format

namespace Config

open Setting (HasSection Regular TidyTable inside? lookup?)

variable {library : Library} {host : Host} {explicit : Option String} {s : Sources}

/-! ## What the configuration depends on -/

theorem sectionValue_of_hasSection {α : Type} {name key : String} {default : α}
    {read : List String → Setting → Except ConfigError α} {table : List (String × Setting)}
    (h : HasSection name table) :
    sectionValue name key default read (lookup? name table) =
      match inside? name key table with
      | some v => read [name, key] v
      | none => .ok default := by
  obtain hv | ⟨entries, hv⟩ := h.cases
  · rw [inside?, hv]
    rfl
  · rw [inside?, hv]
    rfl

/-- The configuration of two values. -/
def ofWinners (library : Library) (strict format : Setting) : Except ConfigError Config := do
  let strictFields ← library.bool ["loader", "strict_fields"] strict
  let format ← toFormat library ["output", "format"] format
  return { strictFields, format }

/-- The value of a key in the highest layer that gives it one. -/
def winner? (name key : String) (layers : List (List (String × Setting))) : Option Setting :=
  layers.reverse.findSome? (inside? name key)

/-- Both keys are where they should be, if they are there. -/
structure RegularLayer (layer : List (String × Setting)) : Prop where
  loader : Regular "loader" "strict_fields" layer
  output : Regular "output" "format" layer

instance (layer : List (String × Setting)) : Decidable (RegularLayer layer) :=
  decidable_of_iff (Regular "loader" "strict_fields" layer ∧ Regular "output" "format" layer)
    ⟨fun h => ⟨h.1, h.2⟩, fun h => ⟨h.loader, h.output⟩⟩

/-- No file has a reserved key. -/
def Sources.Unreserved (s : Sources) : Prop :=
  ∀ table ∈ [s.user, s.project, s.asked], Setting.entriesUnreserved table

instance (s : Sources) : Decidable s.Unreserved :=
  List.decidableBAll _ _

/-- The built-in values are below all layers, so a key always has a value. -/
theorem exists_winner? (s : Sources) :
    (∃ v, winner? "loader" "strict_fields" s.layers = some v) ∧
      ∃ v, winner? "output" "format" s.layers = some v := by
  simp only [winner?, Sources.layers, ← Option.isSome_iff_exists, List.findSome?_isSome_iff]
  exact ⟨⟨toTable {}, by simp, rfl⟩, ⟨toTable {}, by simp, rfl⟩⟩

theorem load_of_exists (h : ∀ path, explicit = some path → host.lookup path ≠ .missing) :
    load host explicit library = sources host explicit library >>= ofSources library := by
  cases explicit with
  | none => rfl
  | some path =>
    rw [load]
    simp only [if_neg (h path rfl)]

theorem load_of_missing {path : String} (h : host.lookup path = .missing) :
    load host (some path) library = .error (.missingFile path) := by
  rw [load]
  simp only [if_pos h]
  rfl

theorem load_of_noFile {path : String} (hpath : host.lookup path ≠ .missing)
    (h : (library.search host.toDisk path).isFile = false) :
    load host (some path) library = load host none library := by
  have hsources : sources host (some path) library = sources host none library := by
    simp only [sources, pathTable_of_noFile h]
    rfl
  have hasked : ∀ p, some path = some p → host.lookup p ≠ .missing := by
    rintro p ⟨⟩
    exact hpath
  have hnone : ∀ p, none = some p → host.lookup p ≠ .missing := by
    rintro p ⟨⟩
  rw [load_of_exists hasked, load_of_exists hnone, hsources]

namespace Library.Documented

variable (hlibrary : library.Documented)

include hlibrary

theorem toFormat_eq_ok_iff {path : List String} {v : Setting} {f : Format} :
    toFormat library path v = .ok f ↔ v = .text f.name := by
  rw [toFormat, bind_eq_ok_iff]
  constructor
  · rintro ⟨word, hword, h⟩
    obtain ⟨rfl, -⟩ := hlibrary.word_eq_ok_iff.1 hword
    split at h
    · next hf =>
      cases h
      rw [Format.eq_name_of_ofName? hf]
    · cases h
  · rintro rfl
    refine ⟨f.name, hlibrary.word_eq_ok_iff.2 ⟨rfl, f.name_mem_all⟩, ?_⟩
    rw [Format.ofName?_name]
    rfl

theorem ofWinners_eq_ok_iff {strict format : Setting} {c : Config} :
    ofWinners library strict format = .ok c ↔
      strict = .bool c.strictFields ∧ format = .text c.format.name := by
  rw [ofWinners, bind_eq_ok_iff]
  simp only [bind_eq_ok_iff, hlibrary.bool_eq_ok_iff, hlibrary.toFormat_eq_ok_iff]
  constructor
  · rintro ⟨b, rfl, f, rfl, h⟩
    cases h
    exact ⟨rfl, rfl⟩
  · rintro ⟨rfl, rfl⟩
    exact ⟨_, rfl, _, rfl, rfl⟩

theorem taken?_of_unreserved (h : s.Unreserved) : s.taken? library = some s := by
  simp only [Sources.Unreserved, List.forall_mem_cons] at h
  obtain ⟨huser, hproject, hasked, -⟩ := h
  simp only [Sources.taken?, hlibrary.take?_of_unreserved huser,
    hlibrary.take?_of_unreserved hproject, hlibrary.take?_of_unreserved hasked]
  rfl

theorem ofSources_eq_ofWinners (h : sources host explicit library = .ok s)
    (hunreserved : s.Unreserved) (hregular : ∀ layer ∈ s.layers, RegularLayer layer)
    {strict format : Setting} (hstrict : winner? "loader" "strict_fields" s.layers = some strict)
    (hformat : winner? "output" "format" s.layers = some format) :
    ofSources library s = ofWinners library strict format := by
  have htidy := hlibrary.tidy_layers h
  have hloader (l) (hl : l ∈ s.layers) := (hregular l hl).loader
  have houtput (l) (hl : l ∈ s.layers) := (hregular l hl).output
  have hloaders := hlibrary.hasSection_stack htidy fun l hl => (hloader l hl).hasSection
  have houtputs := hlibrary.hasSection_stack htidy fun l hl => (houtput l hl).hasSection
  rw [winner?] at hstrict hformat
  simp only [ofSources, hlibrary.taken?_of_unreserved hunreserved]
  rw [ofTable, ofWinners, sectionValue_of_hasSection hloaders, sectionValue_of_hasSection houtputs,
    hlibrary.inside?_stack htidy hloader, hlibrary.inside?_stack htidy houtput, hstrict, hformat]

theorem load_eq_ofWinners (hasked : ∀ path, explicit = some path → host.lookup path ≠ .missing)
    (h : sources host explicit library = .ok s) (hunreserved : s.Unreserved)
    (hregular : ∀ layer ∈ s.layers, RegularLayer layer) {strict format : Setting}
    (hstrict : winner? "loader" "strict_fields" s.layers = some strict)
    (hformat : winner? "output" "format" s.layers = some format) :
    load host explicit library = ofWinners library strict format := by
  rw [load_of_exists hasked, h]
  exact hlibrary.ofSources_eq_ofWinners h hunreserved hregular hstrict hformat

/-! ## What it does not depend on -/

/-- The highest layer counts only by its two sections. -/
theorem ofTable_stack_congr (lower : List (List (String × Setting)))
    {layer layer' : List (String × Setting)} (htidy : TidyTable layer) (htidy' : TidyTable layer')
    (hloader : lookup? "loader" layer = lookup? "loader" layer')
    (houtput : lookup? "output" layer = lookup? "output" layer') :
    ofTable library (library.stack (lower ++ [layer])) =
      ofTable library (library.stack (lower ++ [layer'])) := by
  rw [stack_concat, stack_concat, ofTable, ofTable,
    hlibrary.lookup?_join_congr htidy htidy' hloader rfl,
    hlibrary.lookup?_join_congr htidy htidy' houtput rfl]

theorem ofSources_congr (s : Sources) {layer layer' : List (String × Setting)}
    (htidy : TidyTable layer) (htidy' : TidyTable layer')
    (hloader : lookup? "loader" layer = lookup? "loader" layer')
    (houtput : lookup? "output" layer = lookup? "output" layer') :
    ofSources library { s with environment := layer } =
      ofSources library { s with environment := layer' } := by
  simp only [ofSources, Sources.taken?]
  cases library.take? s.user with
  | none => rfl
  | some user =>
    cases library.take? s.project with
    | none => rfl
    | some project =>
      cases library.take? s.asked with
      | none => rfl
      | some asked =>
        exact hlibrary.ofTable_stack_congr [toTable {}, user, project, asked] htidy htidy' hloader
          houtput

/-- A variable of another name does not matter as long as its text can be read. -/
theorem load_insert {before after : List (String × String)} {name text k : String}
    {path : List String} {v : Setting} (hpath : library.keyPath? name = some (k :: path))
    (hv : library.value text = .ok v) (hloader : k ≠ "loader") (houtput : k ≠ "output") :
    load { host with environment := before ++ (name, text) :: after } explicit library =
      load { host with environment := before ++ after } explicit library := by
  by_cases hasked : ∀ p, explicit = some p → host.lookup p ≠ .missing
  · have hload (environment : List (String × String)) :
        load { host with environment } explicit library =
          sources { host with environment } explicit library >>= ofSources library :=
      load_of_exists hasked
    rw [hload, hload]
    obtain ⟨e, hwith, hwithout⟩ | ⟨s, layer, layer', hwith, hwithout, htidy, htidy', hagree⟩ :=
      hlibrary.sources_insert host explicit before after hpath hv
    · rw [hwith, hwithout]
    · rw [hwith, hwithout]
      exact hlibrary.ofSources_congr s htidy htidy' (hagree _ hloader.symm) (hagree _ houtput.symm)
  · push Not at hasked
    obtain ⟨p, rfl, hp⟩ := hasked
    have hload (environment : List (String × String)) :
        load { host with environment } (some p) library = .error (.missingFile p) :=
      load_of_missing hp
    rw [hload, hload]

end Library.Documented

/-! ## Loading -/

/-- The sources can be read, no file has a reserved key, and each layer has the two keys where they
should be. -/
structure WellFormed (library : Library) (host : Host) (explicit : Option String) : Prop where
  readable : Readable library host explicit
  unreserved : ∀ s, sources host explicit library = .ok s → s.Unreserved
  regular : ∀ s, sources host explicit library = .ok s → ∀ layer ∈ s.layers, RegularLayer layer

/-- The configuration on a machine whose sources can be read is made up of two values, each from the
highest source that sets it. It is there exactly if they are a Boolean and the name of a format; other
machines with the same two values have the same configuration, or fail alike. One more variable
changes nothing if it sets another key and can be read. The file that is asked for must exist, but
where no file is found for it, it counts as nothing. -/
theorem load_layered (hlibrary : library.Documented) (h : WellFormed library host explicit) :
    ∃ s strict format, sources host explicit library = .ok s ∧ s.SetBy library host explicit ∧
      winner? "loader" "strict_fields" s.layers = some strict ∧
      winner? "output" "format" s.layers = some format ∧
      (∀ c, load host explicit library = .ok c ↔
        strict = .bool c.strictFields ∧ format = .text c.format.name) ∧
      (∀ host' explicit' s', WellFormed library host' explicit' →
        sources host' explicit' library = .ok s' →
        winner? "loader" "strict_fields" s'.layers = some strict →
        winner? "output" "format" s'.layers = some format →
        load host' explicit' library = load host explicit library) ∧
      (∀ before after name text k path v, host.environment = before ++ after →
        library.keyPath? name = some (k :: path) → library.value text = .ok v →
        k ≠ "loader" → k ≠ "output" →
        load { host with environment := before ++ (name, text) :: after } explicit library =
          load host explicit library) ∧
      (∀ path, host.lookup path = .missing →
        load host (some path) library = .error (.missingFile path)) ∧
      ∀ path, host.lookup path ≠ .missing → (library.search host.toDisk path).isFile = false →
        load host (some path) library = load host none library := by
  obtain ⟨s, hs⟩ := exists_sources h.readable
  obtain ⟨⟨strict, hstrict⟩, ⟨format, hformat⟩⟩ := exists_winner? s
  have hload := hlibrary.load_eq_ofWinners h.readable.asked hs (h.unreserved s hs)
    (h.regular s hs) hstrict hformat
  refine ⟨s, strict, format, hs, hlibrary.setBy_of_sources hs, hstrict, hformat, fun c => ?_, ?_, ?_,
    fun path => load_of_missing, fun path => load_of_noFile⟩
  · rw [hload, hlibrary.ofWinners_eq_ok_iff]
  · intro host' explicit' s' h' hs' hstrict' hformat'
    rw [hload, hlibrary.load_eq_ofWinners h'.readable.asked hs' (h'.unreserved s' hs')
      (h'.regular s' hs') hstrict' hformat']
  · intro before after name text k path v henvironment hpath hv hloader houtput
    rw [hlibrary.load_insert hpath hv hloader houtput, ← henvironment]

/-- A machine where the user, the project and the environment have something to say. The file of the
project is above the working directory, where there is only a directory of that name, and what the
user wants is no format, but the environment covers it. -/
def workshop : Host where
  lookup path :=
    if path = "/home/ada/.config/thrifty/config.toml" then
      .file "[output]\nformat = 3\ncolour = true\n"
    else if path = "/home/ada/.thrifty/config.toml" then .file "loader.strict_fields = true\n"
    else if path = projectFile then .directory
    else .missing
  workingDirectory := some ["home", "ada", "tools"]
  environment := [("THRIFTY_LOG", "debug"), ("THRIFTY_OUTPUT__FORMAT", "summary")]
  accountHome := some "/home/ada"

theorem load_layered_workshop :
    WellFormed .standard workshop none ∧
      load workshop none = .ok { strictFields := true, format := .summary } := by
  have hreadable : Readable .standard workshop none :=
    ⟨(fun _ h => nomatch h), by decide +kernel, by decide +kernel⟩
  have hall : (sources workshop none .standard).toOption.all fun s =>
      s.Unreserved ∧ ∀ layer ∈ s.layers, RegularLayer layer := by
    decide +kernel
  have hformed : WellFormed .standard workshop none := by
    refine ⟨hreadable, fun s hs => ?_, fun s hs => ?_⟩ <;> rw [hs] at hall
    · exact (of_decide_eq_true hall).1
    · exact (of_decide_eq_true hall).2
  obtain ⟨s, strict, format, hs, -, hstrict, hformat, hload, -⟩ :=
    load_layered Library.documented_standard hformed
  refine ⟨hformed, (hload _).2 ⟨?_, ?_⟩⟩
  · have hvalue : ((sources workshop none .standard).toOption.bind
        fun s => winner? "loader" "strict_fields" s.layers).map (toBool []) = some (.ok true) := by
      decide +kernel
    rw [hs, Except.toOption, Option.bind_some, hstrict, Option.map_some] at hvalue
    exact toBool_eq_ok_iff.1 (Option.some.inj hvalue)
  · have hvalue : ((sources workshop none .standard).toOption.bind
        fun s => winner? "output" "format" s.layers).map (toFormat .standard []) =
          some (.ok .summary) := by
      decide +kernel
    rw [hs, Except.toOption, Option.bind_some, hformat, Option.map_some] at hvalue
    exact Library.documented_standard.toFormat_eq_ok_iff.1 (Option.some.inj hvalue)

/-- Keys of other names do matter in two ways: a text that cannot be cut stops the program, and a
reserved key takes the place of the keys beside it. -/
theorem load_otherKeys :
    let plain : Host := { lookup := fun _ => .missing, environment := [] }
    let written (text : String) : Host :=
      { lookup := fun path => if path = projectFile then .file text else .missing
        environment := [] }
    variablePath? "THRIFTY_LOG" = some ["log"] ∧
      load { plain with environment := [("THRIFTY_LOG", "\"é\\t\"")] } none =
        .error .cutCharacter ∧
      load plain none = .ok {} ∧
      load (written "[loader]\nstrict_fields = true\n___figment_value_value = \x7b\x7d\n") none =
        .ok {} ∧
      load (written "[loader]\nstrict_fields = true\n") none = .ok { strictFields := true } := by
  decide +kernel

end Config

end IdlModel

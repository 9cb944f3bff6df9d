import IdlModel.Proofs.Config.Environment

/-!
# Sources of configuration

The sources can be read if every file that is found is TOML and every text of a variable that counts
is a value (`Config.exists_sources`). Then they are what the files and the variables set
(`Config.Library.Documented.setBy_of_sources`), and they are tidy
(`Config.Library.Documented.tidy_layers`). A variable that can be read leaves all but its own key
alone (`Config.Library.Documented.sources_insert`).
-/

namespace IdlModel.Config

open Setting (TidyTable inside? lookup?)

variable {library : Library} {host : Host} {explicit : Option String} {s : Sources}

/-! ## Reading -/

/-- A table comes from a file, or there is none. -/
theorem fileTable_eq_ok_iff {entry : FileEntry} {table : List (String × Setting)} :
    fileTable library entry = .ok table ↔
      (∃ text, entry = .file text ∧ library.toml? text = some table) ∨
        entry.isFile = false ∧ table = [] := by
  cases entry with
  | file text =>
    cases h : library.toml? text <;> simp [fileTable, FileEntry.isFile, h]
  | _ => simp [fileTable, FileEntry.isFile, eq_comm]

/-- What the sources are, if they can all be read. -/
theorem sources_eq_ok_iff : sources host explicit library = .ok s ↔
    environmentTable library host.environment = .ok s.environment ∧
      pathTable library host.toDisk (userFile? library host) = .ok s.user ∧
      pathTable library host.toDisk (some projectFile) = .ok s.project ∧
      pathTable library host.toDisk explicit = .ok s.asked := by
  simp only [sources, bind_eq_ok_iff]
  constructor
  · rintro ⟨environment, he, user, hu, project, hp, asked, ha, h⟩
    cases h
    exact ⟨he, hu, hp, ha⟩
  · rintro ⟨he, hu, hp, ha⟩
    exact ⟨s.environment, he, s.user, hu, s.project, hp, s.asked, ha, rfl⟩

/-- Is what a path leads to in TOML, if it is a file? -/
def Library.isTomlIfFile (library : Library) : FileEntry → Bool
  | .file text => (library.toml? text).isSome
  | .unreadable => false
  | .missing | .directory => true

/-- The paths of the files that are read. -/
def filePaths (library : Library) (host : Host) (explicit : Option String) : List String :=
  (userFile? library host).toList ++ [projectFile] ++ explicit.toList

/-- A file that is asked for exists, what is found for the paths that lead anywhere is in TOML or no
file, and the text of every variable that counts can be read. -/
structure Readable (library : Library) (host : Host) (explicit : Option String) : Prop where
  asked : ∀ path, explicit = some path → host.lookup path ≠ .missing
  files : ∀ path ∈ filePaths library host explicit, host.lookup path ≠ .missing →
    library.isTomlIfFile (library.search host.toDisk path)
  texts : ∀ x ∈ host.environment, (library.keyPath? x.1).isSome → (library.value x.2).isOk

/-- A table is what the file of a path sets: what is written there if the path leads to a file, and
nothing if it leads nowhere. -/
structure Library.SetByFile (library : Library) (disk : Disk) (path : String)
    (table : List (String × Setting)) : Prop where
  of_file : ∀ text, disk.workingDirectory.isSome → disk.lookup path = .file text →
    library.toml? text = some table
  of_missing : disk.lookup path = .missing → table = []

/-- The sources are what the files and the variables of a machine set. Of several variables the last
one that sets a key counts. -/
structure Sources.SetBy (s : Sources) (library : Library) (host : Host) (explicit : Option String) :
    Prop where
  user : ∀ path, userFile? library host = some path →
    library.SetByFile host.toDisk path s.user
  project : library.SetByFile host.toDisk projectFile s.project
  asked : ∀ path, explicit = some path → library.SetByFile host.toDisk path s.asked
  environment : ∀ name key, (∀ x ∈ host.environment, ∀ path v,
      library.keyPath? x.1 = some path → library.value x.2 = .ok v → Direct name key path v) →
    inside? name key s.environment = host.environment.reverse.findSome? (library.setting? name key)

theorem exists_fileTable {entry : FileEntry} (h : library.isTomlIfFile entry) :
    ∃ table, fileTable library entry = .ok table := by
  cases entry with
  | file text =>
    obtain ⟨table, htable⟩ := Option.isSome_iff_exists.1 h
    exact ⟨table, fileTable_eq_ok_iff.2 (.inl ⟨text, rfl, htable⟩)⟩
  | missing | directory => exact ⟨[], rfl⟩
  | unreadable => cases h

theorem exists_pathTable (disk : Disk) (path? : Option String)
    (h : ∀ path, path? = some path → disk.lookup path ≠ .missing →
      library.isTomlIfFile (library.search disk path)) :
    ∃ table, pathTable library disk path? = .ok table := by
  cases path? with
  | none => exact ⟨[], rfl⟩
  | some path =>
    rw [pathTable]
    split
    · exact ⟨[], rfl⟩
    · next hpath => exact exists_fileTable (h path rfl hpath)

theorem exists_sources (h : Readable library host explicit) :
    ∃ s, sources host explicit library = .ok s := by
  obtain ⟨environment, he⟩ := exists_environmentTable h.texts
  obtain ⟨user, hu⟩ := exists_pathTable host.toDisk (userFile? library host)
    fun path hpath => h.files path (by simp [filePaths, hpath])
  obtain ⟨project, hp⟩ := exists_pathTable host.toDisk (some projectFile)
    fun path hpath => h.files path (by cases hpath; simp [filePaths])
  obtain ⟨asked, ha⟩ := exists_pathTable host.toDisk explicit
    fun path hpath => h.files path (by simp [filePaths, hpath])
  exact ⟨⟨user, project, asked, environment⟩, sources_eq_ok_iff.2 ⟨he, hu, hp, ha⟩⟩

theorem pathTable_of_noFile {disk : Disk} {path : String}
    (h : (library.search disk path).isFile = false) :
    pathTable library disk (some path) = .ok [] := by
  rw [pathTable]
  split
  · rfl
  · exact fileTable_eq_ok_iff.2 (.inr ⟨h, rfl⟩)

/-! ## What is read -/

theorem tidyTable_toTable (c : Config) : TidyTable c.toTable := by
  have hsection (k : String) {v : Setting} (hv : v.Tidy) : (Setting.table [(k, v)]).Tidy :=
    Setting.tidy_table_iff.2 (Setting.tidyTable_singleton hv)
  refine ⟨by simp [toTable], ?_⟩
  rw [toTable, List.forall_mem_cons, List.forall_mem_singleton]
  exact ⟨hsection _ (.bool _), hsection _ (.text _)⟩

namespace Library.Documented

variable (hlibrary : library.Documented)

include hlibrary

theorem tidy_fileTable {entry : FileEntry} {table : List (String × Setting)}
    (h : fileTable library entry = .ok table) : TidyTable table := by
  obtain ⟨text, -, hread⟩ | ⟨-, rfl⟩ := fileTable_eq_ok_iff.1 h
  · exact hlibrary.tidy_of_toml? hread
  · exact Setting.tidyTable_nil

theorem tidy_pathTable {disk : Disk} {path? : Option String} {table : List (String × Setting)}
    (h : pathTable library disk path? = .ok table) : TidyTable table := by
  cases path? with
  | none =>
    cases h
    exact Setting.tidyTable_nil
  | some path =>
    rw [pathTable] at h
    split at h
    · cases h
      exact Setting.tidyTable_nil
    · exact hlibrary.tidy_fileTable h

theorem tidy_layers (h : sources host explicit library = .ok s) :
    ∀ layer ∈ s.layers, TidyTable layer := by
  obtain ⟨he, hu, hp, ha⟩ := sources_eq_ok_iff.1 h
  simp only [Sources.layers, List.forall_mem_cons]
  exact ⟨tidyTable_toTable {}, hlibrary.tidy_pathTable hu, hlibrary.tidy_pathTable hp,
    hlibrary.tidy_pathTable ha, hlibrary.tidy_environmentTable he, List.forall_mem_nil _⟩

theorem setByFile_of_pathTable {disk : Disk} {path : String} {table : List (String × Setting)}
    (h : pathTable library disk (some path) = .ok table) : library.SetByFile disk path table := by
  refine ⟨fun text hknown hpath => ?_, fun hpath => ?_⟩
  · have hfile : (disk.lookup path).isFile := by rw [hpath]; rfl
    have hthere : disk.lookup path ≠ .missing := by rw [hpath]; exact nofun
    rw [pathTable, if_neg hthere, hlibrary.search_of_isFile hknown hfile, hpath] at h
    obtain ⟨text', htext, hread⟩ | ⟨hnone, -⟩ := fileTable_eq_ok_iff.1 h
    · cases htext
      exact hread
    · cases hnone
  · rw [pathTable, if_pos hpath] at h
    exact (Except.ok.inj h).symm

theorem setBy_of_sources (h : sources host explicit library = .ok s) :
    s.SetBy library host explicit := by
  obtain ⟨henvironment, huser, hproject, hasked⟩ := sources_eq_ok_iff.1 h
  refine ⟨fun path hpath => ?_, hlibrary.setByFile_of_pathTable hproject, fun path hpath => ?_,
    fun name key => hlibrary.inside?_environmentTable henvironment⟩
  · rw [hpath] at huser
    exact hlibrary.setByFile_of_pathTable huser
  · rw [hpath] at hasked
    exact hlibrary.setByFile_of_pathTable hasked

/-- One more variable of another name changes nothing in the files. -/
theorem sources_insert (host : Host) (explicit : Option String)
    (before after : List (String × String)) {name text k : String} {path : List String}
    {v : Setting} (hpath : library.keyPath? name = some (k :: path))
    (hv : library.value text = .ok v) :
    (∃ e,
      sources { host with environment := before ++ (name, text) :: after } explicit library =
        .error e ∧
      sources { host with environment := before ++ after } explicit library = .error e) ∨
    ∃ (s : Sources) (layer layer' : List (String × Setting)),
      sources { host with environment := before ++ (name, text) :: after } explicit library =
        .ok { s with environment := layer } ∧
      sources { host with environment := before ++ after } explicit library =
        .ok { s with environment := layer' } ∧
      TidyTable layer ∧ TidyTable layer' ∧
      ∀ key, key ≠ k → lookup? key layer = lookup? key layer' := by
  have huser : userFile? library { host with environment := before ++ (name, text) :: after } =
      userFile? library { host with environment := before ++ after } := by
    rw [userFile?, userFile?, hlibrary.directory?_insert before after host.accountHome hpath]
  obtain ⟨e, hwith, hwithout⟩ | ⟨layer, layer', hwith, hwithout, hagree⟩ :=
    hlibrary.environmentTable_insert before after hpath hv
  -- the environment is read first, so what is wrong in it hides the files in both runs
  · exact .inl ⟨e, by simp only [sources, hwith]; rfl, by simp only [sources, hwithout]; rfl⟩
  have htidy := hlibrary.tidy_environmentTable hwith
  have htidy' := hlibrary.tidy_environmentTable hwithout
  simp only [sources, hwith, hwithout, huser]
  cases pathTable library host.toDisk
      (userFile? library { host with environment := before ++ after }) with
  | error e => exact .inl ⟨e, rfl, rfl⟩
  | ok user =>
    cases pathTable library host.toDisk (some projectFile) with
    | error e => exact .inl ⟨e, rfl, rfl⟩
    | ok project =>
      cases pathTable library host.toDisk explicit with
      | error e => exact .inl ⟨e, rfl, rfl⟩
      | ok asked =>
        exact .inr ⟨⟨user, project, asked, []⟩, layer, layer', rfl, rfl, htidy, htidy', hagree⟩

end Library.Documented

end IdlModel.Config

import DocComment.Proofs.Knobs
import Mathlib.Data.List.Nodup

/-!
# What layers come to

Files are layered in their order and single values go on top of them in theirs, so it makes no
difference how the two are mixed, and a file that may be missing and is makes none at all. A value
that overrides a knob is what the settings have for it; any other knob has what the last file gives
that gives it anything, or else its default.
-/

namespace DocComment

/-! ## Files and overrides -/

namespace Layer

/-- The file that a layer is. -/
def file? : Layer → Option SettingsFile
  | .file given => some given
  | .value _ _ => none

/-- The path and the value that a layer sets. -/
def override? : Layer → Option (List Step × Setting)
  | .file _ => none
  | .value path given => some (path, given)

end Layer

theorem Assoc.put_of_not_mem {κ α : Type} [DecidableEq κ] {key : κ} {entries : List (κ × α)}
    (h : key ∉ entries.map Prod.fst) (value : α) :
    Assoc.put key value entries = entries ++ [(key, value)] := by
  induction entries with
  | nil => rfl
  | cons entry rest ih =>
    rw [List.map_cons, List.mem_cons, not_or] at h
    rw [Assoc.put, if_neg (Ne.symm h.1), ih h.2, List.cons_append]

namespace Layers

/-- Puts an override on top of others. -/
def override (values : List (List Step × Setting)) (entry : List Step × Setting) :
    List (List Step × Setting) :=
  Assoc.put entry.1 entry.2 values

theorem foldl_add (layers : List Layer) (start : Layers) :
    layers.foldl add start =
      { files := start.files ++ layers.filterMap Layer.file?
        values := (layers.filterMap Layer.override?).foldl override start.values } := by
  induction layers generalizing start with
  | nil => simp
  | cons layer rest ih =>
    rw [List.foldl_cons, ih]
    cases layer <;> simp [add, List.filterMap_cons, Layer.file?, Layer.override?, override]

theorem ofList_eq (layers : List Layer) :
    ofList layers =
      { files := layers.filterMap Layer.file?
        values := (layers.filterMap Layer.override?).foldl override [] } := by
  rw [ofList, foldl_add]
  simp

/-- Overrides at different paths stay in their order. -/
theorem foldl_override {entries start : List (List Step × Setting)}
    (h : ((start ++ entries).map Prod.fst).Nodup) :
    entries.foldl override start = start ++ entries := by
  induction entries generalizing start with
  | nil => simp
  | cons entry rest ih =>
    have hmem : entry.1 ∉ start.map Prod.fst := by
      rw [List.map_append, List.map_cons] at h
      exact fun hm => (List.nodup_append.1 h).2.2 entry.1 hm entry.1 List.mem_cons_self rfl
    rw [List.foldl_cons, override, Assoc.put_of_not_mem hmem, ih, List.append_assoc,
      List.singleton_append]
    rwa [List.append_assoc]

/-- The layers depend on the files and on the overrides, each kind in its order. -/
theorem ofList_congr {left right : List Layer}
    (hfiles : left.filterMap Layer.file? = right.filterMap Layer.file?)
    (hoverrides : left.filterMap Layer.override? = right.filterMap Layer.override?) :
    ofList left = ofList right := by
  rw [ofList_eq, ofList_eq, hfiles, hoverrides]

end Layers

/-- A file that may be missing and is. -/
def SettingsFile.absent : SettingsFile where
  contents := none
  required := false

theorem Layers.build_absent (before after : List Layer) :
    (Layers.ofList (before ++ .file .absent :: after)).build =
      (Layers.ofList (before ++ after)).build := by
  have hfiles : ∀ root,
      (before.filterMap Layer.file? ++ .absent :: after.filterMap Layer.file?).foldlM
          assignFile root =
        (before.filterMap Layer.file? ++ after.filterMap Layer.file?).foldlM assignFile root := by
    intro root
    rw [List.foldlM_append, List.foldlM_append]
    rfl
  simp only [Layers.build, Layers.tree, Layers.ofList_eq, List.filterMap_append,
    List.filterMap_cons, Layer.file?, Layer.override?, hfiles]

/-! ## What a file gives -/

/-- The entries of a file, which has none if there is no document. -/
def SettingsFile.entries (file : SettingsFile) : List (String × Toml) :=
  (file.contents.bind fun text => Toml.parse text.toList).getD []

namespace Layers

/-- Where an entry of a file is set: its key may be a path. -/
def entryPath (key : String) : List Step := (Path.ofText? key.toList).getD [.key key]

theorem assignEntry_eq (root : Setting) (entry : String × Toml) :
    assignEntry root entry = Setting.assign (entryPath entry.1) (Setting.ofToml entry.2) root := rfl

/-- A path begins with a name. -/
theorem exists_entryPath (key : String) : ∃ first rest, entryPath key = .key first :: rest := by
  unfold entryPath
  cases hpath : Path.ofText? key.toList with
  | none => exact ⟨key, [], rfl⟩
  | some path =>
    obtain ⟨⟨step, text⟩, hname, hrest⟩ := Option.bind_eq_some_iff.mp hpath
    obtain ⟨steps, -, hsteps⟩ := Option.bind_eq_some_iff.mp hrest
    obtain rfl := Option.some.inj hsteps
    unfold Path.name? at hname
    dsimp only at hname
    split at hname
    · contradiction
    · obtain ⟨rfl, -⟩ := Prod.mk.inj (Option.some.inj hname)
      exact ⟨_, steps, rfl⟩

/-- The table of the root that an entry is set in or stands for. -/
def entryTable (key : String) : String :=
  match entryPath key with
  | .key first :: _ => lowerCase first
  | _ => key

theorem assignFile_eq_ok {root after : Setting} {file : SettingsFile}
    (h : assignFile root file = .ok after) : after = file.entries.foldl assignEntry root := by
  unfold assignFile at h
  split at h
  next hnone =>
    split at h
    · contradiction
    · rw [SettingsFile.entries, hnone]
      exact (Except.ok.inj h).symm
  next text hsome =>
    split at h
    next => contradiction
    next entries hparsed =>
      rw [SettingsFile.entries, hsome, Option.bind_some, hparsed]
      exact (Except.ok.inj h).symm

/-- A tree with the entries of files on top, if there is nothing wrong with the files. -/
def withFiles (files : List SettingsFile) (root : Setting) : Setting :=
  files.foldl (fun root file => file.entries.foldl assignEntry root) root

/-- A tree with overrides on top. -/
def withOverrides (overrides : List (List Step × Setting)) (root : Setting) : Setting :=
  overrides.foldl (fun root entry => Setting.assign entry.1 entry.2 root) root

theorem foldlM_assignFile_eq_ok {files : List SettingsFile} {root after : Setting}
    (h : files.foldlM assignFile root = .ok after) : after = withFiles files root := by
  induction files generalizing root with
  | nil => exact (Except.ok.inj h).symm
  | cons file rest ih =>
    rw [List.foldlM_cons, bind_eq_ok_iff] at h
    obtain ⟨between, hbetween, h⟩ := h
    rw [withFiles, List.foldl_cons, ← assignFile_eq_ok hbetween]
    exact ih h

/-- The tree of all layers: the defaults, the entries of the files and the overrides. -/
theorem build_eq_ok {layers : Layers} {settings : Settings} (h : layers.build = .ok settings) :
    Settings.ofSetting (withOverrides layers.values (withFiles layers.files defaults)) =
      .ok settings := by
  obtain ⟨tree, htree, h⟩ := bind_eq_ok_iff.mp h
  obtain ⟨root, hroot, htree⟩ := bind_eq_ok_iff.mp htree
  obtain rfl := foldlM_assignFile_eq_ok hroot
  obtain rfl := Except.ok.inj htree
  exact h

end Layers

/-- What a file gives in the tables of the knobs is nothing but scalars. -/
def SettingsFile.HasFlatTables (file : SettingsFile) : Prop :=
  ∀ entry ∈ file.entries, Layers.entryTable entry.1 ∈ ["convert", "logging"] →
    (Setting.ofToml entry.2).isFlatAt (Layers.entryPath entry.1) = true

instance (file : SettingsFile) : Decidable file.HasFlatTables :=
  inferInstanceAs (Decidable (∀ entry ∈ file.entries, _))

namespace Knob

/-- What a file gives for a knob. Of keys that differ in their letters' case only, the last one in
the document counts: that a file is read in the order of its document is assumed. -/
def givenBy? (knob : Knob) (file : SettingsFile) : Option Setting :=
  lastGiven (fun entry => knob.givenAt? (Layers.entryPath entry.1) (Setting.ofToml entry.2))
    file.entries

/-- What a knob is set to where nothing else is said. -/
def default : Knob → Setting
  | keepUnknownParams | verbatim => .bool false
  | level => .text "warn"

variable {knob : Knob}

theorem table_mem (knob : Knob) : knob.table ∈ ["convert", "logging"] := by cases knob <;> decide

theorem find?_defaults (knob : Knob) :
    knob.HasTable Layers.defaults ∧ knob.find? Layers.defaults = some knob.default := by
  cases knob <;> exact ⟨⟨_, _, rfl, rfl⟩, rfl⟩

theorem find?_assignEntries {file : SettingsFile} (hflat : file.HasFlatTables) {root : Setting}
    (hroot : knob.HasTable root) :
    knob.HasTable (file.entries.foldl Layers.assignEntry root) ∧
      knob.find? (file.entries.foldl Layers.assignEntry root) =
        (knob.givenBy? file).or (knob.find? root) := by
  refine look_foldl Layers.assignEntry knob.find? _ knob.HasTable ?_ hroot
  intro entry hentry root hroot
  obtain ⟨first, rest, hpath⟩ := Layers.exists_entryPath entry.1
  have hentryFlat := hflat entry hentry
  simp only [Layers.entryTable, hpath] at hentryFlat
  rw [Layers.assignEntry_eq, hpath]
  refine find?_assign (fun hfirst => hentryFlat ?_) hroot
  rw [hfirst]
  exact knob.table_mem

/-- The last file that gives a knob something has the say. -/
theorem find?_files {files : List SettingsFile} (hflat : ∀ file ∈ files, file.HasFlatTables)
    {root : Setting} (hroot : knob.HasTable root) :
    knob.HasTable (Layers.withFiles files root) ∧
      knob.find? (Layers.withFiles files root) =
        (lastGiven knob.givenBy? files).or (knob.find? root) :=
  look_foldl _ knob.find? knob.givenBy? knob.HasTable
    (fun file hfile _ hroot => find?_assignEntries (hflat file hfile) hroot) hroot

/-! ## What an override sets -/

/-- What an override sets a knob to. -/
def setBy? (knob : Knob) (entry : List Step × Setting) : Option Setting :=
  if entry.1 = knob.path then some entry.2 else none

variable {overrides : List (List Step × Setting)}

/-- Overrides of knobs have the say for what they set. -/
theorem find?_overrides
    (hknobs : ∀ entry ∈ overrides, (∃ other : Knob, entry.1 = other.path) ∧ entry.2.isScalar = true)
    (root : Setting) :
    knob.find? (Layers.withOverrides overrides root) =
      (lastGiven knob.setBy? overrides).or (knob.find? root) := by
  refine (look_foldl _ knob.find? knob.setBy? (fun _ => True) ?_ trivial).2
  rintro ⟨path, value⟩ hentry root -
  obtain ⟨⟨other, rfl⟩, hscalar⟩ := hknobs _ hentry
  refine ⟨trivial, (find?_assign_path hscalar other root).2.trans ?_⟩
  simp only [setBy?, path_inj]

/-- An override of a knob leaves it with a table, and the others do not take it away. -/
theorem hasTable_overrides
    (hknobs : ∀ entry ∈ overrides, (∃ other : Knob, entry.1 = other.path) ∧ entry.2.isScalar = true)
    {root : Setting} (h : knob.path ∈ overrides.map Prod.fst ∨ knob.HasTable root) :
    knob.HasTable (Layers.withOverrides overrides root) := by
  induction overrides generalizing root with
  | nil => exact h.resolve_left List.not_mem_nil
  | cons entry rest ih =>
    obtain ⟨⟨⟨other, hpath⟩, hscalar⟩, hrest⟩ := List.forall_mem_cons.1 hknobs
    obtain ⟨path, value⟩ := entry
    obtain rfl : path = other.path := hpath
    have hkept : other.table = knob.table ∨ knob.HasTable root →
        knob.HasTable (Setting.assign other.path value root) :=
      (find?_assign_path hscalar other root).1
    refine ih hrest ?_
    rw [List.map_cons, List.mem_cons, eq_comm, path_inj] at h
    -- this override is of the knob, or a later one is, or the table was there before
    rcases h with (hknob | hlater) | hroot
    · exact .inr (hkept (.inl (by rw [hknob])))
    · exact .inl hlater
    · exact .inr (hkept (.inr hroot))

end Knob

/-! ## What the settings come to -/

theorem Layer.mem_files {layers : List Layer} {file : SettingsFile} :
    file ∈ layers.filterMap Layer.file? ↔ .file file ∈ layers := by
  rw [List.mem_filterMap]
  constructor
  · rintro ⟨layer, hlayer, hfile⟩
    cases layer with
    | file =>
      obtain rfl := Option.some.inj hfile
      exact hlayer
    | value => contradiction
  · exact fun h => ⟨_, h, rfl⟩

theorem Layer.mem_overrides {layers : List Layer} {path : List Step} {value : Setting} :
    (path, value) ∈ layers.filterMap Layer.override? ↔ .value path value ∈ layers := by
  rw [List.mem_filterMap]
  constructor
  · rintro ⟨layer, hlayer, hoverride⟩
    cases layer with
    | file => contradiction
    | value =>
      obtain ⟨rfl, rfl⟩ := Prod.mk.inj (Option.some.inj hoverride)
      exact hlayer
  · exact fun h => ⟨_, h, rfl⟩

/-- The values among layers set knobs to scalars, and no knob twice. -/
structure OverridesKnobs (layers : List Layer) : Prop where
  isKnob : ∀ path value, .value path value ∈ layers → ∃ knob : Knob, path = knob.path
  isScalar : ∀ path value, .value path value ∈ layers → value.isScalar = true
  nodup : ((layers.filterMap Layer.override?).map Prod.fst).Nodup

namespace OverridesKnobs

variable {layers : List Layer} {settings : Settings} {knob : Knob} {value : Setting}

theorem knobs (h : OverridesKnobs layers) : ∀ entry ∈ layers.filterMap Layer.override?,
    (∃ knob : Knob, entry.1 = knob.path) ∧ entry.2.isScalar = true :=
  fun _ hentry =>
    have hlayer := Layer.mem_overrides.1 hentry
    ⟨h.isKnob _ _ hlayer, h.isScalar _ _ hlayer⟩

theorem values_eq (h : OverridesKnobs layers) :
    (Layers.ofList layers).values = layers.filterMap Layer.override? := by
  rw [Layers.ofList_eq]
  exact Layers.foldl_override h.nodup

/-- The tree of layers that build: the overrides on top of the files on top of the defaults. -/
theorem ofSetting_eq_ok (h : OverridesKnobs layers)
    (hbuild : (Layers.ofList layers).build = .ok settings) :
    Settings.ofSetting (Layers.withOverrides (layers.filterMap Layer.override?)
      (Layers.withFiles (layers.filterMap Layer.file?) Layers.defaults)) = .ok settings := by
  have hok := Layers.build_eq_ok hbuild
  rw [h.values_eq, Layers.ofList_eq] at hok
  exact hok

theorem lastGiven_eq_some (h : OverridesKnobs layers) (hvalue : .value knob.path value ∈ layers) :
    lastGiven knob.setBy? (layers.filterMap Layer.override?) = some value := by
  have hentry := Layer.mem_overrides.2 hvalue
  refine DocComment.lastGiven_eq_some hentry (if_pos rfl) ?_
  rintro other hother result hset
  obtain ⟨hpath, hresult⟩ := Option.ite_none_right_eq_some.1 hset
  obtain rfl := List.inj_on_of_nodup_map h.nodup hother hentry hpath
  exact (Option.some.inj hresult).symm

theorem lastGiven_eq_none (hnot : ∀ value, .value knob.path value ∉ layers) :
    lastGiven knob.setBy? (layers.filterMap Layer.override?) = none := by
  refine DocComment.lastGiven_eq_none ?_
  rintro ⟨path, value⟩ hentry
  refine if_neg ?_
  rintro rfl
  exact hnot value (Layer.mem_overrides.1 hentry)

/-- An override of a knob has the say. -/
theorem has_override (h : OverridesKnobs layers)
    (hbuild : (Layers.ofList layers).build = .ok settings)
    (hvalue : .value knob.path value ∈ layers) : knob.Has settings value := by
  have hpath : knob.path ∈ (layers.filterMap Layer.override?).map Prod.fst :=
    List.mem_map_of_mem (Layer.mem_overrides.2 hvalue)
  obtain ⟨found, hfound, hhas⟩ := Knob.has_of_ofSetting (h.ofSetting_eq_ok hbuild)
    (Knob.hasTable_overrides h.knobs (.inl hpath))
  rw [Knob.find?_overrides h.knobs, h.lastGiven_eq_some hvalue] at hfound
  obtain rfl := Option.some.inj hfound
  exact hhas

/-- A knob without an override has what the last file says, if a file does. -/
theorem has_given (h : OverridesKnobs layers)
    (hbuild : (Layers.ofList layers).build = .ok settings)
    (hflat : ∀ file, .file file ∈ layers → file.HasFlatTables)
    (hnot : ∀ value, .value knob.path value ∉ layers) :
    knob.Has settings
      ((lastGiven knob.givenBy? (layers.filterMap Layer.file?)).getD knob.default) := by
  have hfiles : ∀ file ∈ layers.filterMap Layer.file?, file.HasFlatTables :=
    fun file hfile => hflat file (Layer.mem_files.1 hfile)
  obtain ⟨hdefaults, hdefault⟩ := knob.find?_defaults
  obtain ⟨htable, hfind⟩ := Knob.find?_files hfiles hdefaults
  obtain ⟨found, hfound, hhas⟩ := Knob.has_of_ofSetting (h.ofSetting_eq_ok hbuild)
    (Knob.hasTable_overrides h.knobs (.inr htable))
  rw [Knob.find?_overrides h.knobs, lastGiven_eq_none hnot, Option.none_or, hfind,
    hdefault] at hfound
  rw [Option.or_some] at hfound
  obtain rfl := Option.some.inj hfound
  exact hhas

end OverridesKnobs

namespace Layers

/-- Layers build the same settings, or fail in the same way, if they have the same files and the
same overrides, however these are mixed; and settings that are built have for each knob its
override, or else what the last file gives that gives it anything, or else its default. For a file
with two keys that differ in their letters' case only, this assumes the order of the document; of
other files it assumes nothing. -/
theorem build_layers :
    (∀ left right : List Layer, left.filterMap Layer.file? = right.filterMap Layer.file? →
      left.filterMap Layer.override? = right.filterMap Layer.override? →
      (ofList left).build = (ofList right).build) ∧
    (∀ before after : List Layer,
      (ofList (before ++ .file .absent :: after)).build = (ofList (before ++ after)).build) ∧
    (∀ (knob : Knob) (value : Setting), Layer.ofKey knob.key value = .ok (.value knob.path value)) ∧
    ∀ (layers : List Layer) (settings : Settings), (ofList layers).build = .ok settings →
      OverridesKnobs layers →
      (∀ (knob : Knob) (value : Setting), .value knob.path value ∈ layers →
        knob.Has settings value) ∧
      ((∀ file, .file file ∈ layers → file.HasFlatTables) →
        ∀ knob : Knob, (∀ value, .value knob.path value ∉ layers) →
          knob.Has settings
            ((lastGiven knob.givenBy? (layers.filterMap Layer.file?)).getD knob.default)) := by
  refine ⟨fun left right hfiles hoverrides => ?_, build_absent, Knob.ofKey_key,
    fun layers settings hbuild h => ?_⟩
  · rw [ofList_congr hfiles hoverrides]
  · exact ⟨fun _ _ hvalue => h.has_override hbuild hvalue,
      fun hflat _ hnot => h.has_given hbuild hflat hnot⟩

/-- A file that gives two knobs. -/
def baseFile : SettingsFile where
  contents :=
    some "[convert]\nverbatim = 1\nkeep_unknown_params = false\n[logging]\nlevel = \"error\""
  required := true

/-- A file that gives one of them again, in other letters. -/
def projectFile : SettingsFile where
  contents := some "Convert.Keep_Unknown_Params = \"yes\""
  required := false

def levelOverride : Layer := .value Knob.level.path (.text "Debug")

/-- An override between two files. -/
def mixedLayers : List Layer := [.file baseFile, levelOverride, .file projectFile]

/-- The override before the files, and a missing file between them, come to the same. -/
theorem build_layers_mixed :
    (ofList mixedLayers).build =
      (ofList [levelOverride, .file baseFile, .file .absent, .file projectFile]).build ∧
    ∃ settings : Settings, settings.level = .debug ∧ settings.options.keepUnknownParams = true ∧
      (ofList mixedLayers).build = .ok settings ∧ OverridesKnobs mixedLayers ∧
      (∀ file, .file file ∈ mixedLayers → file.HasFlatTables) ∧
        Knob.level.Has settings (.text "Debug") ∧
      (lastGiven Knob.keepUnknownParams.givenBy? [baseFile, projectFile]).isSome = true ∧
      Knob.keepUnknownParams.Has settings
        ((lastGiven Knob.keepUnknownParams.givenBy? [baseFile, projectFile]).getD
          Knob.keepUnknownParams.default) := by
  obtain ⟨hcongr, habsent, -, hhas⟩ := build_layers
  have hbuild : (ofList mixedLayers).build =
      .ok { options := { keepUnknownParams := true, verbatim := true }, level := .debug } := by
    decide +kernel
  have hvalue : ∀ path value, .value path value ∈ mixedLayers →
      path = Knob.level.path ∧ value = .text "Debug" := by
    intro path value hmem
    simpa [mixedLayers, levelOverride] using hmem
  have hoverrides : OverridesKnobs mixedLayers :=
    { isKnob := fun path value hmem => ⟨.level, (hvalue path value hmem).1⟩
      isScalar := fun path value hmem => by rw [(hvalue path value hmem).2]; rfl
      nodup := by decide }
  have hflat : ∀ file, .file file ∈ mixedLayers → file.HasFlatTables := by
    intro file hmem
    have hfile : file = baseFile ∨ file = projectFile := by
      simpa [mixedLayers, levelOverride] using hmem
    rcases hfile with rfl | rfl
    · decide +kernel
    · decide +kernel
  obtain ⟨hset, hgiven⟩ := hhas mixedLayers _ hbuild hoverrides
  have hnot : ∀ value, .value Knob.keepUnknownParams.path value ∉ mixedLayers :=
    fun value hmem => absurd (hvalue _ value hmem).1 (by decide)
  refine ⟨?_, _, rfl, rfl, hbuild, hoverrides, hflat,
    hset .level _ ?_, by decide +kernel, hgiven hflat _ hnot⟩
  · exact (hcongr mixedLayers [levelOverride, .file baseFile, .file projectFile] rfl rfl).trans
      (habsent [levelOverride, .file baseFile] [.file projectFile]).symm
  · exact .tail _ (.head _)

end Layers

end DocComment

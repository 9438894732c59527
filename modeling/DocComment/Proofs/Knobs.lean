import DocComment.Proofs.Success
import DocComment.Settings

/-!
# Looking settings up

There are three knobs, each under a name in one of two tables. A scalar that is set at the place of
a knob, or in a table that is merged there, is found there afterwards, and what is set elsewhere
leaves the knob alone. The settings read off a tree are what is found for the knobs.
-/

namespace DocComment

section LastGiven

variable {σ α β : Type}

/-- The last thing that members of a list give. -/
def lastGiven (gives : α → Option β) (l : List α) : Option β := (l.filterMap gives).getLast?

theorem lastGiven_cons (gives : α → Option β) (a : α) (l : List α) :
    lastGiven gives (a :: l) = (lastGiven gives l).or (gives a) := by
  rw [lastGiven, lastGiven, List.filterMap_cons]
  cases gives a with
  | none => rw [Option.or_none]
  | some b =>
    rw [List.getLast?_cons]
    cases (l.filterMap gives).getLast? <;> rfl

theorem lastGiven_eq_none {gives : α → Option β} {l : List α} (h : ∀ a ∈ l, gives a = none) :
    lastGiven gives l = none := by
  rw [lastGiven, List.filterMap_eq_nil_iff.2 h]
  rfl

theorem lastGiven_eq_some {gives : α → Option β} {l : List α} {a : α} {b : β} (ha : a ∈ l)
    (hgives : gives a = some b) (hall : ∀ a ∈ l, ∀ other, gives a = some other → other = b) :
    lastGiven gives l = some b := by
  have hb : b ∈ l.filterMap gives := List.mem_filterMap.2 ⟨a, ha, hgives⟩
  have hne : l.filterMap gives ≠ [] := List.ne_nil_of_mem hb
  obtain ⟨giver, hgiver, hlast⟩ := List.mem_filterMap.1 (List.getLast_mem hne)
  rw [lastGiven, List.getLast?_eq_some_getLast hne, hall giver hgiver _ hlast]

/-- If each step sets what its member gives and leaves it alone otherwise, the last thing given is
found in the end, and what was there if nothing is given. -/
theorem look_foldl (step : σ → α → σ) (look : σ → Option β) (gives : α → Option β)
    (keeps : σ → Prop) {l : List α}
    (hstep : ∀ a ∈ l, ∀ s, keeps s → keeps (step s a) ∧ look (step s a) = (gives a).or (look s))
    {s : σ} (hs : keeps s) :
    keeps (l.foldl step s) ∧ look (l.foldl step s) = (lastGiven gives l).or (look s) := by
  induction l generalizing s with
  | nil => exact ⟨hs, rfl⟩
  | cons a rest ih =>
    obtain ⟨hfirst, hrest⟩ := List.forall_mem_cons.1 hstep
    obtain ⟨hkept, hlook⟩ := hfirst s hs
    obtain ⟨hkeptAll, hlookAll⟩ := ih hrest hkept
    exact ⟨hkeptAll, by rw [List.foldl_cons, hlookAll, hlook, lastGiven_cons, Option.or_assoc]⟩

end LastGiven

/-- What can be set. -/
inductive Knob where
  | keepUnknownParams
  | verbatim
  | level
  deriving DecidableEq, Repr

namespace Knob

/-- The table that a knob stands in. -/
def table : Knob → String
  | keepUnknownParams | verbatim => "convert"
  | level => "logging"

def name : Knob → String
  | keepUnknownParams => "keep_unknown_params"
  | verbatim => "verbatim"
  | level => "level"

def path (knob : Knob) : List Step := [.key knob.table, .key knob.name]

/-- The text of the path. -/
def key (knob : Knob) : String := knob.table ++ "." ++ knob.name

@[simp] theorem lowerCase_table (knob : Knob) : lowerCase knob.table = knob.table := by
  cases knob <;> decide

@[simp] theorem lowerCase_name (knob : Knob) : lowerCase knob.name = knob.name := by
  cases knob <;> decide

theorem eq_of_place {knob other : Knob} (htable : other.table = knob.table)
    (hname : other.name = knob.name) :
    other = knob := by
  revert htable hname
  cases knob <;> cases other <;> decide

theorem path_inj {knob other : Knob} : other.path = knob.path ↔ other = knob := by
  constructor
  · intro h
    simp only [path, List.cons.injEq, Step.key.injEq] at h
    exact eq_of_place h.1 h.2.1
  · rintro rfl
    rfl

theorem ofKey_key (knob : Knob) (value : Setting) :
    Layer.ofKey knob.key value = .ok (.value knob.path value) := by
  cases knob <;> rfl

/-- The fields beside a knob. -/
def fieldsIn (knob : Knob) (root : Setting) : List (String × Setting) :=
  ((Assoc.get? knob.table root.entries).getD .empty).entries

/-- What stands in a tree for a knob. -/
def find? (knob : Knob) (root : Setting) : Option Setting :=
  Assoc.get? knob.name (knob.fieldsIn root)

/-- The knob has a table to stand in. -/
def HasTable (knob : Knob) (root : Setting) : Prop :=
  ∃ entries fields, root = .table entries ∧ Assoc.get? knob.table entries = some (.table fields)

/-- The settings have what a value for the knob is converted to. -/
def Has (knob : Knob) (settings : Settings) (value : Setting) : Prop :=
  match knob with
  | keepUnknownParams => value.bool? = some settings.options.keepUnknownParams
  | verbatim => value.bool? = some settings.options.verbatim
  | level => value.level? = some settings.level

end Knob

namespace Setting

/-- Neither a list nor a table. -/
def isScalar : Setting → Bool
  | list _ | table _ => false
  | _ => true

theorem merge_scalar {value : Setting} (h : value.isScalar = true) (old : Option Setting) :
    merge value old = value := by
  cases value <;> first | rfl | contradiction

/-- Merges one entry into a setting. -/
def mergeEntry (old : Setting) (entry : String × Setting) : Setting :=
  table (Assoc.put (lowerCase entry.1)
    (merge entry.2 (Assoc.get? (lowerCase entry.1) old.entries)) old.entries)

theorem mergeEntries_eq_foldl (inner : List (String × Setting)) (old : Setting) :
    mergeEntries inner old = inner.foldl mergeEntry old := by
  induction inner generalizing old with
  | nil => rfl
  | cons entry rest ih => exact ih _

/-- Scalars that are merged into a table are found there. -/
theorem get?_mergeEntries {inner : List (String × Setting)}
    (hscalar : ∀ entry ∈ inner, entry.2.isScalar = true) (fields : List (String × Setting))
    (name : String) :
    ∃ merged, mergeEntries inner (table fields) = table merged ∧
      Assoc.get? name merged = (lastGiven (fun entry : String × Setting =>
        if lowerCase entry.1 = name then some entry.2 else none) inner).or
          (Assoc.get? name fields) := by
  have hstep : ∀ entry ∈ inner, ∀ old, (∃ merged, old = table merged) →
      (∃ merged, mergeEntry old entry = table merged) ∧
        Assoc.get? name (mergeEntry old entry).entries =
          (if lowerCase entry.1 = name then some entry.2 else none).or
            (Assoc.get? name old.entries) := by
    intro entry hentry old _
    refine ⟨⟨_, rfl⟩, ?_⟩
    rw [mergeEntry, merge_scalar (hscalar entry hentry), entries_table, Assoc.get?_put]
    split <;> rfl
  obtain ⟨⟨merged, hmerged⟩, hlook⟩ :=
    look_foldl mergeEntry (fun old => Assoc.get? name old.entries)
    (fun entry : String × Setting => if lowerCase entry.1 = name then some entry.2 else none)
    (fun old => ∃ merged, old = table merged) hstep ⟨fields, rfl⟩
  rw [mergeEntries_eq_foldl]
  rw [hmerged] at hlook ⊢
  exact ⟨merged, rfl, hlook⟩

/-- Setting a value changes the first table on its path only. -/
theorem exists_assign_key (first : String) (rest : List Step) (value root : Setting) :
    ∃ changed, assign (.key first :: rest) value root =
      table (Assoc.put (lowerCase first) changed root.entries) := by
  unfold assign
  split
  · exact ⟨_, rfl⟩
  · exact ⟨_, rfl⟩

theorem assign_table (first : String) (inner : List (String × Setting)) (root : Setting) :
    assign [.key first] (table inner) root =
      table (Assoc.put (lowerCase first)
        (mergeEntries inner ((Assoc.get? (lowerCase first) root.entries).getD (table [])))
        root.entries) := rfl

theorem assign_scalar {value : Setting} (h : value.isScalar = true) (first second : String)
    (root : Setting) :
    assign [.key first, .key second] value root =
      table (Assoc.put (lowerCase first)
        (table (Assoc.put (lowerCase second) value
          ((Assoc.get? (lowerCase first) root.entries).getD empty).entries)) root.entries) := by
  have hmerge : ∀ old, merge value old = value := merge_scalar h
  simp only [assign, List.getLast?_cons_cons, List.getLast?_singleton, changeAt, hmerge,
    Option.getD_some]

end Setting

namespace Knob

variable {knob other : Knob} {root value : Setting}

theorem fieldsIn_put (knob : Knob) (key : String) (value root : Setting) :
    knob.fieldsIn (.table (Assoc.put key value root.entries)) =
      if key = knob.table then value.entries else knob.fieldsIn root := by
  rw [fieldsIn, Setting.entries_table, Assoc.get?_put]
  by_cases hkey : key = knob.table
  · rw [if_pos hkey, if_pos hkey, Option.getD_some]
  · rw [if_neg hkey, if_neg hkey, fieldsIn]

theorem hasTable_put {key : String} (htable : key = knob.table → ∃ fields, value = .table fields)
    (hroot : key ≠ knob.table → knob.HasTable root) :
    knob.HasTable (.table (Assoc.put key value root.entries)) := by
  by_cases hkey : key = knob.table
  · obtain ⟨fields, rfl⟩ := htable hkey
    exact ⟨_, fields, rfl, by rw [Assoc.get?_put, if_pos hkey]⟩
  · obtain ⟨entries, fields, rfl, hfields⟩ := hroot hkey
    exact ⟨_, fields, rfl, by rw [Assoc.get?_put, if_neg hkey]; exact hfields⟩

/-- What is set in another table leaves a knob alone. -/
theorem find?_assign_elsewhere {first : String} (h : lowerCase first ≠ knob.table)
    (rest : List Step) (value root : Setting) :
    (knob.HasTable root → knob.HasTable (Setting.assign (.key first :: rest) value root)) ∧
      knob.find? (Setting.assign (.key first :: rest) value root) = knob.find? root := by
  obtain ⟨changed, hassign⟩ := Setting.exists_assign_key first rest value root
  rw [hassign]
  refine ⟨fun hroot => hasTable_put (absurd · h) fun _ => hroot, ?_⟩
  rw [find?, fieldsIn_put, if_neg h, find?]

/-- A scalar set in the table of a knob is set for the knob if it has its name. -/
theorem find?_assign_scalar (hvalue : value.isScalar = true) {first : String}
    (hfirst : lowerCase first = knob.table) (second : String) (root : Setting) :
    knob.HasTable (Setting.assign [.key first, .key second] value root) ∧
      knob.find? (Setting.assign [.key first, .key second] value root) =
        (if lowerCase second = knob.name then some value else none).or (knob.find? root) := by
  rw [Setting.assign_scalar hvalue]
  refine ⟨hasTable_put (fun _ => ⟨_, rfl⟩) (absurd hfirst ·), ?_⟩
  rw [find?, fieldsIn_put, if_pos hfirst, Setting.entries_table, Assoc.get?_put, hfirst, find?,
    fieldsIn]
  split <;> rfl

/-- A table of scalars sets the last one with the name of the knob. -/
theorem find?_assign_table {inner : List (String × Setting)}
    (hscalar : ∀ entry ∈ inner, entry.2.isScalar = true) {first : String}
    (hfirst : lowerCase first = knob.table) (hroot : knob.HasTable root) :
    knob.HasTable (Setting.assign [.key first] (.table inner) root) ∧
      knob.find? (Setting.assign [.key first] (.table inner) root) =
        (lastGiven (fun entry : String × Setting =>
          if lowerCase entry.1 = knob.name then some entry.2 else none) inner).or
            (knob.find? root) := by
  obtain ⟨entries, fields, rfl, hfields⟩ := hroot
  obtain ⟨merged, hmerged, hlook⟩ := Setting.get?_mergeEntries hscalar fields knob.name
  have hold : (Assoc.get? (lowerCase first) (Setting.table entries).entries).getD (.table []) =
      .table fields := by
    rw [Setting.entries_table, hfirst, hfields]
    rfl
  rw [Setting.assign_table, hold, hmerged]
  refine ⟨hasTable_put (fun _ => ⟨_, rfl⟩) (absurd hfirst ·), ?_⟩
  rw [find?, fieldsIn_put, if_pos hfirst, Setting.entries_table, hlook, find?, fieldsIn,
    Setting.entries_table, hfields]
  rfl

/-- A scalar set for a knob is found there, and no other knob is touched. -/
theorem find?_assign_path (hvalue : value.isScalar = true) (other : Knob) (root : Setting) :
    (other.table = knob.table ∨ knob.HasTable root →
      knob.HasTable (Setting.assign other.path value root)) ∧
      knob.find? (Setting.assign other.path value root) =
        (if other = knob then some value else none).or (knob.find? root) := by
  by_cases htable : other.table = knob.table
  · have hfirst : lowerCase other.table = knob.table := (lowerCase_table other).trans htable
    obtain ⟨hkept, hfind⟩ := find?_assign_scalar hvalue hfirst other.name root
    refine ⟨fun _ => hkept, hfind.trans ?_⟩
    have hname : lowerCase other.name = knob.name ↔ other = knob := by
      rw [lowerCase_name]
      exact ⟨eq_of_place htable, fun h => by rw [h]⟩
    simp only [hname]
  · have hfirst : lowerCase other.table ≠ knob.table := by rwa [lowerCase_table]
    obtain ⟨hkept, hfind⟩ := find?_assign_elsewhere hfirst [.key other.name] value root
    have hother : other ≠ knob := fun h => htable (by rw [h])
    refine ⟨fun h => hkept (h.resolve_left htable), ?_⟩
    rw [if_neg hother]
    exact hfind

end Knob

namespace Knob

/-- What is set for a knob by a value at a path: by the last of its name in a table that is merged
at its table, or by a value at its own path. -/
def givenAt? (knob : Knob) : List Step → Setting → Option Setting
  | [.key first], .table inner =>
    if lowerCase first = knob.table then
      lastGiven (fun entry => if lowerCase entry.1 = knob.name then some entry.2 else none) inner
    else none
  | [.key first, .key second], value =>
    if lowerCase first = knob.table ∧ lowerCase second = knob.name then some value else none
  | _, _ => none

theorem givenAt?_elsewhere {knob : Knob} {first : String} (h : lowerCase first ≠ knob.table)
    (rest : List Step) (value : Setting) : knob.givenAt? (.key first :: rest) value = none := by
  unfold givenAt?
  split
  next hpath =>
    obtain rfl := Step.key.inj (List.cons.inj hpath).1
    exact if_neg h
  next hpath =>
    obtain rfl := Step.key.inj (List.cons.inj hpath).1
    exact if_neg fun hplace => h hplace.1
  next => rfl

end Knob

/-- Whether a value at a path is a table of scalars in the root, or a scalar in such a table. -/
def Setting.isFlatAt : List Step → Setting → Bool
  | [.key _], .table inner => inner.all fun entry => entry.2.isScalar
  | [.key _, .key _], value => value.isScalar
  | _, _ => false

/-- Tables that are kept flat hold for each knob what was set for it last. -/
theorem Knob.find?_assign {knob : Knob} {first : String} {rest : List Step} {value root : Setting}
    (hflat : lowerCase first = knob.table → value.isFlatAt (.key first :: rest) = true)
    (hroot : knob.HasTable root) :
    knob.HasTable (Setting.assign (.key first :: rest) value root) ∧
      knob.find? (Setting.assign (.key first :: rest) value root) =
        (knob.givenAt? (.key first :: rest) value).or (knob.find? root) := by
  by_cases hfirst : lowerCase first = knob.table
  · have hvalue := hflat hfirst
    unfold Setting.isFlatAt at hvalue
    split at hvalue
    next _ inner hpath =>
      -- a table of scalars
      obtain ⟨hkey, rfl⟩ := List.cons.inj hpath
      obtain rfl := Step.key.inj hkey
      rw [givenAt?, if_pos hfirst]
      exact find?_assign_table (List.all_eq_true.1 hvalue) hfirst hroot
    next _ second hpath =>
      -- a scalar in the table
      obtain ⟨hkey, rfl⟩ := List.cons.inj hpath
      obtain rfl := Step.key.inj hkey
      rw [givenAt?]
      simp only [hfirst, true_and]
      exact find?_assign_scalar hvalue hfirst second root
    next => contradiction
  · obtain ⟨hkept, hfind⟩ := find?_assign_elsewhere hfirst rest value root
    exact ⟨hkept hroot, by rw [hfind, givenAt?_elsewhere hfirst, Option.none_or]⟩

/-! ## Settings of a tree -/

namespace Settings

theorem demand_eq_ok_iff {α : Type} {given : Option α} {value : α} :
    demand given = .ok value ↔ given = some value := by
  cases given <;> simp [demand]

theorem boolOf_eq_ok_iff {setting : Setting} {value : Bool} :
    boolOf setting = .ok value ↔ setting.bool? = some value := by
  rw [boolOf]
  cases setting.bool? <;> simp

theorem levelOf_eq_ok_iff {setting : Setting} {level : LogLevel} :
    levelOf setting = .ok level ↔ setting.level? = some level := by
  rw [levelOf]
  cases setting.level? <;> simp

variable {fields entries : List (String × Setting)}

theorem optionsOf_table {options : Options} (h : optionsOf (.table fields) = .ok options) :
    (∃ value, Assoc.get? "keep_unknown_params" fields = some value ∧
      value.bool? = some options.keepUnknownParams) ∧
    ∃ value, Assoc.get? "verbatim" fields = some value ∧ value.bool? = some options.verbatim := by
  obtain ⟨given, hgiven, h⟩ := bind_eq_ok_iff.mp h
  obtain rfl := Except.ok.inj hgiven
  obtain ⟨keep, hkeep, h⟩ := bind_eq_ok_iff.mp h
  obtain ⟨verbatim, hverbatim, h⟩ := bind_eq_ok_iff.mp h
  obtain ⟨_, hk, h⟩ := bind_eq_ok_iff.mp h
  obtain ⟨_, hv, h⟩ := bind_eq_ok_iff.mp h
  obtain rfl := Except.ok.inj h
  rw [demand_eq_ok_iff] at hk hv
  subst hk hv
  simpa only [mapM_eq_ok_some_iff, boolOf_eq_ok_iff] using And.intro hkeep hverbatim

theorem loggingOf_table {level : LogLevel} (h : loggingOf (.table fields) = .ok level) :
    ∃ value, Assoc.get? "level" fields = some value ∧ value.level? = some level := by
  obtain ⟨given, hgiven, h⟩ := bind_eq_ok_iff.mp h
  obtain rfl := Except.ok.inj hgiven
  obtain ⟨found, hfound, h⟩ := bind_eq_ok_iff.mp h
  rw [demand_eq_ok_iff] at h
  subst h
  simpa only [mapM_eq_ok_some_iff, levelOf_eq_ok_iff] using hfound

theorem ofSetting_table {settings : Settings} (h : ofSetting (.table entries) = .ok settings) :
    (∃ value, Assoc.get? "convert" entries = some value ∧ optionsOf value = .ok settings.options) ∧
    ∃ value, Assoc.get? "logging" entries = some value ∧ loggingOf value = .ok settings.level := by
  obtain ⟨given, hgiven, h⟩ := bind_eq_ok_iff.mp h
  obtain rfl := Except.ok.inj hgiven
  obtain ⟨options, hoptions, h⟩ := bind_eq_ok_iff.mp h
  obtain ⟨level, hlevel, h⟩ := bind_eq_ok_iff.mp h
  obtain ⟨_, ho, h⟩ := bind_eq_ok_iff.mp h
  obtain ⟨_, hl, h⟩ := bind_eq_ok_iff.mp h
  obtain rfl := Except.ok.inj h
  rw [demand_eq_ok_iff] at ho hl
  subst ho hl
  simpa only [mapM_eq_ok_some_iff] using And.intro hoptions hlevel

end Settings

/-- Settings have, for each knob with a table, what is found for it. -/
theorem Knob.has_of_ofSetting {knob : Knob} {root : Setting} {settings : Settings}
    (h : Settings.ofSetting root = .ok settings) (htable : knob.HasTable root) :
    ∃ value, knob.find? root = some value ∧ knob.Has settings value := by
  obtain ⟨entries, fields, rfl, hfields⟩ := htable
  have hfind : knob.find? (.table entries) = Assoc.get? knob.name fields := by
    rw [find?, fieldsIn, Setting.entries_table, hfields]
    rfl
  rw [hfind]
  obtain ⟨⟨convert, hconvert, hoptions⟩, logging, hlogging, hlevel⟩ := Settings.ofSetting_table h
  cases knob with
  | keepUnknownParams =>
    obtain rfl := Option.some.inj (hconvert.symm.trans hfields)
    exact (Settings.optionsOf_table hoptions).1
  | verbatim =>
    obtain rfl := Option.some.inj (hconvert.symm.trans hfields)
    exact (Settings.optionsOf_table hoptions).2
  | level =>
    obtain rfl := Option.some.inj (hlogging.symm.trans hfields)
    exact Settings.loggingOf_table hlevel

end DocComment

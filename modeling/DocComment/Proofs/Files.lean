import DocComment.CommandLine.Directory
import DocComment.Proofs.Success
import Mathlib.Tactic.SplitIfs

/-!
# Laws of files

What is written to a file is read there afterwards, and other files keep what they hold. Which paths
lead to one file is for each file system to say; in a directory they are those with one name.
-/

namespace DocComment.CommandLine

theorem FileSystem.text?_eq_some_iff {Files : Type} {system : FileSystem Files} {files : Files}
    {path text : String} :
    system.text? files path = some text ↔ system.readFile files path = .ok text := by
  rw [FileSystem.text?]
  cases system.readFile files path <;> simp [Except.toOption]

/-- The laws of a file system, given the file that each path leads to, be it there already or not.
A path may lead to no file, as that of a directory or of a device does. -/
structure FileSystem.Lawful {Files File : Type} (system : FileSystem Files)
    (fileAt? : Files → String → Option File) : Prop where
  readFile_of_writeFile {before after : Files} {path text : String} {file : File} :
    fileAt? before path = some file → system.writeFile before path text = .ok after →
      system.readFile after path = .ok text
  text?_of_writeFile {before after : Files} {path text other : String} :
    system.writeFile before path text = .ok after →
    (∀ file, fileAt? before path = some file → fileAt? before other ≠ some file) →
      system.text? after other = system.text? before other

namespace Directory

variable {directory after : Directory}

/-- Where a path leads does not depend on what the files hold. -/
theorem follow_of_ok {place : Place} (other : Directory) {parts : List Text}
    (h : directory.follow parts = .ok place) : other.follow parts = .ok place := by
  fun_induction directory.follow parts with
  | case1 => exact h
  | case2 part rest hidle ih =>
    rw [follow, if_pos hidle]
    exact ih h
  | case3 part rest hidle hup => rwa [follow, if_neg hidle, if_pos hup]
  | case4 part hidle hup => rwa [follow, if_neg hidle, if_neg hup]
  | case5 part hidle hup _ rest hne hslash =>
    obtain ⟨first, others, rfl⟩ := List.exists_cons_of_ne_nil hne
    rw [follow, if_neg hidle, if_neg hup]
    exact (if_pos hslash).trans h
  | case6 | case7 | case8 => contradiction

theorem locate_of_ok {place : Place} (other : Directory) {path : String}
    (h : directory.locate path = .ok place) : other.locate path = .ok place := by
  unfold locate at h ⊢
  split_ifs at h ⊢ with hempty hlong hroot
  · exact h
  · exact follow_of_ok other h

/-- The name that a path leads to. -/
def nameAt? (directory : Directory) (path : String) : Option String :=
  match directory.locate path with
  | .ok (.name name false) => some name
  | _ => none

theorem nameAt?_eq_some_iff {path name : String} :
    directory.nameAt? path = some name ↔ directory.locate path = .ok (.name name false) := by
  unfold nameAt?
  split <;> simp_all

/-- A text is read where a path leads to a name that has one. -/
theorem readFile_eq_ok_iff {path text : String} :
    directory.readFile path = .ok text ↔
      ∃ name, directory.nameAt? path = some name ∧ Path.isTooLong name = false ∧
        Assoc.get? name directory = some text := by
  simp only [nameAt?_eq_some_iff]
  constructor
  · intro h
    obtain ⟨_ | ⟨name, slash⟩, hplace, h⟩ := bind_eq_ok_iff.mp h
    · contradiction
    · dsimp only at h
      split_ifs at h with hlong hslash
      all_goals cases hheld : Assoc.get? name directory <;> rw [hheld] at h
      case neg.some =>
        rw [Bool.not_eq_true] at hlong hslash
        exact ⟨name, hslash ▸ hplace, hlong, hheld.trans (congrArg some (Except.ok.inj h))⟩
      all_goals contradiction
  · rintro ⟨name, hplace, hshort, hheld⟩
    exact bind_eq_ok_iff.mpr ⟨_, hplace, by simp [hshort, hheld]⟩

/-- A text is written where a path leads to a name that a file can have. -/
theorem writeFile_eq_ok_iff {path text : String} :
    directory.writeFile path text = .ok after ↔
      ∃ name, directory.nameAt? path = some name ∧ Path.isTooLong name = false ∧
        Assoc.put name text directory = after := by
  simp only [nameAt?_eq_some_iff]
  constructor
  · intro h
    obtain ⟨_ | ⟨name, slash⟩, hplace, h⟩ := bind_eq_ok_iff.mp h
    · contradiction
    · dsimp only at h
      split_ifs at h with hslash hlong
      rw [Bool.not_eq_true] at hslash hlong
      exact ⟨name, hslash ▸ hplace, hlong, Except.ok.inj h⟩
  · rintro ⟨name, hplace, hshort, rfl⟩
    exact bind_eq_ok_iff.mpr ⟨_, hplace, by simp [hshort]⟩

theorem nameAt?_eq (directory other : Directory) (path : String) :
    directory.nameAt? path = other.nameAt? path := by
  refine Option.ext fun name => ?_
  rw [nameAt?_eq_some_iff, nameAt?_eq_some_iff]
  exact ⟨locate_of_ok other, locate_of_ok directory⟩

/-- A directory keeps its files apart by their names. -/
theorem lawful_system : system.Lawful nameAt? where
  readFile_of_writeFile {before after path text _} _ h := by
    obtain ⟨name, hname, hshort, rfl⟩ := writeFile_eq_ok_iff.1 h
    rw [nameAt?_eq before (Assoc.put name text before)] at hname
    exact readFile_eq_ok_iff.2 ⟨name, hname, hshort, by simp [Assoc.get?_put]⟩
  text?_of_writeFile {before after path text other} h hother := by
    obtain ⟨name, hname, -, rfl⟩ := writeFile_eq_ok_iff.1 h
    have hkept {held : String} (hheld : before.nameAt? other = some held) :
        Assoc.get? held (Assoc.put name text before) = Assoc.get? held before := by
      rw [Assoc.get?_put, if_neg]
      rintro rfl
      exact hother _ hname hheld
    refine Option.ext fun held => ?_
    simp only [FileSystem.text?_eq_some_iff, system, readFile_eq_ok_iff,
      nameAt?_eq (Assoc.put name text before) before other]
    refine exists_congr fun place => and_congr_right fun hplace => ?_
    rw [hkept hplace]

end Directory

end DocComment.CommandLine

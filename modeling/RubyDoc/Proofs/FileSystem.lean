import Mathlib.Tactic.Common
import RubyDoc.FileSystem

/-!
# Writing to files that exist

Writing to a file that is there changes its content and nothing else: every path still leads where
it did (`SameShape.locate_eq`), and every other place holds what it held (`file?_write`).
-/

namespace RubyDoc.FileSystem

variable {fs fs' : FileSystem} {place : Location}

/-- The same files and directories under the same permissions, whatever the files hold. -/
structure SameShape (fs fs' : FileSystem) : Prop where
  places_eq : fs'.files.map Prod.fst = fs.files.map Prod.fst
  directories_eq : fs'.directories = fs.directories
  locked_eq : fs'.locked = fs.locked

namespace SameShape

theorem refl (fs : FileSystem) : SameShape fs fs := ⟨rfl, rfl, rfl⟩

theorem trans {fs'' : FileSystem} (h : SameShape fs fs') (h' : SameShape fs' fs'') :
    SameShape fs fs'' :=
  ⟨h'.places_eq.trans h.places_eq, h'.directories_eq.trans h.directories_eq,
    h'.locked_eq.trans h.locked_eq⟩

variable (h : SameShape fs fs')
include h

theorem isDirectory_eq (place : Location) : fs'.isDirectory place = fs.isDirectory place := by
  have hany : ∀ fs : FileSystem, (fs.files.any fun file => isBelow place file.1) =
      (fs.files.map Prod.fst).any (isBelow place) := fun fs => by
    rw [List.any_map]
    rfl
  rw [isDirectory, isDirectory, hany, hany, h.places_eq, h.directories_eq]

theorem locate_eq (root p : Path) : fs'.locate root p = fs.locate root p := by
  rw [locate, locate, show fs'.isDirectory = fs.isDirectory from funext h.isDirectory_eq]

/-- A path is read as before if the place that it leads to holds what it held. -/
theorem read_eq {root p : Path}
    (hfile : ∀ place, fs.locate root p = some place → fs'.file? place = fs.file? place) :
    fs'.read root p = fs.read root p := by
  rw [read, read, h.locate_eq, h.locked_eq]
  cases hplace : fs.locate root p with
  | none => rfl
  | some place => simp only [hfile place hplace, h.isDirectory_eq]

end SameShape

theorem sameShape_put (h : fs.isFile place) (content : Text) :
    SameShape fs (fs.put place content) where
  places_eq := by
    rw [put, if_pos h, List.map_map]
    refine List.map_congr_left fun file _ => ?_
    rw [Function.comp_apply]
    split
    · rename_i hfile
      exact hfile.symm
    · rfl
  directories_eq := rfl
  locked_eq := rfl

theorem lookup_map_replace (place : Location) (content : Text) (files : List (Location × Text))
    (other : Location) :
    (files.map fun file => if file.1 = place then (place, content) else file).lookup other =
      if other = place then (files.lookup place).map fun _ => content
      else files.lookup other := by
  induction files with
  | nil => simp
  | cons file files ih =>
      rw [List.map_cons, List.lookup_cons, List.lookup_cons, List.lookup_cons, ih]
      by_cases hfile : file.1 = place
      · subst hfile
        by_cases hother : other = file.1
        · simp [hother]
        · simp [hother, beq_eq_false_iff_ne.2 hother]
      · have hne : (place == file.1) = false := beq_eq_false_iff_ne.2 (Ne.symm hfile)
        by_cases hother : other = place
        · simp [hother, hfile, hne]
        · simp [hother, hfile]

theorem file?_put (h : fs.isFile place) (content : Text) (other : Location) :
    (fs.put place content).file? other =
      if other = place then some content else fs.file? other := by
  obtain ⟨old, hold⟩ := Option.isSome_iff_exists.1 h
  rw [file?] at hold
  rw [put, if_pos h, file?, lookup_map_replace, hold]
  rfl

/-- What is read at a path is what the place that it leads to holds. -/
theorem exists_place_of_read {root p : Path} {text : Text} (h : fs.read root p = .ok text) :
    ∃ place, fs.locate root p = some place ∧ fs.file? place = some text := by
  rw [read] at h
  split at h
  · cases h
  · rename_i place hplace
    split at h
    · cases h
    · rename_i content hcontent
      split at h
      · cases h
      · rw [wellEncoded] at h
        split at h
        · exact ⟨place, hplace, hcontent.trans (congrArg some (Except.ok.inj h))⟩
        · cases h

section Write

variable {root p : Path} {text : Text} (h : fs.read root p = .ok text) (content : Text)
include h

theorem sameShape_write : SameShape fs (fs.write root p content) := by
  obtain ⟨place, hplace, hfile⟩ := exists_place_of_read h
  rw [write, hplace]
  exact sameShape_put (by rw [isFile, hfile]; rfl) content

/-- Writing to a file that was read changes what stands there, and nothing else. -/
theorem file?_write (other : Location) : (fs.write root p content).file? other =
    if fs.locate root p = some other then some content else fs.file? other := by
  obtain ⟨place, hplace, hfile⟩ := exists_place_of_read h
  rw [write, hplace]
  dsimp only
  rw [file?_put (by rw [isFile, hfile]; rfl)]
  simp only [Option.some.injEq, eq_comm]

end Write

end RubyDoc.FileSystem

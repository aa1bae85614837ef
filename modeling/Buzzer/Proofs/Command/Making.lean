import Buzzer.Command.Basic
import Buzzer.Proofs.Except

/-!
The file that a command has made. A path leads through directories that stay where they are, so the file is
read at its path, and all others are what they were before.
-/
namespace Buzzer

namespace Command

namespace Files

/-- The bytes of the file at a place, if there is one. -/
def file? (files : Files) (place : Place) : Option (List UInt8) :=
  match files.entry? place with
  | some (.file bytes) => some bytes
  | _ => none

/-- The files once those that a command has made are among them. -/
def after (files : Files) (made : Made) : Files := { files with contents := made ++ files.contents }

theorem file?_eq (files : Files) (place : Place) : files.file? place =
    (files.contents.find? fun (path, _) => Place.ofPath path = place).map (·.2) := by
  rw [file?, entry?]
  cases files.contents.find? fun (path, _) => Place.ofPath path = place with
  | some found => rfl
  | none => cases files.hasDirectory place <;> rfl

section Made

variable {files : Files} {path : String} {bytes : List UInt8}

theorem entry?_made : Files.entry? (files.after [(path, bytes)]) (Place.ofPath path) = some (.file bytes) := by
  have found : ((path, bytes) :: files.contents).find?
      (fun (other, _) => Place.ofPath other = Place.ofPath path) = some (path, bytes) :=
    List.find?_cons_of_pos (decide_eq_true rfl)
  rw [ entry?, after, List.singleton_append, found]

theorem find?_after {place : Place} (other : place ≠ Place.ofPath path) :
    (files.after [(path, bytes)]).contents.find? (fun (other, _) => Place.ofPath other = place) =
      files.contents.find? fun (other, _) => Place.ofPath other = place :=
  List.find?_cons_of_neg fun same => other (of_decide_eq_true same).symm

/-- A directory stays one unless a file is made in its place. -/
theorem entry?_after {place : Place} (other : place ≠ Place.ofPath path)
    (there : files.entry? place = some .directory) :
    Files.entry? (files.after [(path, bytes)]) place = some .directory := by
  have known : files.hasDirectory place = true →
      (files.after [(path, bytes)]).hasDirectory place = true := by
    simp only [hasDirectory, after, List.singleton_append, List.any_cons, Bool.or_eq_true]
    rintro (known | inside)
    · exact .inl known
    · exact .inr (.inr inside)
  revert there
  rw [ entry?, entry?, find?_after other]
  cases files.contents.find? (fun (other, _) => Place.ofPath other = place) with
  | some found =>
    intro there
    cases there
  | none =>
    intro there
    cases isKnown : files.hasDirectory place with
    | true => exact if_pos (known isKnown)
    | false =>
      rw [isKnown] at there
      cases there

theorem file?_after {place : Place} (other : place ≠ Place.ofPath path) :
    (files.after [(path, bytes)]).file? place = files.file? place := by
  rw [file?_eq, file?_eq, find?_after other]

theorem step_eq_ok {directory next : Place} {name : String} (stepped : step directory name = .ok next) :
    next = directory.enter name := by
  unfold step at stepped
  split at stepped
  · cases stepped
  · exact (Except.ok.inj stepped).symm

theorem foldl_of_follow {names : List String} {directory found : Place}
    (followed : files.follow directory names = .ok found) : found = names.foldl Place.enter directory := by
  induction names generalizing directory with
  | nil =>
    cases followed
    rfl
  | cons name names ih =>
    rw [follow] at followed
    obtain ⟨next, stepped, followed⟩ := exists_of_bind_eq_ok followed
    split at followed
    next => cases followed
    next => cases followed
    next => rw [ih followed, step_eq_ok stepped, List.foldl_cons]

/-- The directories on the way to a file are still there when it has been made, unless it takes the place of
one of them. -/
theorem follow_after (aside : files.entry? (Place.ofPath path) ≠ some .directory) {names : List String}
    {directory found : Place} (followed : files.follow directory names = .ok found) :
    (files.after [(path, bytes)]).follow directory names = .ok found := by
  induction names generalizing directory with
  | nil => exact followed
  | cons name names ih =>
    rw [follow] at followed
    obtain ⟨next, stepped, followed⟩ := exists_of_bind_eq_ok followed
    split at followed
    next => cases followed
    next => cases followed
    next there =>
      have other : next ≠ Place.ofPath path := by
        rintro rfl
        exact aside there
      simp only [follow, stepped, bind, Except.bind, entry?_after other there, ih followed]

/-- Where a path leads depends on the files by the directories on the way only. -/
theorem follow_of_locate {directory : Place} {name : Option String}
    (located : files.locate path = .ok (directory, name)) :
    files.follow (Place.start path) (pathNames path).dropLast = .ok directory ∧
      (∀ last, name = some last → (pathNames path).getLast? = some last) ∧
      ∀ other : Files, other.follow (Place.start path) (pathNames path).dropLast = .ok directory →
        other.locate path = .ok (directory, name) := by
  unfold locate at located ⊢
  split at located
  next => cases located
  next named =>
    split at located
    next => cases located
    next short =>
      obtain ⟨found, followed, same⟩ := exists_of_bind_eq_ok located
      obtain ⟨rfl, rfl⟩ := Prod.mk.inj (Except.ok.inj same)
      refine ⟨followed, ?_, ?_⟩
      · intro last kept
        exact (Option.filter_eq_some_iff.mp kept).1
      · intro other again
        simp only [if_neg named, if_neg short, again]
        rfl

/-- A path leads to the last of its names, in the directory where that is looked up. -/
theorem ofPath_of_locate {directory : Place} {name : String}
    (located : files.locate path = .ok (directory, some name)) :
    Place.ofPath path = directory.enter name := by
  obtain ⟨followed, last, -⟩ := follow_of_locate located
  have names : (pathNames path).dropLast ++ [name] = pathNames path :=
    List.dropLast_append_getLast? name (last name rfl)
  rw [Place.ofPath, ← names, List.foldl_append, ← foldl_of_follow followed]
  rfl

/-- What has been looked up when a file can be made: a directory, and a name in it that stands for no
directory. -/
theorem exists_of_checkMake (made : files.checkMake path = .ok ()) :
    ∃ directory name, files.locate path = .ok (directory, some name) ∧
      step directory name = .ok (Place.ofPath path) ∧ path.endsWith "/" = false ∧
      files.entry? (Place.ofPath path) ≠ some .directory := by
  unfold checkMake at made
  obtain ⟨⟨directory, last⟩, located, made⟩ := exists_of_bind_eq_ok made
  cases last with
  | none => cases made
  | some name =>
    have place := ofPath_of_locate located
    cases slash : path.endsWith "/" with
    | true =>
      simp only [slash, if_true] at made
      cases made
    | false =>
      simp only [slash, Bool.false_eq_true, if_false] at made
      obtain ⟨next, stepped, made⟩ := exists_of_bind_eq_ok made
      have entered := step_eq_ok stepped
      rw [← place] at entered
      rw [entered] at stepped made
      refine ⟨directory, name, located, stepped, rfl, ?_⟩
      intro there
      simp only [there] at made
      cases made

/-- The bytes of a file that has just been made are read at its path. -/
theorem read_made (made : files.checkMake path = .ok ()) :
    (files.after [(path, bytes)]).read path = .ok bytes := by
  obtain ⟨directory, name, located, stepped, noSlash, aside⟩ := exists_of_checkMake made
  obtain ⟨followed, -, locates⟩ := follow_of_locate located
  have located := locates (files.after [(path, bytes)]) (follow_after aside followed)
  simp only [read, located, stepped, entry?_made, noSlash, bind, Except.bind]
  rfl

end Made

end Files

/-- Whether a run has written a file and left every other as it was. -/
structure Wrote (files : Files) (outcome : Outcome) (path : String) (bytes : List UInt8) : Prop where
  made : outcome.made = [(path, bytes)]
  written : (files.after outcome.made).read path = .ok bytes
  others : ∀ place, place ≠ Place.ofPath path →
    (files.after outcome.made).file? place = files.file? place

theorem wrote_of_checkMake {files : Files} {path : String} {bytes : List UInt8} {outcome : Outcome}
    (made : files.checkMake path = .ok ()) (only : outcome.made = [(path, bytes)]) :
    Wrote files outcome path bytes := by
  refine ⟨only, ?_, ?_⟩
  · rw [only]
    exact Files.read_made made
  · intro place other
    rw [only]
    exact Files.file?_after other

end Command

end Buzzer

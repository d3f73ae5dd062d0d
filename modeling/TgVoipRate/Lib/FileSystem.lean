import Mathlib.Data.List.Basic
import Mathlib.Data.Set.Insert

/-!
# A file system and what a run does to it

Files by their paths, and a log of the effects of a run, in order. Two different paths are two
different files. Every change of a file goes through an operation that logs it, so that a claim
about what a run touches is one about its log.
-/

namespace FileSystem

/-- A path, as its bytes. -/
abbrev Path := List UInt8

/-- An effect of a run on a path. -/
inductive Effect
  /-- The file was opened for writing, which truncates it, or written. -/
  | wrote (path : Path)
  /-- The file was removed. -/
  | removed (path : Path)
  /-- The file was opened for reading. -/
  | read (path : Path)
  deriving DecidableEq

/-- The files and the effects so far. -/
structure World where
  /-- The content of a file, if it exists. -/
  files : Path → Option (List UInt8)
  /-- The effects, the first one first. -/
  log : List Effect

/-- Gives a file a content, creating it where it does not exist. -/
def World.write (w : World) (path : Path) (content : List UInt8) : World where
  files p := if p = path then some content else w.files p
  log := w.log ++ [.wrote path]

/-- Removes a file; nothing happens where it does not exist. -/
def World.remove (w : World) (path : Path) : World where
  files p := if p = path then none else w.files p
  log := w.log ++ [.removed path]

/-- Opens a file for reading. -/
def World.read (w : World) (path : Path) : World := { w with log := w.log ++ [.read path] }

@[simp] theorem World.read_files (w : World) (path : Path) : (w.read path).files = w.files := rfl

/-- A file that was written has what was written. -/
theorem World.write_files_self (w : World) (path : Path) (content : List UInt8) :
    (w.write path content).files path = some content :=
  if_pos rfl

/-- A file that was removed does not exist. -/
theorem World.remove_files_self (w : World) (path : Path) : (w.remove path).files path = none :=
  if_pos rfl

/-- The paths that a run opened for reading, in order. -/
def World.reads (w : World) : List Path :=
  w.log.filterMap fun
    | .read path => some path
    | _ => none

/-! ## What a run changes -/

/-- The effect changes the file at a path. -/
def Effect.Changes (e : Effect) (path : Path) : Prop := e = .wrote path ∨ e = .removed path

/-- A run from one file system to another that changes the files at some paths, and no others. -/
def World.Changes (w w' : World) (paths : Set Path) : Prop :=
  ∃ effects, w'.log = w.log ++ effects ∧
    (∀ path, (∃ e ∈ effects, e.Changes path) ↔ path ∈ paths) ∧
      ∀ path ∉ paths, w'.files path = w.files path

namespace World.Changes

variable {w w' w'' : World} {path : Path}

/-- No effect, no change. -/
theorem refl (w : World) : w.Changes w ∅ :=
  ⟨[], (List.append_nil _).symm, fun path => by simp, fun _ _ => rfl⟩

/-- Reading a file changes nothing. -/
theorem read (w : World) (path : Path) : w.Changes (w.read path) ∅ :=
  ⟨[.read path], rfl, fun path' => by simp [Effect.Changes], fun _ _ => rfl⟩

/-- Writing a file changes it. -/
theorem write (w : World) (path : Path) (content : List UInt8) :
    w.Changes (w.write path content) {path} :=
  ⟨[.wrote path], rfl, fun path' => by simp [Effect.Changes, eq_comm], fun _ h => if_neg h⟩

/-- Removing a file changes it. -/
theorem remove (w : World) (path : Path) : w.Changes (w.remove path) {path} :=
  ⟨[.removed path], rfl, fun path' => by simp [Effect.Changes, eq_comm], fun _ h => if_neg h⟩

/-- A run after a run changes what they change. -/
theorem trans {paths paths' : Set Path} (h : w.Changes w' paths) (h' : w'.Changes w'' paths') :
    w.Changes w'' (paths ∪ paths') := by
  obtain ⟨effects, hlog, hchanges, hfiles⟩ := h
  obtain ⟨effects', hlog', hchanges', hfiles'⟩ := h'
  refine ⟨effects ++ effects', by rw [hlog', hlog, List.append_assoc], fun path => ?_,
    fun path hpath => ?_⟩
  · rw [Set.mem_union, ← hchanges, ← hchanges']
    simp only [List.mem_append, or_and_right, exists_or]
  · obtain ⟨hpath₁, hpath₂⟩ := not_or.mp hpath
    exact (hfiles' path hpath₂).trans (hfiles path hpath₁)

/-- The changed paths, described in another way. -/
theorem congr {paths paths' : Set Path} (h : w.Changes w' paths)
    (heq : ∀ path, path ∈ paths ↔ path ∈ paths') : w.Changes w' paths' :=
  Set.ext heq ▸ h

/-- A file that is not changed keeps its content. -/
theorem files_eq {paths : Set Path} (h : w.Changes w' paths) (hpath : path ∉ paths) :
    w'.files path = w.files path := by
  obtain ⟨-, -, -, hfiles⟩ := h
  exact hfiles path hpath

/-- The effects of the run that change a file. -/
theorem effects_iff {paths : Set Path} (h : w.Changes w' paths) :
    (∃ e ∈ w'.log.drop w.log.length, e.Changes path) ↔ path ∈ paths := by
  obtain ⟨effects, hlog, hchanges, -⟩ := h
  rw [hlog, List.drop_left]
  exact hchanges path

end World.Changes

end FileSystem

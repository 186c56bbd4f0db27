import Mathlib.Data.List.Sort
import Mathlib.Data.Char
import Mathlib.Data.List.Lex
import AppFit.Lib.Shell

/- The working directory that the launcher script and the HTTP server share: the
   script leaves temp-plot files in it, the server lists, reads and removes them. -/
set_option autoImplicit false

namespace AppFit.Server

open AppFit.Shell

-- The writer is ghost state: the serial number of the request whose script
-- execution wrote the file. No modelled function reads it.
structure StoredFile where
  name : Text
  content : Text
  writer : Nat
deriving DecidableEq

@[ext]
structure Directory where
  files : List StoredFile
  distinct : (files.map StoredFile.name).Nodup

def Directory.remove (directory : Directory) (gone : Text → Bool) : Directory :=
  ⟨directory.files.filter fun file => !gone file.name,
    directory.distinct.sublist (List.filter_sublist.map _)⟩

def Directory.write (directory : Directory) (file : StoredFile) : Directory :=
  ⟨file :: (directory.remove (· == file.name)).files, by
    refine List.nodup_cons.mpr ⟨?_, (directory.remove (· == file.name)).distinct⟩
    intro member
    obtain ⟨other, kept, same⟩ := List.mem_map.mp member
    simp [Directory.remove, same] at kept⟩

def Directory.read (directory : Directory) (name : Text) : Option StoredFile :=
  directory.files.find? fun file => file.name == name

def Directory.listdir (directory : Directory) : List Text := directory.files.map StoredFile.name

-- re.match('temp-plot\.(\d)+\.html', name) anchors at the start only: whatever
-- follows ".html" is accepted.
def plotMatch (name : Text) : Bool :=
  let rest := name.drop "temp-plot.".toList.length
  "temp-plot.".toList.isPrefixOf name && !(rest.takeWhile Char.isDigit).isEmpty &&
    ".html".toList.isPrefixOf (rest.dropWhile Char.isDigit)

def plotName (runId : Nat) : Text := "temp-plot.".toList ++ Nat.toDigits 10 runId ++ ".html".toList

def collectStep (state : List StoredFile × Directory) (name : Text) : List StoredFile × Directory :=
  if plotMatch name then
    match state.2.read name with
    | none => state
    | some file => (state.1 ++ [file], state.2.remove (· == name))
  else state

-- for file in sorted(os.listdir('.')): read and remove what matches.
def collectPlots (directory : Directory) : List StoredFile × Directory :=
  (directory.listdir.insertionSort (· ≤ ·)).foldl collectStep ([], directory)

theorem mem_remove (directory : Directory) (gone : Text → Bool) (file : StoredFile) :
    file ∈ (directory.remove gone).files ↔ file ∈ directory.files ∧ gone file.name = false := by
  simp [Directory.remove]

theorem mem_write (directory : Directory) (written file : StoredFile) :
    file ∈ (directory.write written).files ↔
      file = written ∨ file ∈ directory.files ∧ file.name ≠ written.name := by
  simp [Directory.write, mem_remove]

theorem read_mem (directory : Directory) (name : Text) (file : StoredFile)
    (found : directory.read name = some file) : file ∈ directory.files ∧ file.name = name :=
  ⟨List.mem_of_find?_eq_some found, by simpa using List.find?_some found⟩

theorem read_listed (directory : Directory) (name : Text) (listed : name ∈ directory.listdir) :
    ∃ file, directory.read name = some file := by
  obtain ⟨file, member, same⟩ := List.mem_map.mp listed
  exact Option.isSome_iff_exists.mp (List.find?_isSome.mpr ⟨file, member, by simp [same]⟩)

theorem read_unique (directory : Directory) (file : StoredFile) (member : file ∈ directory.files) :
    directory.read file.name = some file := by
  obtain ⟨found, read⟩ := read_listed directory file.name (List.mem_map_of_mem member)
  have ⟨present, same⟩ := read_mem directory file.name found read
  rw [read, List.inj_on_of_nodup_map directory.distinct present member same]

theorem read_remove_other (directory : Directory) (gone name : Text) (other : name ≠ gone) :
    (directory.remove (· == gone)).read name = directory.read name := by
  rw [Directory.read, Directory.read, Directory.remove, List.find?_filter]
  congr 1
  funext file
  by_cases same : file.name = name <;> simp [same, other]

theorem collect_step_skip (found : List StoredFile) (directory : Directory) (name : Text)
    (other : plotMatch name = false) : collectStep (found, directory) name = (found, directory) := by
  simp [collectStep, other]

theorem collect_step_read (found : List StoredFile) (directory : Directory) (name : Text) (file : StoredFile)
    (matched : plotMatch name = true) (read : directory.read name = some file) :
    collectStep (found, directory) name = (found ++ [file], directory.remove (· == name)) := by
  simp [collectStep, matched, read]

-- The files read so far are looked up in the directory as it was before the
-- loop, because a listed name is removed only at its own turn.
theorem collect_loop (names : List Text) (found : List StoredFile) (directory : Directory)
    (distinct : names.Nodup) (listed : ∀ name ∈ names, name ∈ directory.listdir) :
    names.foldl collectStep (found, directory) =
      (found ++ (names.filter plotMatch).filterMap directory.read,
        directory.remove fun name => decide (name ∈ names) && plotMatch name) := by
  induction names generalizing found directory with
  | nil => simp [Directory.remove]
  | cons name tail ih =>
      obtain ⟨absent, distinct⟩ := List.nodup_cons.mp distinct
      have listedTail : ∀ other ∈ tail, other ∈ directory.listdir := fun other member => listed other (by simp [member])
      rw [List.foldl_cons]
      cases matched : plotMatch name with
      | false =>
          rw [collect_step_skip found directory name matched, ih found directory distinct listedTail]
          refine Prod.ext (by simp [matched]) (Directory.ext (List.filter_congr ?_))
          intro file _
          by_cases same : file.name = name <;> simp [same, matched]
      | true =>
          obtain ⟨file, read⟩ := read_listed directory name (listed name (by simp))
          have stillListed : ∀ other ∈ tail, other ∈ (directory.remove (· == name)).listdir := by
            intro other member
            obtain ⟨kept, present, same⟩ := List.mem_map.mp (listedTail other member)
            have different : kept.name ≠ name := fun equal => absent (equal ▸ same ▸ member)
            exact List.mem_map.mpr ⟨kept, (mem_remove _ _ _).mpr ⟨present, by simp [different]⟩, same⟩
          rw [collect_step_read found directory name file matched read, ih _ _ distinct stillListed]
          refine Prod.ext ?_ (Directory.ext ?_)
          · have unchanged : (tail.filter plotMatch).filterMap (directory.remove (· == name)).read =
                (tail.filter plotMatch).filterMap directory.read := by
              apply List.filterMap_congr
              intro other member
              exact read_remove_other directory name other
                (fun equal => absent (equal ▸ (List.mem_filter.mp member).1))
            simp [matched, read, unchanged]
          · simp only [Directory.remove, List.filter_filter]
            apply List.filter_congr
            intro kept _
            by_cases same : kept.name = name <;> simp [same, matched]

theorem collect_plots_eq (directory : Directory) :
    collectPlots directory =
      (((directory.listdir.insertionSort (· ≤ ·)).filter plotMatch).filterMap directory.read,
        directory.remove plotMatch) := by
  have sorted := List.perm_insertionSort (· ≤ ·) directory.listdir
  rw [collectPlots, collect_loop _ [] directory (sorted.nodup_iff.mpr directory.distinct)
    (fun name member => sorted.mem_iff.mp member)]
  refine Prod.ext (by simp) (Directory.ext (List.filter_congr ?_))
  intro file member
  have listed : file.name ∈ directory.listdir.insertionSort (· ≤ ·) :=
    sorted.mem_iff.mpr (List.mem_map_of_mem member)
  simp [listed]

theorem mem_collected (directory : Directory) (file : StoredFile) :
    file ∈ (collectPlots directory).1 ↔ file ∈ directory.files ∧ plotMatch file.name = true := by
  rw [collect_plots_eq, List.mem_filterMap]
  constructor
  · intro found
    obtain ⟨name, member, read⟩ := found
    obtain ⟨present, same⟩ := read_mem directory name file read
    exact ⟨present, by simpa [same] using (List.mem_filter.mp member).2⟩
  · intro found
    obtain ⟨present, matched⟩ := found
    have listed : file.name ∈ directory.listdir.insertionSort (· ≤ ·) :=
      (List.perm_insertionSort (· ≤ ·) directory.listdir).mem_iff.mpr (List.mem_map_of_mem present)
    exact ⟨file.name, List.mem_filter.mpr ⟨listed, matched⟩, read_unique directory file present⟩

theorem collect_leaves_no_plots (directory : Directory) (file : StoredFile)
    (member : file ∈ (collectPlots directory).2.files) : plotMatch file.name = false := by
  rw [collect_plots_eq] at member
  exact ((mem_remove directory plotMatch file).mp member).2

end AppFit.Server

import Mathlib.Data.List.Induction
import Mathlib.Logic.Function.Basic
import AppFit.Lib.Runs
import AppFit.Lib.Shell

/- POST /upload: allowed_file and file_upload_handler of server.py, beside the
   line of LaunchAgent.sh that empties the download folder. Folders are found by
   their exact name, as on a case-sensitive file system. werkzeug's
   secure_filename is a parameter; so is what tar does with one archive. -/
set_option autoImplicit false

namespace AppFit.Server

open AppFit.Shell AppFit.Runs

def uploadFolder : Text := "downloads".toList
def packageName : Text := "package".toList
def allowedExtensions : List Text :=
  ["py".toList, "bz2".toList, "gz".toList, "egg".toList, "xz".toList, "zip".toList]
def tarfileExtensions : List Text := [".xz".toList, ".gz".toList, ".tar".toList]

-- text.rsplit(separator, 1), none when the separator does not occur.
def rsplitOnce (separator : Char) : Text → Option (Text × Text)
  | [] => none
  | head :: rest =>
      match rsplitOnce separator rest with
      | some (before, after) => some (head :: before, after)
      | none => if head = separator then some ([], rest) else none

def allowedFile (filename : Text) : Bool :=
  match rsplitOnce '.' filename with
  | none => false
  | some (_, extension) => allowedExtensions.contains extension

-- os.path.splitext(name)[1] of a single path component: leading dots do not
-- start an extension.
def splitext (name : Text) : Text :=
  match rsplitOnce '.' name with
  | none => []
  | some (stem, extension) => if stem.any (· ≠ '.') then '.' :: extension else []

structure SecureFilename where
  secure : Text → Text
  safe : ∀ name, allowedFile name = true → secure name ≠ [] ∧ '/' ∉ secure name ∧ secure name ≠ packageName

abbrev Tree := Text → Option Text
abbrev Member := Text × Text

def emptyTree : Tree := fun _ => none

-- Paths in an archive are taken as normalized: two spellings of one path ("a" and
-- "./a") do not occur.
def extractMember (tree : Tree) (entry : Member) : Tree := Function.update tree entry.1 (some entry.2)

def extract (tree : Tree) (members : List Member) : Tree := members.foldl extractMember tree

structure Folder where
  saved : Tree
  package : Option Tree

abbrev FileSystem := Text → Option Folder

-- tarFailed is the number of members tar had extracted when it ended with an error.
structure Archive where
  filename : Text
  content : Text
  members : List Member
  tarFailed : Option Nat
deriving DecidableEq

inductive Answer where
  | noFilePart
  | noSelectedFile
  | uploaded
  | error
deriving DecidableEq

def unpacks (names : SecureFilename) (archive : Archive) : Bool :=
  tarfileExtensions.contains (splitext (names.secure archive.filename))

def extracted (archive : Archive) : List Member :=
  match archive.tarFailed with
  | none => archive.members
  | some count => archive.members.take count

-- A refused file gives no response at all, which Flask turns into an error.
def fileUploadHandler (names : SecureFilename) (fs : FileSystem) : Option Archive → FileSystem × Answer
  | none => (fs, .noFilePart)
  | some archive =>
      if archive.filename = [] then (fs, .noSelectedFile)
      else if allowedFile archive.filename then
        let folder := (fs uploadFolder).getD ⟨emptyTree, none⟩
        let saved := Function.update folder.saved (names.secure archive.filename) (some archive.content)
        let package := folder.package.getD emptyTree
        if unpacks names archive then
          (Function.update fs uploadFolder (some ⟨saved, some (extract package (extracted archive))⟩),
            if archive.tarFailed = none then .uploaded else .error)
        else (Function.update fs uploadFolder (some ⟨saved, some package⟩), .uploaded)
      else (fs, .error)

def cleanedFolder : Text := "Downloads".toList

def starStarMatch (middle name : Text) : Bool := name.tails.any middle.isPrefixOf

-- rm -rf Downloads/*.tar.* Downloads/*.xz Downloads/package/*; a star matches no
-- leading dot.
def cleanDownloads (fs : FileSystem) : FileSystem :=
  match fs cleanedFolder with
  | none => fs
  | some folder =>
      Function.update fs cleanedFolder (some
        { saved := fun name =>
            if name.head? ≠ some '.' ∧ (starStarMatch ".tar.".toList name ∨ ".xz".toList.isSuffixOf name) then none
            else folder.saved name
          package := folder.package.map fun tree => fun path => if path.head? = some '.' then tree path else none })

inductive FolderEvent where
  | upload (archive : Option Archive)
  | launch

def folderStep (names : SecureFilename) (fs : FileSystem) : FolderEvent → FileSystem
  | .upload archive => (fileUploadHandler names fs archive).1
  | .launch => cleanDownloads fs

def packageTree (fs : FileSystem) : Option Tree := (fs uploadFolder).bind Folder.package

def HoldsUpload (names : SecureFilename) (fs : FileSystem) : FolderEvent → Prop
  | .upload (some archive) =>
      allowedFile archive.filename = true → (fileUploadHandler names fs (some archive)).2 = .uploaded →
        packageTree (fileUploadHandler names fs (some archive)).1 = some (extract emptyTree archive.members)
  | _ => True

-- The abstract view: everything unpacked since the folder was created, in order.
def unpackStep (names : SecureFilename) (unpacked : List Member) : FolderEvent → List Member
  | .upload (some archive) =>
      if allowedFile archive.filename ∧ unpacks names archive then unpacked ++ extracted archive else unpacked
  | _ => unpacked

-- An archive that is unpacked names again every path unpacked before; one that
-- is not unpacked finds the directory already as its members would make it.
def Replaces (names : SecureFilename) (unpacked : List Member) : FolderEvent → Prop
  | .upload (some archive) =>
      allowedFile archive.filename = true →
        if unpacks names archive then
          archive.tarFailed = none → ∀ entry ∈ unpacked, ∃ member ∈ archive.members, member.1 = entry.1
        else extract emptyTree unpacked = extract emptyTree archive.members
  | _ => True

def Unpacked (fs : FileSystem) (unpacked : List Member) : Prop :=
  (packageTree fs).getD emptyTree = extract emptyTree unpacked

theorem extract_append (tree : Tree) (first second : List Member) :
    extract tree (first ++ second) = extract (extract tree first) second :=
  List.foldl_append

theorem extract_other (tree : Tree) (members : List Member) (path : Text)
    (other : ∀ member ∈ members, member.1 ≠ path) : extract tree members path = tree path := by
  induction members generalizing tree with
  | nil => rfl
  | cons member tail ih =>
      have later := ih (extractMember tree member) (fun next present => other next (by simp [present]))
      have here : extractMember tree member path = tree path :=
        Function.update_of_ne (Ne.symm (other member (by simp))) _ _
      exact later.trans here

theorem extract_member (left right : Tree) (members : List Member) (path : Text)
    (named : ∃ member ∈ members, member.1 = path) : extract left members path = extract right members path := by
  induction members generalizing left right with
  | nil =>
      obtain ⟨member, present, _⟩ := named
      cases present
  | cons member tail ih =>
      by_cases again : ∃ later ∈ tail, later.1 = path
      · exact ih (extractMember left member) (extractMember right member) again
      · obtain ⟨first, present, same⟩ := named
        have head : first = member := by
          rcases List.mem_cons.mp present with same | later
          · exact same
          · exact False.elim (again ⟨first, later, ‹_›⟩)
        subst head
        have others : ∀ later ∈ tail, later.1 ≠ path := fun later member equal => again ⟨later, member, equal⟩
        have leftTail := extract_other (extractMember left first) tail path others
        have rightTail := extract_other (extractMember right first) tail path others
        refine leftTail.trans (Eq.trans ?_ rightTail.symm)
        simp [extractMember, same]

theorem extract_some (members : List Member) (path : Text) (named : ∃ member ∈ members, member.1 = path) :
    extract emptyTree members path ≠ none := by
  induction members using List.reverseRecOn with
  | nil =>
      obtain ⟨member, present, _⟩ := named
      cases present
  | append_singleton members last ih =>
      rw [extract_append]
      by_cases same : path = last.1
      · subst same
        simp [extract, extractMember]
      · obtain ⟨member, present, equal⟩ := named
        have earlier : member ∈ members := by
          rcases List.mem_append.mp present with earlier | here
          · exact earlier
          · exact False.elim (same (by rw [← equal, List.mem_singleton.mp here]))
        simp only [extract, List.foldl_cons, List.foldl_nil, extractMember, Function.update_of_ne same]
        exact ih ⟨member, earlier, equal⟩

theorem extract_exact_iff (unpacked members : List Member) :
    extract (extract emptyTree unpacked) members = extract emptyTree members ↔
      ∀ entry ∈ unpacked, ∃ member ∈ members, member.1 = entry.1 := by
  constructor
  · intro exact entry present
    by_contra missing
    have others : ∀ member ∈ members, member.1 ≠ entry.1 := fun member inside same => missing ⟨member, inside, same⟩
    have left := extract_other (extract emptyTree unpacked) members entry.1 others
    have right := extract_other emptyTree members entry.1 others
    rw [exact, right] at left
    exact extract_some unpacked entry.1 ⟨entry, present, rfl⟩ left.symm
  · intro covered
    funext path
    by_cases named : ∃ member ∈ members, member.1 = path
    · exact extract_member _ _ members path named
    · have others : ∀ member ∈ members, member.1 ≠ path := fun member inside same => named ⟨member, inside, same⟩
      have earlier : ∀ entry ∈ unpacked, entry.1 ≠ path := by
        intro entry present same
        obtain ⟨member, inside, equal⟩ := covered entry present
        exact others member inside (equal.trans same)
      rw [extract_other _ members path others, extract_other _ members path others,
        extract_other _ unpacked path earlier]

theorem upload_refused (names : SecureFilename) (fs : FileSystem) (archive : Archive)
    (refused : allowedFile archive.filename = false) : (fileUploadHandler names fs (some archive)).1 = fs := by
  by_cases empty : archive.filename = [] <;> simp [fileUploadHandler, empty, refused]

theorem allowed_nonempty (filename : Text) (allowed : allowedFile filename = true) : filename ≠ [] := by
  intro same
  subst same
  cases allowed

theorem upload_accepted (names : SecureFilename) (fs : FileSystem) (archive : Archive)
    (allowed : allowedFile archive.filename = true) :
    packageTree (fileUploadHandler names fs (some archive)).1 =
        some (if unpacks names archive then extract ((packageTree fs).getD emptyTree) (extracted archive)
          else (packageTree fs).getD emptyTree) ∧
      ((fileUploadHandler names fs (some archive)).2 = .uploaded ↔
        (unpacks names archive = true → archive.tarFailed = none)) := by
  have before : ((fs uploadFolder).getD ⟨emptyTree, none⟩).package.getD emptyTree = (packageTree fs).getD emptyTree := by
    cases found : fs uploadFolder <;> simp [packageTree, found]
  simp only [fileUploadHandler, if_neg (allowed_nonempty archive.filename allowed), if_pos allowed, before]
  cases unpacks names archive with
  | false => simp [packageTree]
  | true => cases archive.tarFailed <;> simp [packageTree]

-- The launcher empties Downloads, which is not the folder the uploads go to.
theorem clean_downloads_package (fs : FileSystem) : packageTree (cleanDownloads fs) = packageTree fs := by
  have different : uploadFolder ≠ cleanedFolder := by decide
  rw [cleanDownloads]
  split
  · rfl
  · simp [packageTree, Function.update_of_ne different]

theorem holds_upload_iff (names : SecureFilename) (fs : FileSystem) (unpacked : List Member) (event : FolderEvent)
    (related : Unpacked fs unpacked) : HoldsUpload names fs event ↔ Replaces names unpacked event := by
  cases event with
  | launch => exact Iff.rfl
  | upload request =>
      cases request with
      | none => exact Iff.rfl
      | some archive =>
          unfold HoldsUpload Replaces
          refine imp_congr_right fun allowed => ?_
          obtain ⟨tree, answered⟩ := upload_accepted names fs archive allowed
          rw [tree, answered, related, Option.some.injEq]
          cases unpacks names archive with
          | false => simp
          | true =>
              simp only [if_true, true_implies]
              refine imp_congr_right fun complete => ?_
              rw [extracted, complete]
              exact extract_exact_iff unpacked archive.members

theorem folder_step_unpacked (names : SecureFilename) (fs : FileSystem) (unpacked : List Member) (event : FolderEvent)
    (related : Unpacked fs unpacked) : Unpacked (folderStep names fs event) (unpackStep names unpacked event) := by
  cases event with
  | launch =>
      simp only [Unpacked, folderStep, unpackStep, clean_downloads_package]
      exact related
  | upload request =>
      cases request with
      | none => exact related
      | some archive =>
          cases allowed : allowedFile archive.filename with
          | false =>
              simp only [Unpacked, folderStep, unpackStep, allowed, upload_refused names fs archive allowed]
              exact related
          | true =>
              obtain ⟨tree, _⟩ := upload_accepted names fs archive allowed
              simp only [Unpacked, folderStep, unpackStep, tree, allowed, true_and, Option.getD_some]
              cases unpacks names archive with
              | false => exact related
              | true =>
                  simp only [if_true, extract_append]
                  rw [related]

theorem package_holds_upload_iff (names : SecureFilename) (fs : FileSystem) (events : List FolderEvent)
    (absent : fs uploadFolder = none) :
    Along (folderStep names) (HoldsUpload names) fs events ↔
      Along (unpackStep names) (Replaces names) [] events := by
  refine along_iff_of_simulation (folderStep names) (unpackStep names) Unpacked (HoldsUpload names) (Replaces names)
    (fun state unpacked event related => holds_upload_iff names state unpacked event related)
    (fun state unpacked event related _ => folder_step_unpacked names state unpacked event related) fs [] events ?_
  simp [Unpacked, packageTree, absent, extract]

theorem rsplit_once_eq (separator : Char) (text before after : Text)
    (split : rsplitOnce separator text = some (before, after)) : text = before ++ separator :: after := by
  induction text generalizing before with
  | nil => cases split
  | cons head rest ih =>
      rw [rsplitOnce] at split
      cases found : rsplitOnce separator rest with
      | none =>
          rw [found] at split
          by_cases same : head = separator
          · simp only [if_pos same, Option.some.injEq, Prod.mk.injEq] at split
            rw [← split.1, ← split.2, same]
            rfl
          · simp [if_neg same] at split
      | some pair =>
          obtain ⟨first, second⟩ := pair
          simp only [found, Option.some.injEq, Prod.mk.injEq] at split
          obtain ⟨rfl, rfl⟩ := split
          rw [ih first found]
          rfl

def safeCharacter (character : Char) : Bool := character.isAlphanum || ['_', '.', '-'].contains character

-- secure_filename on names of safe characters: the others are dropped.
def asciiNames : SecureFilename where
  secure := List.filter safeCharacter
  safe name allowed := by
    rw [allowedFile] at allowed
    cases split : rsplitOnce '.' name with
    | none => simp [split] at allowed
    | some pair =>
        have dot : '.' ∈ name.filter safeCharacter := by
          rw [rsplit_once_eq '.' name pair.1 pair.2 split]
          exact List.mem_filter.mpr ⟨by simp, by decide⟩
        refine ⟨List.ne_nil_of_mem dot, fun slash => ?_, fun same => ?_⟩
        · exact absurd (List.mem_filter.mp slash).2 (by decide)
        · exact absurd (same ▸ dot) (by decide)

def noFolders : FileSystem := fun _ => none

def zipArchive : Archive := ⟨"app.zip".toList, "zip".toList, [("main.py".toList, "run".toList)], none⟩
def firstArchive : Archive :=
  ⟨"one.tar.gz".toList, "tar".toList, [("main.py".toList, "1".toList), ("old.py".toList, "1".toList)], none⟩
def secondArchive : Archive := ⟨"two.tar.gz".toList, "tar".toList, [("main.py".toList, "2".toList)], none⟩

theorem grown_archive_replaces :
    packageTree (run (folderStep asciiNames) noFolders
        [.upload (some secondArchive), .launch, .upload (some firstArchive)]) =
      some (extract emptyTree firstArchive.members) := by
  have replaces : Along (unpackStep asciiNames) (Replaces asciiNames) []
      [.upload (some secondArchive), .launch, .upload (some firstArchive)] := by
    refine ⟨fun _ => ?_, trivial, fun _ => ?_, trivial⟩
    · rw [if_pos (by decide)]
      decide
    · rw [if_pos (by decide)]
      decide
  have holds := (package_holds_upload_iff asciiNames noFolders _ rfl).mpr replaces
  exact holds.2.2.1 (by decide) (by decide)

theorem uploads_not_held :
    ¬ Along (folderStep asciiNames) (HoldsUpload asciiNames) noFolders [.upload (some zipArchive)] ∧
      ¬ Along (folderStep asciiNames) (HoldsUpload asciiNames) noFolders
        [.upload (some firstArchive), .launch, .upload (some secondArchive)] := by
  refine ⟨fun holds => ?_, fun holds => ?_⟩
  · have tree := holds.1 (by decide) (by decide)
    exact absurd (congrArg (Option.map fun tree => tree "main.py".toList) tree) (by decide)
  · have tree := holds.2.2.1 (by decide) (by decide)
    exact absurd (congrArg (Option.map fun tree => tree "old.py".toList) tree) (by decide)

end AppFit.Server

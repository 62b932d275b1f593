import NanoDB.Index.Growth

/-!
# A resize that fails

{lit}`resize` unmaps the file before it maps it again, and {lit}`open_file` sets {lit}`file_size_`
to the new size before the first call that can fail.  Whichever call fails, the exception leaves a
size without a mapping: {lit}`data_` is null, or {lit}`MAP_FAILED`.

Main results:

- Theorem {lit}`resize_of_success`: a resize that does not throw is that of {lit}`MMapHandler`, and
  maps the whole file.
- Theorem {lit}`getData_of_throws`: after an exception there is no mapping.
- Theorem {lit}`failed_resize_usable_iff`: the size is not above the length of the mapping iff it
  is 0.
- Theorem {lit}`failed_growth_unsound`: after a failed growth step the offset check accepts every
  slot that it accepted before, and there is nothing behind it.
-/

namespace NanoDB.Index

/-! ## System calls -/

inductive Platform where
  | posix
  | windows
deriving DecidableEq, Repr

/-- The calls of {lit}`open_file` that can fail. -/
inductive SystemCall where
  | createDirectories
  | open
  | ftruncate
  | mmap
  | createFile
  | setEndOfFile
  | createFileMapping
  | mapViewOfFile
deriving DecidableEq, Repr

/-- {lit}`data_`. -/
inductive Mapping where
  | null
  | mapFailed
  | mapped (length : Nat)
deriving DecidableEq, Repr

/-- The number of bytes behind the pointer. -/
def Mapping.length : Mapping → Nat
  | .null => 0
  | .mapFailed => 0
  | .mapped length => length

/-- The length of the file, {lit}`file_size_` and {lit}`data_`. -/
structure MappedFile where
  fileLength : Nat
  fileSize : Nat := 0
  data : Mapping := .null
deriving DecidableEq, Repr

/-- The handler after a call, and the message of the exception if it throws. -/
structure Outcome where
  file : MappedFile
  error : Option String := none
deriving DecidableEq, Repr

namespace MappedFile

def getData (s : MappedFile) : Mapping :=
  s.data

def getSize (s : MappedFile) : Nat :=
  s.fileSize

def closeFile (s : MappedFile) : MappedFile :=
  { s with data := .null }

variable (fails : SystemCall → Bool)

/-- Map the file with {lit}`mmap`, which does not map 0 bytes. -/
def mapPosix (s : MappedFile) : Outcome :=
  if fails .mmap ∨ s.fileSize = 0 then
    { file := { s with data := .mapFailed }, error := some "mmap failed" }
  else { file := { s with data := .mapped s.fileSize } }

/-- {lit}`open_file` from {lit}`open` on. -/
def openPosix (s : MappedFile) (minSize : Nat) : Outcome :=
  if fails .open then { file := s, error := some "Failed to open file (POSIX)" }
  else if s.fileLength < minSize then
    if fails .ftruncate then { file := s, error := some "Failed to resize file" }
    else mapPosix fails { s with fileLength := minSize }
  else mapPosix fails { s with fileSize := s.fileLength }

/-- Map the file as long as it is; an empty file has no mapping. -/
def mapWindows (s : MappedFile) : Outcome :=
  if fails .createFileMapping ∨ s.fileLength = 0 then
    { file := s, error := some "Failed to create mapping" }
  else if fails .mapViewOfFile then { file := s, error := some "Failed to map view" }
  else { file := { s with data := .mapped s.fileLength } }

/-- {lit}`open_file` from {lit}`CreateFileA` on.  The result of {lit}`SetEndOfFile` is not looked
at. -/
def openWindows (s : MappedFile) (minSize : Nat) : Outcome :=
  if fails .createFile then { file := s, error := some "Failed to open file (Windows)" }
  else if s.fileLength < minSize then
    if fails .setEndOfFile then mapWindows fails s
    else mapWindows fails { s with fileLength := minSize }
  else mapWindows fails { s with fileSize := s.fileLength }

/-- What is compiled for a platform. -/
def openOn : Platform → MappedFile → Nat → Outcome
  | .posix => openPosix fails
  | .windows => openWindows fails

/-- {lit}`open_file`. -/
def openFile (os : Platform) (s : MappedFile) (minSize : Nat) : Outcome :=
  let s : MappedFile := { s with fileSize := minSize }
  if fails .createDirectories then { file := s, error := some "create_directories" }
  else openOn fails os s minSize

def resize (os : Platform) (s : MappedFile) (newSize : Nat) : Outcome :=
  openFile fails os s.closeFile newSize

/-- The call that opens the file. -/
def openCall : Platform → SystemCall
  | .posix => .open
  | .windows => .createFile

/-- The length of the file when it is mapped. -/
def mappedLength (os : Platform) (s : MappedFile) (newSize : Nat) : Nat :=
  if os = .windows ∧ fails .setEndOfFile = true then s.fileLength else max newSize s.fileLength

/-! ## What a resize leaves -/

/-- A handler that was opened has a size; and either it threw and there is no mapping, or the file
is mapped at a length. -/
structure Opened (o : Outcome) (size length : Nat) : Prop where
  getSize : o.file.getSize = size
  getData : (o.error ≠ none ∧ o.file.getData.length = 0) ∨
    (o.error = none ∧ o.file.fileLength = length ∧ o.file.getData = .mapped length)

variable {fails : SystemCall → Bool} {s : MappedFile} {newSize : Nat}

theorem opened_of_error {message : String} (hnull : s.data = .null) (length : Nat) :
    Opened { file := s, error := some message } s.fileSize length := by
  refine ⟨rfl, .inl ⟨by simp, ?_⟩⟩
  dsimp only [MappedFile.getData]
  rw [hnull]
  rfl

theorem opened_mapPosix (hsize : s.fileSize = s.fileLength) :
    Opened (mapPosix fails s) s.fileLength s.fileLength := by
  rw [mapPosix]
  split
  · exact ⟨hsize, .inl ⟨by simp, rfl⟩⟩
  · exact ⟨hsize, .inr ⟨rfl, rfl, by rw [hsize]; rfl⟩⟩

theorem opened_mapWindows (hnull : s.data = .null) :
    Opened (mapWindows fails s) s.fileSize s.fileLength := by
  rw [mapWindows]
  split
  · exact opened_of_error hnull _
  · split
    · exact opened_of_error hnull _
    · exact ⟨rfl, .inr ⟨rfl, rfl, rfl⟩⟩

theorem opened_openPosix (hnull : s.data = .null) (hsize : s.fileSize = newSize) :
    Opened (openPosix fails s newSize)
      (if fails .open = true then newSize else max newSize s.fileLength)
      (max newSize s.fileLength) := by
  rw [openPosix]
  split
  · rw [← hsize]
    exact opened_of_error hnull _
  · split
    · next hshort =>
        rw [max_eq_left (Nat.le_of_lt hshort)]
        split
        · rw [← hsize]
          exact opened_of_error hnull _
        · exact opened_mapPosix (s := { s with fileLength := newSize }) hsize
    · next hlong =>
        rw [max_eq_right (Nat.not_lt.mp hlong)]
        exact opened_mapPosix (s := { s with fileSize := s.fileLength }) rfl

theorem opened_openWindows (hnull : s.data = .null) (hsize : s.fileSize = newSize) :
    Opened (openWindows fails s newSize)
      (if fails .createFile = true then newSize else max newSize s.fileLength)
      (if fails .setEndOfFile = true then s.fileLength else max newSize s.fileLength) := by
  rw [openWindows]
  split
  · rw [← hsize]
    exact opened_of_error hnull _
  · split
    · next hshort =>
        rw [max_eq_left (Nat.le_of_lt hshort)]
        split
        · rw [← hsize]
          exact opened_mapWindows hnull
        · rw [← hsize]
          exact opened_mapWindows (s := { s with fileLength := s.fileSize }) hnull
    · next hlong =>
        rw [max_eq_right (Nat.not_lt.mp hlong), ite_self]
        exact opened_mapWindows (s := { s with fileSize := s.fileLength }) hnull

/-- What {lit}`resize` leaves. -/
theorem opened_resize (fails : SystemCall → Bool) (os : Platform) (s : MappedFile)
    (newSize : Nat) :
    Opened (resize fails os s newSize)
      (if fails .createDirectories = true ∨ fails (openCall os) = true then newSize
      else max newSize s.fileLength)
      (mappedLength fails os s newSize) := by
  rw [resize, openFile]
  by_cases hdirectories : fails .createDirectories = true
  · rw [if_pos hdirectories, if_pos (.inl hdirectories)]
    exact opened_of_error rfl _
  · rw [if_neg hdirectories]
    simp only [or_iff_right hdirectories]
    cases os with
    | posix =>
        have hopened :
            Opened (openPosix fails { s.closeFile with fileSize := newSize } newSize) _ _ :=
          opened_openPosix rfl rfl
        have hlength : mappedLength fails .posix s newSize = max newSize s.fileLength := by
          simp [mappedLength]
        rw [hlength]
        exact hopened
    | windows =>
        have hopened :
            Opened (openWindows fails { s.closeFile with fileSize := newSize } newSize) _ _ :=
          opened_openWindows rfl rfl
        have hlength : mappedLength fails .windows s newSize =
            if fails .setEndOfFile = true then s.fileLength else max newSize s.fileLength := by
          simp [mappedLength]
        rw [hlength]
        exact hopened

/-- After an exception there is no mapping. -/
theorem getData_of_throws {os : Platform} (hthrows : (resize fails os s newSize).error ≠ none) :
    (resize fails os s newSize).file.getData.length = 0 := by
  rcases (opened_resize fails os s newSize).getData with ⟨-, hnone⟩ | ⟨hsuccess, -⟩
  · exact hnone
  · exact absurd hsuccess hthrows

/-- A resize that does not throw has opened the file. -/
theorem open_of_success {os : Platform} (hsuccess : (resize fails os s newSize).error = none) :
    ¬ (fails .createDirectories = true ∨ fails (openCall os) = true) := by
  rw [resize, openFile] at hsuccess
  rintro (hdirectories | hopen)
  · rw [if_pos hdirectories] at hsuccess
    cases hsuccess
  · split at hsuccess
    · cases hsuccess
    · cases os with
      | posix =>
          rw [openCall] at hopen
          rw [openOn, openPosix, if_pos hopen] at hsuccess
          cases hsuccess
      | windows =>
          rw [openCall] at hopen
          rw [openOn, openWindows, if_pos hopen] at hsuccess
          cases hsuccess

/-- A resize that does not throw is that of the handler that the index uses, and maps the whole
file; on Windows only if the file could be extended. -/
theorem resize_of_success {os : Platform} (hsuccess : (resize fails os s newSize).error = none)
    (hextends : ¬ (os = .windows ∧ fails .setEndOfFile = true)) :
    (⟨(resize fails os s newSize).file.fileLength, (resize fails os s newSize).file.getSize⟩ :
        MMapHandler) = MMapHandler.resize ⟨s.fileLength, s.fileSize⟩ newSize ∧
      (resize fails os s newSize).file.getData =
        .mapped (resize fails os s newSize).file.getSize := by
  have hopened := opened_resize fails os s newSize
  rw [if_neg (open_of_success hsuccess), mappedLength, if_neg hextends] at hopened
  rcases hopened.getData with ⟨hthrows, -⟩ | ⟨-, hlength, hdata⟩
  · exact absurd hsuccess hthrows
  · rw [hlength, hdata, hopened.getSize, MMapHandler.resize, MMapHandler.openFile]
    refine ⟨?_, rfl⟩
    split
    · next hshort => rw [max_eq_left (Nat.le_of_lt hshort)]
    · next hlong => rw [max_eq_right (Nat.not_lt.mp hlong)]

/-! ## Offset checks -/

/-- The storage can be used: the size is not above the length of the mapping, so the offset check
{lit}`HEADER_SIZE + id * sizeof(Node) + sizeof(Node) <= get_size()` accepts only slots inside it. -/
structure Usable (s : MappedFile) : Prop where
  size_le : s.getSize ≤ s.getData.length
  checks : ∀ id, MMapHandler.slotEnd id ≤ s.getSize → MMapHandler.slotEnd id ≤ s.getData.length

/-- For every handler, every new size and every way in which {lit}`resize` throws, on both
platforms: the storage can be used afterwards iff the new size is 0, and the file could not be
opened or has no bytes. -/
theorem failed_resize_usable_iff (fails : SystemCall → Bool) (os : Platform) (s : MappedFile)
    (newSize : Nat) (hthrows : (resize fails os s newSize).error ≠ none) :
    (resize fails os s newSize).file.Usable ↔
      newSize = 0 ∧ (fails .createDirectories = true ∨ fails (openCall os) = true ∨
        s.fileLength = 0) := by
  have hsize := (opened_resize fails os s newSize).getSize
  have hdata := getData_of_throws hthrows
  have hzero : (resize fails os s newSize).file.Usable ↔
      (resize fails os s newSize).file.getSize = 0 := by
    constructor
    · intro husable
      have hle := husable.size_le
      omega
    · intro hnone
      refine ⟨by omega, ?_⟩
      intro id hin
      omega
  rw [hzero, hsize, ← or_assoc]
  by_cases hfails : fails .createDirectories = true ∨ fails (openCall os) = true
  · simp only [hfails, if_true, true_or, and_true]
  · simp only [hfails, if_false, false_or]
    omega

/-- A resize to 0 bytes that does not open the file. -/
theorem failed_resize_usable_iff_empty :
    (resize (fun c => c = .open) .posix ⟨104857600, 104857600, .mapped 104857600⟩ 0).file.Usable :=
  (failed_resize_usable_iff _ .posix _ 0 (by decide)).mpr (by decide)

/-- A file of 100 MiB is to grow by 10 MiB, and {lit}`open` fails: the size is that of the larger
file, and {lit}`get_data` returns null. -/
theorem size_without_mapping :
    ¬ ∀ (fails : SystemCall → Bool) (os : Platform) (s : MappedFile) (newSize : Nat),
      s.getData = .mapped s.getSize → (resize fails os s newSize).error ≠ none →
      (resize fails os s newSize).file.getSize ≤
        (resize fails os s newSize).file.getData.length := by
  intro hall
  exact absurd (hall (fun c => c = .open) .posix ⟨104857600, 104857600, .mapped 104857600⟩ 115343360
    (by decide) (by decide)) (by decide)

/-- After a growth step of {lit}`insert` that failed, the check of {lit}`insert`,
{lit}`delete_vector`, {lit}`is_deleted` and {lit}`get_vector_data` accepts every id whose slot lies
in the larger file, and none of them is mapped. -/
theorem failed_growth_unsound {os : Platform} {V : Type*} {h : HNSW V}
    (hsize : h.storageSize =
      (resize fails os s (s.getSize + MMapHandler.growthStep)).file.getSize)
    (hthrows : (resize fails os s (s.getSize + MMapHandler.growthStep)).error ≠ none) {id : Nat}
    (hid : MMapHandler.slotEnd id ≤ s.getSize + MMapHandler.growthStep) :
    h.inStorage id = true ∧
      ¬ MMapHandler.slotEnd id ≤
        (resize fails os s (s.getSize + MMapHandler.growthStep)).file.getData.length := by
  constructor
  · have hin : MMapHandler.slotEnd id ≤ h.storageSize := by
      rw [hsize, (opened_resize fails os s _).getSize]
      split
      · exact hid
      · exact hid.trans (le_max_left _ _)
    exact decide_eq_true hin
  · rw [getData_of_throws hthrows, MMapHandler.slotEnd, headerSize]
    omega

end MappedFile

end NanoDB.Index

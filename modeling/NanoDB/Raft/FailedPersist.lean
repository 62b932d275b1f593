import NanoDB.Raft.LogFile
import NanoDB.Raft.Indices
import NanoDB.Raft.StateFile

/-!
# Writes that fail

{lit}`PersistentState::persist` and {lit}`RaftLog::persist` throw when the file cannot be
opened and when a {lit}`write` returns less than it was given.  Every mutator changes its
object first and persists then, so the exception leaves the object as the call wanted it,
although the file does not hold it.  The node goes on with that object: a leader whose
{lit}`log_.append` failed counts the new entry as its own replica.

Main results:

- Theorem {lit}`StoredLog.file_of_persist`: what a {lit}`persist` leaves in the file, whether
  or not it fails.
- Theorem {lit}`StoredLog.openFile_persist`: a log that is persisted is read back.
- Theorem {lit}`failed_call_keeps_memory_iff`: which failing calls leave memory as it was.
- Theorem {lit}`proposeStored_error`: a leader whose append failed holds the entry.
-/

namespace NanoDB.Raft

open Lib

/-! ## System calls -/

/-- What the operating system answers during one {lit}`persist`: whether the file is opened,
and the result of the {lit}`i`-th {lit}`write`, which is negative for an error. -/
structure SystemCalls where
  opens : Bool
  write : Nat → Bytes → Int
  write_le : ∀ i chunk, write i chunk ≤ chunk.length

/-- One {lit}`write` on Linux transfers at most this many bytes. -/
def maxTransfer : Nat := 0x7ffff000

/-- The file can be opened, and what one {lit}`write` can transfer is transferred. -/
def SystemCalls.Transfers (sys : SystemCalls) : Prop :=
  sys.opens = true ∧ ∀ i chunk, chunk.length ≤ maxTransfer → sys.write i chunk = chunk.length

/-- A Linux system with a disk that works. -/
def linuxWrites : SystemCalls where
  opens := true
  write _ chunk := min chunk.length maxTransfer
  write_le _ chunk := by omega

theorem linuxWrites_transfers : linuxWrites.Transfers := by
  refine ⟨rfl, ?_⟩
  intro i chunk hle
  rw [linuxWrites]
  dsimp only
  omega

/-- One {lit}`write` after the other, each compared with its size: the outcome, and what the
file holds then. -/
def writeChunks (sys : SystemCalls) (message : String) :
    Nat → Bytes → List Bytes → Except String Unit × Bytes
  | _, file, [] => (.ok (), file)
  | i, file, chunk :: chunks =>
      let written := sys.write i chunk
      if written ≠ chunk.length then (.error message, file ++ chunk.take written.toNat)
      else writeChunks sys message (i + 1) (file ++ chunk) chunks

/-- {lit}`persist` of either class: open and truncate the file, then write.  A file that
cannot be opened stays as it was. -/
def persistChunks (sys : SystemCalls) (kind path : String) (chunks : List Bytes)
    (file : Option Bytes) : Except String Unit × Option Bytes :=
  if sys.opens then
    let result := writeChunks sys ("short write persisting raft " ++ kind ++ ": " ++ path) 0 []
      chunks
    (result.1, some result.2)
  else (.error ("cannot open raft " ++ kind ++ " file: " ++ path), file)

/-- The chunks that are transferred whole, and what follows them. -/
theorem writeChunks_append (sys : SystemCalls) (message : String) (i : Nat) (file : Bytes)
    {done : List Bytes} (hdone : ∀ j, ∀ chunk ∈ done, sys.write j chunk = chunk.length)
    (chunks : List Bytes) :
    writeChunks sys message i file (done ++ chunks) =
      writeChunks sys message (i + done.length) (file ++ done.flatten) chunks := by
  induction done generalizing i file with
  | nil => rw [List.nil_append, List.flatten_nil, List.append_nil, List.length_nil, Nat.add_zero]
  | cons chunk done ih =>
      have hwhole := hdone i chunk List.mem_cons_self
      rw [List.cons_append, writeChunks, if_neg (not_not.mpr hwhole),
        ih (i + 1) (file ++ chunk) fun j chunk' hin => hdone j chunk' (List.mem_cons_of_mem _ hin),
        List.flatten_cons, List.append_assoc, List.length_cons, Nat.add_assoc,
        Nat.add_comm 1 done.length]

/-- The first chunk that is not transferred whole is the last one. -/
theorem writeChunks_short {sys : SystemCalls} {i : Nat} {chunk : Bytes}
    (hshort : sys.write i chunk ≠ chunk.length) (message : String) (file : Bytes)
    (chunks : List Bytes) :
    writeChunks sys message i file (chunk :: chunks) =
      (.error message, file ++ chunk.take (sys.write i chunk).toNat) := by
  rw [writeChunks, if_pos hshort]

/-- The chunks reach the file in order; those of a failing run stop inside one of them. -/
theorem writeChunks_spec (sys : SystemCalls) (message : String) (i : Nat) (file : Bytes)
    (chunks : List Bytes) :
    (writeChunks sys message i file chunks = (.ok (), file ++ chunks.flatten)) ∨
      (writeChunks sys message i file chunks).1 = .error message ∧
        ∃ n, (writeChunks sys message i file chunks).2 = file ++ chunks.flatten.take n := by
  induction chunks generalizing i file with
  | nil =>
      left
      rw [writeChunks, List.flatten_nil, List.append_nil]
  | cons chunk chunks ih =>
      rw [writeChunks]
      split_ifs with hshort
      · right
        have hle : (sys.write i chunk).toNat ≤ chunk.length := by
          have := sys.write_le i chunk
          omega
        refine ⟨rfl, (sys.write i chunk).toNat, ?_⟩
        rw [List.flatten_cons, List.take_append_of_le_length hle]
      · rcases ih (i + 1) (file ++ chunk) with hok | ⟨herror, n, hfile⟩
        · left
          rw [hok, List.flatten_cons, List.append_assoc]
        · right
          refine ⟨herror, chunk.length + n, ?_⟩
          rw [hfile, List.flatten_cons, List.take_length_add_append, List.append_assoc]

/-- A {lit}`persist` that fails names the file and leaves the old contents or a prefix of the
new ones; one that succeeds leaves all of them. -/
theorem persistChunks_spec (sys : SystemCalls) (kind path : String) (chunks : List Bytes)
    (file : Option Bytes) :
    persistChunks sys kind path chunks file = (.ok (), some chunks.flatten) ∨
      persistChunks sys kind path chunks file =
        (.error ("cannot open raft " ++ kind ++ " file: " ++ path), file) ∨
      ∃ n, persistChunks sys kind path chunks file =
        (.error ("short write persisting raft " ++ kind ++ ": " ++ path),
          some (chunks.flatten.take n)) := by
  unfold persistChunks
  dsimp only
  split_ifs with hopens
  · rcases writeChunks_spec sys ("short write persisting raft " ++ kind ++ ": " ++ path) 0 []
        chunks with hok | ⟨herror, n, hfile⟩
    · left
      rw [hok, List.nil_append]
    · exact .inr (.inr ⟨n, by rw [herror, hfile, List.nil_append]⟩)
  · exact .inr (.inl rfl)

/-! ## The term and the vote -/

/-- A {lit}`PersistentState` object: its members and its file. -/
structure StoredState where
  path : String
  state : PersistentState := {}
  file : Option Bytes := none
deriving DecidableEq, Repr

namespace StoredState

def persist (sys : SystemCalls) (obj : StoredState) : Except String Unit × StoredState :=
  let result := persistChunks sys "state" obj.path [obj.state.toBytes] obj.file
  (result.1, { obj with file := result.2 })

def set (sys : SystemCalls) (obj : StoredState) (term : Nat) (votedFor : Int) :
    Except String Unit × StoredState :=
  { obj with state := ⟨term, votedFor⟩ }.persist sys

end StoredState

/-! ## The log -/

namespace RaftLog

/-- The arguments of the first four {lit}`write_exact` calls of {lit}`persist`. -/
def headerChunks (log : RaftLog) : List Bytes :=
  [leBytes 4 kMagic, leBytes 8 log.snapshotLastIndex, leBytes 8 log.snapshotLastTerm,
    leBytes 4 log.snapshotData.length]

theorem flatten_headerChunks (log : RaftLog) : log.headerChunks.flatten = log.header := by
  simp [headerChunks, header]

/-- The arguments of the {lit}`write_exact` calls of {lit}`persist`, in order. -/
def chunks (log : RaftLog) : List Bytes :=
  log.headerChunks ++
    (if log.snapshotData.length % 2 ^ 32 > 0 then [clip log.snapshotData] else []) ++
    log.entries.flatMap fun e =>
      [leBytes 8 e.term, leBytes 4 e.command.length, clip e.command]

/-- The snapshot data and the commands are short enough for one {lit}`write`. -/
def Transferable (log : RaftLog) : Prop :=
  log.snapshotData.length ≤ maxTransfer ∧ ∀ e ∈ log.entries, e.command.length ≤ maxTransfer

/-- Together the chunks are the file. -/
theorem flatten_chunks (log : RaftLog) : log.chunks.flatten = log.toBytes := by
  have hdata : (if log.snapshotData.length % 2 ^ 32 > 0 then [clip log.snapshotData]
      else []).flatten = clip log.snapshotData := by
    split_ifs with hpos
    · simp
    · have hzero : (clip log.snapshotData).length = 0 := by
        rw [clip_length]
        omega
      rw [List.eq_nil_of_length_eq_zero hzero]
      rfl
  have hentries : (log.entries.flatMap fun e =>
      [leBytes 8 e.term, leBytes 4 e.command.length, clip e.command]).flatten =
        entryFormat.encodeAll log.entries := by
    induction log.entries with
    | nil => rfl
    | cons e es ih =>
        rw [List.flatMap_cons, List.flatten_append, ih, RecordFormat.encodeAll_cons]
        simp [entryFormat, encodeEntry]
  rw [chunks, List.flatten_append, List.flatten_append, hdata, hentries, flatten_headerChunks,
    toBytes, List.append_assoc]

end RaftLog

/-- A {lit}`RaftLog` object: its members and its file. -/
structure StoredLog where
  path : String
  log : RaftLog := {}
  file : Option Bytes := none
deriving DecidableEq, Repr

namespace StoredLog

def persist (sys : SystemCalls) (obj : StoredLog) : Except String Unit × StoredLog :=
  let result := persistChunks sys "log" obj.path obj.log.chunks obj.file
  (result.1, { obj with file := result.2 })

def append (sys : SystemCalls) (obj : StoredLog) (term : Nat) (command : Bytes) :
    Except String Unit × StoredLog :=
  { obj with log := obj.log.append term command }.persist sys

def truncateAndAppend (sys : SystemCalls) (obj : StoredLog) (keepCount : Nat)
    (newEntries : List PersistedEntry) : Except String Unit × StoredLog :=
  { obj with log := obj.log.truncateAndAppend keepCount newEntries }.persist sys

def compact (sys : SystemCalls) (obj : StoredLog) (upToIndex snapshotTerm : Nat)
    (snapshotData : Bytes) : Except String Unit × StoredLog :=
  if upToIndex ≤ obj.log.snapshotLastIndex then (.ok (), obj)
  else { obj with log := obj.log.compact upToIndex snapshotTerm snapshotData }.persist sys

/-- What a {lit}`persist` leaves in the file: everything, or after an exception the old
contents or a prefix of the new ones. -/
theorem file_of_persist (sys : SystemCalls) (obj : StoredLog) :
    ((obj.persist sys).1 = .ok () ∧ (obj.persist sys).2.file = some obj.log.toBytes) ∨
      ∃ message, (obj.persist sys).1 = .error message ∧
        ((obj.persist sys).2.file = obj.file ∨
          ∃ n, (obj.persist sys).2.file = some (obj.log.toBytes.take n)) := by
  unfold StoredLog.persist
  dsimp only
  rcases persistChunks_spec sys "log" obj.path obj.log.chunks obj.file with h | h | ⟨n, h⟩
  · left
    rw [h, RaftLog.flatten_chunks]
    exact ⟨rfl, rfl⟩
  · right
    rw [h]
    exact ⟨_, rfl, .inl rfl⟩
  · right
    rw [h, RaftLog.flatten_chunks]
    exact ⟨_, rfl, .inr ⟨n, rfl⟩⟩

/-! ### Reopening -/

/-- What a {lit}`persist` that returns has written is opened as the same log. -/
theorem openFile_of_persist_ok {sys : SystemCalls} {obj : StoredLog} (hfits : obj.log.Fits)
    (hok : (obj.persist sys).1 = .ok ()) :
    RaftLog.openFile (obj.persist sys).2.file = obj.log := by
  rcases obj.file_of_persist sys with ⟨-, hfile⟩ | ⟨message, herror, -⟩
  · rw [hfile, RaftLog.openFile_toBytes hfits]
  · rw [hok] at herror
    contradiction

/-- Numbers have at most eight bytes. -/
theorem length_leBytes_le_maxTransfer {w : Nat} (hw : w ≤ 8) (n : Nat) :
    (leBytes w n).length ≤ maxTransfer := by
  rw [leBytes_length, maxTransfer]
  omega

theorem length_le_of_mem_headerChunks {log : RaftLog} {chunk : Bytes}
    (hchunk : chunk ∈ log.headerChunks) : chunk.length ≤ maxTransfer := by
  simp only [RaftLog.headerChunks, List.mem_cons, List.not_mem_nil, or_false] at hchunk
  rcases hchunk with rfl | rfl | rfl | rfl
  · exact length_leBytes_le_maxTransfer (by decide) _
  · exact length_leBytes_le_maxTransfer (by decide) _
  · exact length_leBytes_le_maxTransfer (by decide) _
  · exact length_leBytes_le_maxTransfer (by decide) _

/-- The chunks are short if the data and the commands are. -/
theorem length_le_of_mem_chunks {log : RaftLog} (hlog : log.Transferable) {chunk : Bytes}
    (hchunk : chunk ∈ log.chunks) : chunk.length ≤ maxTransfer := by
  have hclip : ∀ s : Bytes, s.length ≤ maxTransfer → (clip s).length ≤ maxTransfer := by
    intro s hs
    rw [clip_length]
    exact (Nat.mod_le _ _).trans hs
  rw [RaftLog.chunks, List.mem_append, List.mem_append] at hchunk
  rcases hchunk with (hheader | hdata) | hentries
  · exact length_le_of_mem_headerChunks hheader
  · split at hdata
    · rw [List.mem_singleton.mp hdata]
      exact hclip _ hlog.1
    · cases hdata
  · rcases List.mem_flatMap.mp hentries with ⟨e, he, hin⟩
    simp only [List.mem_cons, List.not_mem_nil, or_false] at hin
    rcases hin with rfl | rfl | rfl
    · exact length_leBytes_le_maxTransfer (by decide) _
    · exact length_leBytes_le_maxTransfer (by decide) _
    · exact hclip _ (hlog.2 e he)

/-- A {lit}`persist` of short strings returns, if nothing is wrong with the file. -/
theorem persist_ok {sys : SystemCalls} (hsys : sys.Transfers) {obj : StoredLog}
    (hlog : obj.log.Transferable) : (obj.persist sys).1 = .ok () := by
  have hall : ∀ j, ∀ chunk ∈ obj.log.chunks, sys.write j chunk = chunk.length :=
    fun j chunk hin => hsys.2 j chunk (length_le_of_mem_chunks hlog hin)
  have hwritten := writeChunks_append sys ("short write persisting raft log: " ++ obj.path) 0 []
    hall []
  rw [List.append_nil] at hwritten
  rw [persist, persistChunks, if_pos hsys.1]
  exact congrArg Prod.fst hwritten

/-- For every log and every way the {lit}`write` calls turn out: if {lit}`persist` returns, its
file is opened as the same log; and it returns if the file can be opened, short strings are
transferred whole, and the snapshot data and the commands are short.  Entries in a file of the
older format read back, if its first four bytes are not the magic number. -/
theorem openFile_persist :
    (∀ (sys : SystemCalls) (obj : StoredLog), obj.log.Fits →
      ((obj.persist sys).1 = .ok () → RaftLog.openFile (obj.persist sys).2.file = obj.log) ∧
        (sys.Transfers → obj.log.Transferable → (obj.persist sys).1 = .ok ())) ∧
      ∀ es : List PersistedEntry, (∀ e ∈ es, e.term < 2 ^ 64 ∧ e.command.length < 2 ^ 32) →
        (entryFormat.encodeAll es).take 4 ≠ leBytes 4 RaftLog.kMagic →
        RaftLog.openFile (some (entryFormat.encodeAll es)) = { entries := es } :=
  ⟨fun _ _ hfits => ⟨openFile_of_persist_ok hfits, fun hsys => persist_ok hsys⟩,
    fun _ hfits hmagic => RaftLog.openFile_oldFormat hfits hmagic⟩

/-- A compacted log with an empty command and a command that starts with the magic
bytes, and an older file of two entries. -/
theorem openFile_persist_twoEntries :
    RaftLog.openFile (persist linuxWrites
        ⟨"l", ⟨[⟨2, []⟩, ⟨3, [0x54, 0x46, 0x41, 0x4E, 0]⟩], 7, 2, [0, 1]⟩, none⟩).2.file =
        ⟨[⟨2, []⟩, ⟨3, [0x54, 0x46, 0x41, 0x4E, 0]⟩], 7, 2, [0, 1]⟩ ∧
      RaftLog.openFile (some (entryFormat.encodeAll [⟨1, [65]⟩, ⟨1, []⟩])) =
        { entries := [⟨1, [65]⟩, ⟨1, []⟩] } := by
  have hboth := openFile_persist.1 linuxWrites
    ⟨"l", ⟨[⟨2, []⟩, ⟨3, [0x54, 0x46, 0x41, 0x4E, 0]⟩], 7, 2, [0, 1]⟩, none⟩
    ⟨by decide, by decide, by decide, by decide⟩
  constructor
  · exact hboth.1 (hboth.2 linuxWrites_transfers ⟨by decide, by decide⟩)
  · apply openFile_persist.2
    · decide
    · decide

/-- Snapshot data that is longer than one {lit}`write` transfers: the header is written, and one
transfer of the data. -/
theorem persist_of_long {obj : StoredLog} (hdata : obj.log.snapshotData.length < 2 ^ 32)
    (hlong : maxTransfer < obj.log.snapshotData.length) :
    obj.persist linuxWrites =
      (.error ("short write persisting raft log: " ++ obj.path),
        { obj with file := some (obj.log.header ++ obj.log.snapshotData.take maxTransfer) }) := by
  have hheader : ∀ j, ∀ chunk ∈ obj.log.headerChunks, linuxWrites.write j chunk = chunk.length :=
    fun j chunk hin => linuxWrites_transfers.2 j chunk (length_le_of_mem_headerChunks hin)
  have hchunks : obj.log.chunks = obj.log.headerChunks ++
      (obj.log.snapshotData :: obj.log.entries.flatMap fun e =>
        [leBytes 8 e.term, leBytes 4 e.command.length, clip e.command]) := by
    rw [RaftLog.chunks, if_pos (by omega), clip_of_lt hdata, List.append_assoc]
    rfl
  have hone : ∀ i, linuxWrites.write i obj.log.snapshotData = maxTransfer := by
    intro i
    rw [linuxWrites]
    dsimp only
    omega
  have hwritten := writeChunks_append linuxWrites
    ("short write persisting raft " ++ "log" ++ ": " ++ obj.path) 0 [] hheader
    (obj.log.snapshotData :: obj.log.entries.flatMap fun e =>
      [leBytes 8 e.term, leBytes 4 e.command.length, clip e.command])
  rw [← hchunks, writeChunks_short (by rw [hone]; omega), hone, Int.toNat_natCast, List.nil_append,
    RaftLog.flatten_headerChunks] at hwritten
  have hopens : linuxWrites.opens = true := rfl
  rw [persist, persistChunks, if_pos hopens, hwritten]
  rfl

/-- Such a file is opened as the index and the term of the snapshot alone. -/
theorem openFile_persist_of_long {obj : StoredLog} (hfits : obj.log.Fits)
    (hlong : maxTransfer < obj.log.snapshotData.length) :
    RaftLog.openFile (obj.persist linuxWrites).2.file =
      ⟨[], obj.log.snapshotLastIndex, obj.log.snapshotLastTerm, []⟩ := by
  rcases hfits with ⟨hidx, hterm, hdata, -⟩
  rw [persist_of_long hdata hlong, RaftLog.openFile_header, clip_of_lt hdata, if_pos,
    Nat.mod_eq_of_lt hidx, Nat.mod_eq_of_lt hterm]
  rw [List.length_take]
  omega

/-- A log of the right form that is not read back: its snapshot data is one byte too long for one
{lit}`write`. -/
theorem long_snapshot_not_read_back :
    ¬ ∀ obj : StoredLog, obj.log.Fits →
      RaftLog.openFile (obj.persist linuxWrites).2.file = obj.log := by
  intro hall
  have hlength : (List.replicate (maxTransfer + 1) (0 : UInt8)).length = maxTransfer + 1 :=
    List.length_replicate
  have hfits : RaftLog.Fits ⟨[], 1, 1, List.replicate (maxTransfer + 1) 0⟩ := by
    refine ⟨by decide, by decide, ?_, fun e he => absurd he List.not_mem_nil⟩
    dsimp only
    rw [hlength, maxTransfer]
    norm_num
  have hread := hall ⟨"l", ⟨[], 1, 1, List.replicate (maxTransfer + 1) 0⟩, none⟩ hfits
  rw [openFile_persist_of_long hfits (by
    dsimp only
    rw [hlength]
    exact Nat.lt_succ_self _)] at hread
  have hdata := congrArg (fun log => log.snapshotData.length) hread
  dsimp only at hdata
  rw [hlength] at hdata
  cases hdata

end StoredLog

/-! ## Calls that fail -/

/-- The two persistent members of a node. -/
structure Storage where
  state : StoredState
  log : StoredLog
deriving DecidableEq, Repr

/-- The calls that persist. -/
inductive PersistCall where
  | set (term : Nat) (votedFor : Int)
  | append (term : Nat) (command : Bytes)
  | truncateAndAppend (keepCount : Nat) (newEntries : List PersistedEntry)
  | compact (upToIndex snapshotTerm : Nat) (snapshotData : Bytes)
deriving DecidableEq, Repr

namespace Storage

/-- A call: its outcome, and the members after it. -/
def perform (sys : SystemCalls) (s : Storage) : PersistCall → Except String Unit × Storage
  | .set term votedFor =>
      let result := s.state.set sys term votedFor
      (result.1, { s with state := result.2 })
  | .append term command =>
      let result := s.log.append sys term command
      (result.1, { s with log := result.2 })
  | .truncateAndAppend keepCount newEntries =>
      let result := s.log.truncateAndAppend sys keepCount newEntries
      (result.1, { s with log := result.2 })
  | .compact upToIndex snapshotTerm snapshotData =>
      let result := s.log.compact sys upToIndex snapshotTerm snapshotData
      (result.1, { s with log := result.2 })

/-- The term, the vote, the snapshot and the entries in memory. -/
def memory (s : Storage) : PersistentState × RaftLog :=
  (s.state.state, s.log.log)

/-- The call asks for what memory holds already: the same term and vote, or the entries that
it removes.  An append and a compaction always ask for something new. -/
def AsksForHeld (s : Storage) : PersistCall → Prop
  | .set term votedFor => s.state.state = ⟨term, votedFor⟩
  | .append _ _ => False
  | .truncateAndAppend keepCount newEntries =>
      newEntries.drop (s.log.log.snapshotLastIndex - keepCount) =
        s.log.log.entries.drop (keepCount - s.log.log.snapshotLastIndex)
  | .compact _ _ _ => False

/-- Memory after a call that persists, whatever the outcome. -/
theorem memory_perform (sys : SystemCalls) (s : Storage) (call : PersistCall) :
    (s.perform sys call).2.memory =
      match call with
      | .set term votedFor => (⟨term, votedFor⟩, s.log.log)
      | .append term command => (s.state.state, s.log.log.append term command)
      | .truncateAndAppend keepCount newEntries =>
          (s.state.state, s.log.log.truncateAndAppend keepCount newEntries)
      | .compact upToIndex snapshotTerm snapshotData =>
          (s.state.state, s.log.log.compact upToIndex snapshotTerm snapshotData) := by
  cases call with
  | set term votedFor => rfl
  | append term command => rfl
  | truncateAndAppend keepCount newEntries => rfl
  | compact upToIndex snapshotTerm snapshotData =>
      simp only [perform, StoredLog.compact]
      split_ifs with hle
      · simp only [memory, RaftLog.compact, if_pos hle]
      · rfl

end Storage

/-- A truncation gives back the log it started from exactly when it pushes what it removes. -/
theorem RaftLog.truncateAndAppend_eq_self_iff (log : RaftLog) (keepCount : Nat)
    (newEntries : List PersistedEntry) :
    log.truncateAndAppend keepCount newEntries = log ↔
      newEntries.drop (log.snapshotLastIndex - keepCount) =
        log.entries.drop (keepCount - log.snapshotLastIndex) := by
  have hsame : log.truncateAndAppend keepCount newEntries = log ↔
      (log.truncateAndAppend keepCount newEntries).entries = log.entries := by
    constructor
    · exact congrArg RaftLog.entries
    · intro hentries
      rcases log with ⟨entries, snapshotLastIndex, snapshotLastTerm, snapshotData⟩
      simp only [RaftLog.truncateAndAppend] at hentries ⊢
      rw [hentries]
  rw [hsame, RaftLog.truncateAndAppend_entries]
  nth_rewrite 2 [← List.take_append_drop (keepCount - log.snapshotLastIndex) log.entries]
  exact List.append_right_inj _

/-- For every call during which the file cannot be opened or written and an exception is
thrown: memory is as before exactly when the call asked for what memory held already. -/
theorem failed_call_keeps_memory_iff (sys : SystemCalls) (s : Storage) (call : PersistCall)
    {message : String} (h : (s.perform sys call).1 = .error message) :
    (s.perform sys call).2.memory = s.memory ↔ s.AsksForHeld call := by
  rw [Storage.memory_perform]
  cases call with
  | set term votedFor =>
      simp only [Storage.memory, Storage.AsksForHeld, Prod.mk.injEq, and_true]
      exact eq_comm
  | append term command =>
      refine iff_of_false (fun heq => ?_) id
      have hlen := congrArg (fun m => m.2.entries.length) heq
      simp [Storage.memory] at hlen
  | truncateAndAppend keepCount newEntries =>
      simp only [Storage.memory, Storage.AsksForHeld, Prod.mk.injEq, true_and]
      exact RaftLog.truncateAndAppend_eq_self_iff ..
  | compact upToIndex snapshotTerm snapshotData =>
      -- a compaction that has nothing to do does not reach the file
      have hlt : ¬ upToIndex ≤ s.log.log.snapshotLastIndex := by
        intro hle
        simp [Storage.perform, StoredLog.compact, hle] at h
      refine iff_of_false (fun heq => ?_) id
      have hidx := congrArg (fun m => m.2.snapshotLastIndex) heq
      simp only [Storage.memory] at hidx
      rw [RaftLog.snapshotLastIndex_compact (by omega)] at hidx
      omega

/-- The disk is full: nothing can be written. -/
def fullDisk : SystemCalls where
  opens := true
  write _ _ := -1
  write_le _ chunk := by omega

/-- A truncation that pushes the entry it removes fails and changes nothing in memory. -/
theorem failed_call_keeps_memory_sameEntry :
    (Storage.perform fullDisk ⟨⟨"s", ⟨1, 0⟩, none⟩, ⟨"l", ⟨[⟨1, [97]⟩], 0, 0, []⟩, none⟩⟩
        (.truncateAndAppend 0 [⟨1, [97]⟩])).1 =
        .error "short write persisting raft log: l" ∧
      (Storage.perform fullDisk ⟨⟨"s", ⟨1, 0⟩, none⟩, ⟨"l", ⟨[⟨1, [97]⟩], 0, 0, []⟩, none⟩⟩
        (.truncateAndAppend 0 [⟨1, [97]⟩])).2.memory = (⟨1, 0⟩, ⟨[⟨1, [97]⟩], 0, 0, []⟩) := by
  have herror : (Storage.perform fullDisk
      ⟨⟨"s", ⟨1, 0⟩, none⟩, ⟨"l", ⟨[⟨1, [97]⟩], 0, 0, []⟩, none⟩⟩
      (.truncateAndAppend 0 [⟨1, [97]⟩])).1 =
        .error "short write persisting raft log: l" := by rfl
  exact ⟨herror, (failed_call_keeps_memory_iff _ _ _ herror).mpr rfl⟩

/-! ## A leader with an entry that is not on disk -/

namespace RaftNode

/-- The first critical section of {lit}`propose` on a log with a file: an exception of
{lit}`log_.append` ends the section there. -/
def proposeStored (sys : SystemCalls) (node : RaftNode) (path : String) (file : Option Bytes)
    (command : Bytes) : Except String (Option ProposeCall) × RaftNode × Option Bytes :=
  if node.role ≠ .leader then (.ok none, node, file)
  else
    let myTerm := node.state.currentTerm
    let result := StoredLog.append sys ⟨path, node.log, file⟩ myTerm command
    let node := { node with log := result.2.log }
    match result.1 with
    | .error message => (.error message, node, result.2.file)
    | .ok () =>
        (.ok (some ⟨node.nodeId, myTerm, node.log.lastIndex, command⟩), node.advanceCommitIndex,
          result.2.file)

/-- On a disk that works this is {lit}`propose`. -/
theorem proposeStored_ok {sys : SystemCalls} {node : RaftNode} {path : String}
    {file : Option Bytes} {command : Bytes} {call : Option ProposeCall}
    (h : (node.proposeStored sys path file command).1 = .ok call) :
    node.propose command =
      call.map fun call => ((node.proposeStored sys path file command).2.1, call) := by
  unfold proposeStored at h ⊢
  unfold propose
  dsimp only at h ⊢
  split_ifs at h ⊢ with hrole
  · cases h
    rfl
  · cases hresult : (StoredLog.append sys ⟨path, node.log, file⟩ node.state.currentTerm
        command).1 with
    | error message =>
        rw [hresult] at h
        cases h
    | ok u =>
        rw [hresult] at h
        cases h
        rfl

/-- A leader whose append fails holds the entry as its last one: everything that counts
{lit}`last_index()` counts it. -/
theorem proposeStored_error {sys : SystemCalls} {node : RaftNode} {path : String}
    {file : Option Bytes} {command : Bytes} {message : String}
    (h : (node.proposeStored sys path file command).1 = .error message) :
    (node.proposeStored sys path file command).2.1 =
      { node with log := node.log.append node.state.currentTerm command } := by
  unfold proposeStored at h ⊢
  dsimp only at h ⊢
  split_ifs at h ⊢ with hrole
  cases hresult : (StoredLog.append sys ⟨path, node.log, file⟩ node.state.currentTerm
      command).1 with
  | error m => rfl
  | ok u =>
      rw [hresult] at h
      cases h

end RaftNode

/-- The leader of term 1 in a cluster of three, with an empty log. -/
def leaderOfThree : RaftNode where
  nodeId := 0
  peers := [0, 1, 2]
  state := ⟨1, 0⟩
  role := .leader
  nextIndex _ := 1

/-- The append of a leader fails; memory holds the entry, the file none, and the reply of one
follower commits it. -/
theorem failed_append_counted :
    (Storage.perform fullDisk ⟨⟨"s", ⟨1, 0⟩, none⟩, ⟨"l", {}, none⟩⟩ (.append 1 [97])).1 =
        .error "short write persisting raft log: l" ∧
      (Storage.perform fullDisk ⟨⟨"s", ⟨1, 0⟩, none⟩, ⟨"l", {}, none⟩⟩ (.append 1 [97])).2.memory ≠
        Storage.memory ⟨⟨"s", ⟨1, 0⟩, none⟩, ⟨"l", {}, none⟩⟩ ∧
      (leaderOfThree.proposeStored fullDisk "l" none [97]).1 =
        .error "short write persisting raft log: l" ∧
      RaftLog.openFile (leaderOfThree.proposeStored fullDisk "l" none [97]).2.2 = {} ∧
      ((leaderOfThree.proposeStored fullDisk "l" none [97]).2.1.handleAppendEntriesReply 1
        ⟨1, 0, 0, 0, [⟨1, 1, [97]⟩], 0⟩ ⟨1, true⟩).commitIndex = 1 := by
  refine ⟨rfl, by decide +kernel, rfl, by decide +kernel, by decide +kernel⟩

end NanoDB.Raft

import NanoDB.Lib.Codec
import NanoDB.Raft.Node

/-!
# The log file

The bytes that {lit}`RaftLog::persist` hands to the file and what {lit}`RaftLog::open_file`
makes of a file: a header with the snapshot, detected by its magic number, then
one record for each entry.  Files of the older format have no header.  Lengths are
written as {lit}`uint32_t` and only that many bytes of a string follow them, so
{lit}`stored` says what a log is once it is on disk.

{lit}`persist` truncates the file and rewrites it from the start.  A process that
stops inside it leaves a prefix of the new file.

Main results:

- Theorem {lit}`openFile_take`: what any prefix of a written file is opened as.
- Theorem {lit}`openFile_toBytes`, {lit}`openFile_oldFormat`: whole files of both formats read
  back.
- Theorem {lit}`crashAtomic_iff`: when a stop inside {lit}`persist` leaves the log
  before or the log after the mutation.
- Theorem {lit}`recoveredFrom_iff`: when a prefix of a file is read as the empty log or as
  the snapshot with a prefix of the entries.
-/

namespace NanoDB.Raft

open NanoDB.Lib

/-! ## Entry records -/

/-- The part of a string that its {lit}`uint32_t` length lets {lit}`persist`
write. -/
def clip (s : Bytes) : Bytes :=
  s.take (s.length % 2 ^ 32)

theorem clip_length (s : Bytes) : (clip s).length = s.length % 2 ^ 32 := by
  rw [clip, List.length_take]
  exact min_eq_left (Nat.mod_le _ _)

theorem clip_of_lt {s : Bytes} (h : s.length < 2 ^ 32) : clip s = s := by
  rw [clip, Nat.mod_eq_of_lt h, List.take_length]

/-- The bytes of one entry. -/
def encodeEntry (e : PersistedEntry) : Bytes :=
  leBytes 8 e.term ++ (leBytes 4 e.command.length ++ clip e.command)

/-- One turn of the record loop of {lit}`open_file`; {lean}`none` is the
{lit}`break` at a record that does not fit. -/
def parseEntry (data : Bytes) : Option (PersistedEntry × Bytes) :=
  if data.length < 12 then none
  else
    let len := leNat ((data.drop 8).take 4)
    if data.length < 12 + len then none
    else some (⟨leNat (data.take 8), (data.drop 12).take len⟩, data.drop (12 + len))

/-- An entry as it is read back. -/
def storedEntry (e : PersistedEntry) : PersistedEntry :=
  ⟨e.term % 2 ^ 64, clip e.command⟩

instance : Inhabited PersistedEntry := ⟨⟨0, []⟩⟩

theorem encodeEntry_length (e : PersistedEntry) :
    (encodeEntry e).length = 12 + (clip e.command).length := by
  simp only [encodeEntry, List.length_append, leBytes_length]
  omega

/-- The fixed part of a record, read from any input that starts with it. -/
private theorem entry_fields (e : PersistedEntry) (rest : Bytes) :
    leNat (List.take 8 (leBytes 8 e.term ++ (leBytes 4 e.command.length ++ rest))) =
        e.term % 2 ^ 64 ∧
      leNat (((leBytes 8 e.term ++ (leBytes 4 e.command.length ++ rest)).drop 8).take 4) =
        (clip e.command).length ∧
      (leBytes 8 e.term ++ (leBytes 4 e.command.length ++ rest)).drop 12 = rest := by
  have h8 : (leBytes 8 e.term).length = 8 := leBytes_length 8 _
  have h4 : (leBytes 4 e.command.length).length = 4 := leBytes_length 4 _
  refine ⟨?_, ?_, ?_⟩
  · rw [List.take_left' h8, leNat_leBytes]
    norm_num
  · rw [List.drop_left' h8, List.take_left' h4, leNat_leBytes, clip_length]
    norm_num
  · rw [show 12 = 8 + 4 from rfl, ← List.drop_drop, List.drop_left' h8, List.drop_left' h4]

theorem parseEntry_encodeEntry (e : PersistedEntry) (rest : Bytes) :
    parseEntry (encodeEntry e ++ rest) = some (storedEntry e, rest) := by
  have hlen : (encodeEntry e ++ rest).length = 12 + (clip e.command).length + rest.length := by
    rw [List.length_append, encodeEntry_length]
  have hassoc : encodeEntry e ++ rest =
      leBytes 8 e.term ++ (leBytes 4 e.command.length ++ (clip e.command ++ rest)) := by
    simp [encodeEntry]
  rcases entry_fields e (clip e.command ++ rest) with ⟨hterm, hcmd, hbody⟩
  rw [← hassoc] at hterm hcmd hbody
  rw [parseEntry, if_neg (by omega)]
  dsimp only
  rw [hcmd, if_neg (by omega), hterm, ← List.drop_drop, hbody]
  simp [storedEntry]

theorem parseEntry_take (e : PersistedEntry) (n : Nat) (hn : n < (encodeEntry e).length) :
    parseEntry ((encodeEntry e).take n) = none := by
  have hlen : ((encodeEntry e).take n).length = n := by
    rw [List.length_take]
    omega
  rw [parseEntry, hlen]
  split_ifs with hshort
  · rfl
  · have htake : (encodeEntry e).take n =
        leBytes 8 e.term ++ (leBytes 4 e.command.length ++ (clip e.command).take (n - 12)) := by
      rw [encodeEntry, List.take_append, List.take_append]
      simp only [leBytes_length]
      rw [List.take_of_length_le (by rw [leBytes_length]; omega),
        List.take_of_length_le (by rw [leBytes_length]; omega), Nat.sub_sub]
    rw [encodeEntry_length] at hn
    dsimp only
    rw [htake, (entry_fields e _).2.1, if_pos hn]

/-- The records of a log file. -/
def entryFormat : RecordFormat PersistedEntry UInt8 where
  encode := encodeEntry
  parse := parseEntry
  stored := storedEntry
  encode_ne_nil e := by
    apply List.ne_nil_of_length_pos
    rw [encodeEntry_length]
    omega
  parse_encode := parseEntry_encodeEntry
  parse_take := parseEntry_take

/-! ## The file -/

namespace RaftLog

def kMagic : Nat := 0x4E414654

/-- Bytes of the header in front of the snapshot data. -/
def headerSize : Nat := 24

/-- The fixed part of the header. -/
def header (log : RaftLog) : Bytes :=
  leBytes 4 kMagic ++ (leBytes 8 log.snapshotLastIndex ++
    (leBytes 8 log.snapshotLastTerm ++ leBytes 4 log.snapshotData.length))

/-- The bytes that {lit}`persist` has to write, one string after the other.  Which of them reach
the file is up to the {lit}`write` calls. -/
def toBytes (log : RaftLog) : Bytes :=
  log.header ++ (clip log.snapshotData ++ entryFormat.encodeAll log.entries)

/-- The record loop of {lit}`open_file`. -/
def readEntries (data : Bytes) : List PersistedEntry :=
  entryFormat.parseAll (data.length + 1) data

/-- The log that {lit}`open_file` makes of a file.  A header that is cut short
gives the empty log; one whose snapshot data is cut short keeps the index and the
term that were read before. -/
def openFile (file : Option Bytes) : RaftLog :=
  match file with
  | none => {}
  | some data =>
      if 4 ≤ data.length ∧ leNat (data.take 4) = kMagic then
        if data.length < headerSize then {}
        else
          let snapshotLastIndex := leNat ((data.drop 4).take 8)
          let snapshotLastTerm := leNat ((data.drop 12).take 8)
          let snapLen := leNat ((data.drop 20).take 4)
          if data.length < headerSize + snapLen then ⟨[], snapshotLastIndex, snapshotLastTerm, []⟩
          else
            ⟨readEntries (data.drop (headerSize + snapLen)), snapshotLastIndex, snapshotLastTerm,
              (data.drop headerSize).take snapLen⟩
      else ⟨readEntries data, 0, 0, []⟩

/-- The log as it is on disk. -/
def stored (log : RaftLog) : RaftLog :=
  ⟨log.entries.map storedEntry, log.snapshotLastIndex % 2 ^ 64, log.snapshotLastTerm % 2 ^ 64,
    clip log.snapshotData⟩

/-- Every number fits 64 bits and every string is shorter than {lit}`2 ^ 32`
bytes. -/
def Fits (log : RaftLog) : Prop :=
  log.snapshotLastIndex < 2 ^ 64 ∧ log.snapshotLastTerm < 2 ^ 64 ∧
    log.snapshotData.length < 2 ^ 32 ∧
    ∀ e ∈ log.entries, e.term < 2 ^ 64 ∧ e.command.length < 2 ^ 32

theorem map_storedEntry_of_fits {es : List PersistedEntry}
    (h : ∀ e ∈ es, e.term < 2 ^ 64 ∧ e.command.length < 2 ^ 32) : es.map storedEntry = es := by
  induction es with
  | nil => rfl
  | cons e es ih =>
      rcases h e List.mem_cons_self with ⟨hterm, hcmd⟩
      rw [List.map_cons, ih (fun e' he' => h e' (List.mem_cons_of_mem _ he')), storedEntry,
        Nat.mod_eq_of_lt hterm, clip_of_lt hcmd]

theorem stored_of_fits {log : RaftLog} (h : log.Fits) : log.stored = log := by
  rcases h with ⟨hidx, hterm, hdata, hentries⟩
  rw [stored, map_storedEntry_of_fits hentries, Nat.mod_eq_of_lt hidx, Nat.mod_eq_of_lt hterm,
    clip_of_lt hdata]

theorem header_length (log : RaftLog) : log.header.length = headerSize := by
  simp [header, headerSize]

/-- The size of the file that {lit}`persist` writes. -/
def sizeOnDisk (log : RaftLog) : Nat :=
  headerSize + (clip log.snapshotData).length + entryFormat.sizeAll log.entries

theorem toBytes_length (log : RaftLog) : log.toBytes.length = log.sizeOnDisk := by
  simp only [toBytes, sizeOnDisk, List.length_append, header_length, RecordFormat.sizeAll]
  omega

/-! ### Opening a written file -/

/-- Nothing is read from fewer bytes than a record's fixed part. -/
theorem readEntries_of_short {data : Bytes} (h : data.length < 12) : readEntries data = [] := by
  have hparse : entryFormat.parse data = none := if_pos h
  rw [readEntries, RecordFormat.parseAll, hparse]

/-- The header fields, read from any file that starts with the header. -/
private theorem header_fields (log : RaftLog) (rest : Bytes) :
    leNat ((log.header ++ rest).take 4) = kMagic ∧
      leNat (((log.header ++ rest).drop 4).take 8) = log.snapshotLastIndex % 2 ^ 64 ∧
      leNat (((log.header ++ rest).drop 12).take 8) = log.snapshotLastTerm % 2 ^ 64 ∧
      leNat (((log.header ++ rest).drop 20).take 4) = (clip log.snapshotData).length := by
  have hassoc : log.header ++ rest = leBytes 4 kMagic ++ (leBytes 8 log.snapshotLastIndex ++
      (leBytes 8 log.snapshotLastTerm ++ (leBytes 4 log.snapshotData.length ++ rest))) := by
    simp [header]
  have h4 : ∀ n, (leBytes 4 n).length = 4 := leBytes_length 4
  have h8 : ∀ n, (leBytes 8 n).length = 8 := leBytes_length 8
  rw [hassoc]
  refine ⟨?_, ?_, ?_, ?_⟩
  · rw [List.take_left' (h4 _), leNat_leBytes]
    rfl
  · rw [List.drop_left' (h4 _), List.take_left' (h8 _), leNat_leBytes]
    norm_num
  · rw [show 12 = 4 + 8 from rfl, ← List.drop_drop, List.drop_left' (h4 _),
      List.drop_left' (h8 _), List.take_left' (h8 _), leNat_leBytes]
    norm_num
  · rw [show 20 = 4 + (8 + 8) from rfl, ← List.drop_drop, ← List.drop_drop,
      List.drop_left' (h4 _), List.drop_left' (h8 _), List.drop_left' (h8 _),
      List.take_left' (h4 _), leNat_leBytes, clip_length]
    norm_num

/-- A file that starts with a whole header. -/
theorem openFile_header (log : RaftLog) (rest : Bytes) :
    openFile (some (log.header ++ rest)) =
      if rest.length < (clip log.snapshotData).length then
        ⟨[], log.snapshotLastIndex % 2 ^ 64, log.snapshotLastTerm % 2 ^ 64, []⟩
      else
        ⟨readEntries (rest.drop (clip log.snapshotData).length), log.snapshotLastIndex % 2 ^ 64,
          log.snapshotLastTerm % 2 ^ 64, rest.take (clip log.snapshotData).length⟩ := by
  rcases header_fields log rest with ⟨hmagic, hidx, hterm, hlen⟩
  have hsize : (log.header ++ rest).length = headerSize + rest.length := by
    rw [List.length_append, header_length]
  have hbody : (log.header ++ rest).drop headerSize = rest :=
    List.drop_left' (header_length log)
  simp only [openFile]
  rw [hsize, hmagic, hidx, hterm, hlen, if_pos ⟨by simp only [headerSize]; omega, rfl⟩,
    if_neg (by omega), ← List.drop_drop, hbody]
  simp only [Nat.add_lt_add_iff_left]

/-- The log that a prefix of a written file stands for. -/
def cutAt (log : RaftLog) (n : Nat) : RaftLog :=
  if n < headerSize then {}
  else if n < headerSize + (clip log.snapshotData).length then
    ⟨[], log.stored.snapshotLastIndex, log.stored.snapshotLastTerm, []⟩
  else
    { log.stored with
      entries := log.stored.entries.take (entryFormat.wholeRecords log.entries
        (n - headerSize - (clip log.snapshotData).length)) }

/-- Fewer bytes than a header are no log at all. -/
private theorem openFile_take_header (log : RaftLog) {n : Nat} (hn : n < headerSize) :
    openFile (some (log.toBytes.take n)) = {} := by
  have htake : log.toBytes.take n = log.header.take n := by
    rw [toBytes, List.take_append_of_le_length (by rw [header_length]; omega)]
  have hlen : (log.header.take n).length = n := by
    rw [List.length_take, header_length]
    omega
  rw [htake, openFile]
  dsimp only
  by_cases hmagic : 4 ≤ (log.header.take n).length ∧ leNat ((log.header.take n).take 4) = kMagic
  · rw [if_pos hmagic, if_pos (by omega)]
  · have hshort : n < 4 := by
      apply Nat.lt_of_not_le
      intro hle
      apply hmagic
      refine ⟨by omega, ?_⟩
      rw [List.take_take, min_eq_left hle]
      simpa using (header_fields log []).1
    rw [if_neg hmagic, readEntries_of_short (by omega)]

/-- What any prefix of a written file is opened as. -/
theorem openFile_take (log : RaftLog) (n : Nat) :
    openFile (some (log.toBytes.take n)) = log.cutAt n := by
  unfold cutAt
  split_ifs with hheader hdata
  · exact openFile_take_header log hheader
  · have htake : log.toBytes.take n =
        log.header ++ (clip log.snapshotData ++ entryFormat.encodeAll log.entries).take
          (n - headerSize) := by
      rw [toBytes, List.take_append, header_length, List.take_of_length_le (by
        rw [header_length]
        omega)]
    rw [htake, openFile_header, if_pos]
    · rfl
    · rw [List.length_take]
      omega
  · have htake : log.toBytes.take n =
        log.header ++ (clip log.snapshotData ++ (entryFormat.encodeAll log.entries).take
          (n - headerSize - (clip log.snapshotData).length)) := by
      rw [toBytes, List.take_append, header_length, List.take_append,
        List.take_of_length_le (by rw [header_length]; omega), List.take_of_length_le (by omega)]
    rw [htake, openFile_header, if_neg (by rw [List.length_append]; omega), List.drop_left' rfl,
      List.take_left' rfl, readEntries, RecordFormat.parseAll_take _ _ _ _ (Nat.lt_succ_self _),
      List.map_take]
    rfl

/-- Every record is whole once the whole file is there. -/
theorem wholeRecords_eq_length_iff (log : RaftLog) {n : Nat}
    (hn : headerSize + (clip log.snapshotData).length ≤ n) :
    entryFormat.wholeRecords log.entries (n - headerSize - (clip log.snapshotData).length) =
      log.entries.length ↔ log.sizeOnDisk ≤ n := by
  rw [RecordFormat.wholeRecords_eq_length_iff, sizeOnDisk]
  omega

theorem cutAt_of_sizeOnDisk_le {log : RaftLog} {n : Nat} (hn : log.sizeOnDisk ≤ n) :
    log.cutAt n = log.stored := by
  have hheader : headerSize + (clip log.snapshotData).length ≤ n := by
    unfold sizeOnDisk at hn
    omega
  have hlen : log.stored.entries.length = log.entries.length := List.length_map ..
  rw [cutAt, if_neg (by omega), if_neg (by omega), (wholeRecords_eq_length_iff log hheader).mpr hn,
    ← hlen, List.take_length]

/-- A whole file is opened as the log on disk. -/
theorem openFile_toBytes_stored (log : RaftLog) : openFile (some log.toBytes) = log.stored := by
  have hread := openFile_take log log.sizeOnDisk
  rwa [← toBytes_length, List.take_length, toBytes_length, cutAt_of_sizeOnDisk_le le_rfl] at hread

/-- Entries of the older format, a file without a header. -/
theorem openFile_encodeAll {es : List PersistedEntry}
    (hmagic : (entryFormat.encodeAll es).take 4 ≠ leBytes 4 kMagic) :
    openFile (some (entryFormat.encodeAll es)) = ⟨es.map storedEntry, 0, 0, []⟩ := by
  have hno : ¬ (4 ≤ (entryFormat.encodeAll es).length ∧
      leNat ((entryFormat.encodeAll es).take 4) = kMagic) := by
    rintro ⟨hlen, hval⟩
    apply hmagic
    have hlen4 : ((entryFormat.encodeAll es).take 4).length = 4 := by
      rw [List.length_take]
      omega
    have hback := leBytes_leNat ((entryFormat.encodeAll es).take 4)
    rw [hlen4, hval] at hback
    exact hback.symm
  rw [openFile]
  dsimp only
  rw [if_neg hno, readEntries, RecordFormat.parseAll_encodeAll _ _ _ (Nat.lt_succ_self _)]
  rfl

/-- All the bytes of a log read back. -/
theorem openFile_toBytes {log : RaftLog} (hfits : log.Fits) :
    openFile (some log.toBytes) = log := by
  rw [openFile_toBytes_stored, stored_of_fits hfits]

/-- So does an older file whose first four bytes are not the magic number. -/
theorem openFile_oldFormat {es : List PersistedEntry}
    (hfits : ∀ e ∈ es, e.term < 2 ^ 64 ∧ e.command.length < 2 ^ 32)
    (hmagic : (entryFormat.encodeAll es).take 4 ≠ leBytes 4 kMagic) :
    openFile (some (entryFormat.encodeAll es)) = { entries := es } := by
  rw [openFile_encodeAll hmagic, map_storedEntry_of_fits hfits]

/-! ## Stops inside a mutation -/

/-- The calls that rewrite the file. -/
inductive Mutation where
  | append (term : Nat) (command : Bytes)
  | truncateAndAppend (keepCount : Nat) (newEntries : List PersistedEntry)
  | compact (upToIndex snapshotTerm : Nat) (snapshotData : Bytes)
deriving DecidableEq, Repr

/-- The log after a mutation. -/
def mutate (log : RaftLog) : Mutation → RaftLog
  | .append term command => log.append term command
  | .truncateAndAppend keepCount newEntries => log.truncateAndAppend keepCount newEntries
  | .compact upToIndex snapshotTerm snapshotData =>
      log.compact upToIndex snapshotTerm snapshotData

/-- The mutation calls {lit}`persist`: all do, except for a compaction that has
nothing to do.  Indices are {lit}`uint64_t`. -/
def Rewrites (log : RaftLog) : Mutation → Prop
  | .append _ _ => True
  | .truncateAndAppend _ _ => True
  | .compact upToIndex _ _ => log.snapshotLastIndex < upToIndex ∧ upToIndex < 2 ^ 64

/-- The log with only its first {lit}`k` entries. -/
def firstEntries (log : RaftLog) (k : Nat) : RaftLog :=
  { log with entries := log.entries.take k }

/-- The new log only adds entries behind those of the old one, and a file of
{lit}`n` bytes ends after the last old entry and before the first added one is
complete. -/
def EndsBehind (old new : RaftLog) (n : Nat) : Prop :=
  old.snapshotLastIndex = new.stored.snapshotLastIndex ∧
    old.snapshotLastTerm = new.stored.snapshotLastTerm ∧
    old.snapshotData = new.stored.snapshotData ∧
    old.entries <+: new.stored.entries ∧ old.entries.length < new.entries.length ∧
    (new.firstEntries old.entries.length).sizeOnDisk ≤ n ∧
    n < (new.firstEntries (old.entries.length + 1)).sizeOnDisk

/-- A stop after {lit}`n` bytes is harmless in three cases.  Before the header is
complete the file is read as the empty log, which has to be the log before or after
the mutation.  Once the file is complete, it has to be readable.  In between, it
has to end behind the entries of the old log. -/
def StopHarmless (old new : RaftLog) (n : Nat) : Prop :=
  (n < headerSize ∧ (old = {} ∨ new = {})) ∨
    (new.sizeOnDisk ≤ n ∧ (new.stored = old ∨ new.stored = new)) ∨ EndsBehind old new n

/-- A mutation that rewrites the file keeps the snapshot data or moves the
snapshot forward. -/
theorem mutate_snapshot {log : RaftLog} {m : Mutation} (h : log.Rewrites m) :
    (log.mutate m).snapshotData = log.snapshotData ∨
      (log.snapshotLastIndex < (log.mutate m).snapshotLastIndex ∧
        (log.mutate m).snapshotLastIndex < 2 ^ 64) := by
  cases m with
  | append term command => exact .inl rfl
  | truncateAndAppend keepCount newEntries => exact .inl rfl
  | compact upToIndex snapshotTerm snapshotData =>
      rcases h with ⟨hlo, hhi⟩
      have hnot : ¬ upToIndex ≤ log.snapshotLastIndex := by omega
      right
      simp only [mutate, RaftLog.compact, if_neg hnot]
      exact ⟨hlo, hhi⟩

/-- A header without its snapshot data is neither log. -/
private theorem bare_ne {old new : RaftLog}
    (hsnap : new.snapshotData = old.snapshotData ∨
      (old.snapshotLastIndex < new.snapshotLastIndex ∧ new.snapshotLastIndex < 2 ^ 64))
    (hdata : 0 < (clip new.snapshotData).length) :
    (⟨[], new.stored.snapshotLastIndex, new.stored.snapshotLastTerm, []⟩ : RaftLog) ≠ old ∧
      (⟨[], new.stored.snapshotLastIndex, new.stored.snapshotLastTerm, []⟩ : RaftLog) ≠ new := by
  have hnew : new.snapshotData ≠ [] := by
    intro hnil
    rw [hnil] at hdata
    exact absurd hdata (by decide)
  constructor
  · intro heq
    rcases hsnap with hsame | ⟨hlt, hhi⟩
    · apply hnew
      rw [hsame, ← heq]
    · have hidx : new.snapshotLastIndex % 2 ^ 64 = old.snapshotLastIndex :=
        congrArg RaftLog.snapshotLastIndex heq
      rw [Nat.mod_eq_of_lt hhi] at hidx
      omega
  · intro heq
    exact hnew (congrArg RaftLog.snapshotData heq).symm

theorem sizeOnDisk_firstEntries_le (log : RaftLog) (k : Nat) :
    (log.firstEntries k).sizeOnDisk ≤ log.sizeOnDisk := by
  have hsplit : entryFormat.sizeAll (log.entries.take k) +
      entryFormat.sizeAll (log.entries.drop k) =
      entryFormat.sizeAll log.entries := by
    rw [RecordFormat.sizeAll, RecordFormat.sizeAll, RecordFormat.sizeAll, ← List.length_append]
    simp only [RecordFormat.encodeAll, ← List.flatMap_append, List.take_append_drop]
  simp only [sizeOnDisk, firstEntries]
  omega

theorem headerSize_le_firstEntries (log : RaftLog) (k : Nat) :
    headerSize + (clip log.snapshotData).length ≤ (log.firstEntries k).sizeOnDisk :=
  Nat.le_add_right _ _

/-- Where exactly {lit}`k` of the entries are whole. -/
theorem wholeRecords_eq_iff (log : RaftLog) {n k : Nat}
    (hn : headerSize + (clip log.snapshotData).length ≤ n) (hk : k < log.entries.length) :
    entryFormat.wholeRecords log.entries (n - headerSize - (clip log.snapshotData).length) = k ↔
      (log.firstEntries k).sizeOnDisk ≤ n ∧ n < (log.firstEntries (k + 1)).sizeOnDisk := by
  rw [RecordFormat.wholeRecords_eq_iff _ _ _ _ hk.le]
  simp only [hk, true_implies, sizeOnDisk, firstEntries]
  omega

/-- Between the snapshot and the end of the file a prefix is never the new log,
and the old one exactly when the file ends behind it. -/
private theorem cutAt_iff_endsBehind {old new : RaftLog} {n : Nat}
    (hle : headerSize + (clip new.snapshotData).length ≤ n) (hall : ¬ new.sizeOnDisk ≤ n) :
    (new.cutAt n = old ∨ new.cutAt n = new) ↔ EndsBehind old new n := by
  have hlen : new.stored.entries.length = new.entries.length := List.length_map ..
  have hcount : entryFormat.wholeRecords new.entries
      (n - headerSize - (clip new.snapshotData).length) < new.entries.length := by
    apply lt_of_le_of_ne (RecordFormat.wholeRecords_le _ _ _)
    intro heq
    exact hall ((wholeRecords_eq_length_iff new hle).mp heq)
  rw [cutAt, if_neg (by omega), if_neg (by omega)]
  constructor
  · rintro (h | h)
    · have hentries := congrArg RaftLog.entries h
      have hk : entryFormat.wholeRecords new.entries
          (n - headerSize - (clip new.snapshotData).length) = old.entries.length := by
        rw [← hentries, List.length_take, hlen]
        omega
      rw [hk] at hcount
      refine ⟨by rw [← h], by rw [← h], by rw [← h], ?_, hcount,
        (wholeRecords_eq_iff new hle hcount).mp hk⟩
      rw [← hentries]
      exact List.take_prefix _ _
    · have hentries := congrArg (fun log => log.entries.length) h
      simp only [List.length_take, hlen] at hentries
      omega
  · rintro ⟨hidx, hterm, hsdata, hprefix, hlt, hsizes⟩
    left
    rw [(wholeRecords_eq_iff new hle hlt).mpr hsizes, ← List.prefix_iff_eq_take.mp hprefix]
    dsimp only
    rw [← hidx, ← hterm, ← hsdata]

/-- The three harmless cases are the only ones: the prefix is opened as the old or
the new log exactly when one of them holds. -/
private theorem cutAt_iff {old new : RaftLog}
    (hsnap : new.snapshotData = old.snapshotData ∨
      (old.snapshotLastIndex < new.snapshotLastIndex ∧ new.snapshotLastIndex < 2 ^ 64))
    (n : Nat) : (new.cutAt n = old ∨ new.cutAt n = new) ↔ StopHarmless old new n := by
  have hlo := headerSize_le_firstEntries new old.entries.length
  have hhi := sizeOnDisk_firstEntries_le new (old.entries.length + 1)
  have htotal : headerSize + (clip new.snapshotData).length ≤ new.sizeOnDisk :=
    Nat.le_add_right _ _
  unfold StopHarmless
  by_cases hheader : n < headerSize
  · -- the header is not complete: the empty log
    rw [cutAt, if_pos hheader]
    constructor
    · rintro (h | h)
      · exact .inl ⟨hheader, .inl h.symm⟩
      · exact .inl ⟨hheader, .inr h.symm⟩
    · rintro (⟨-, h | h⟩ | ⟨h, -⟩ | ⟨-, -, -, -, -, h, -⟩)
      · exact .inl h.symm
      · exact .inr h.symm
      · omega
      · omega
  by_cases hdata : n < headerSize + (clip new.snapshotData).length
  · -- the snapshot data is not complete: never harmless
    rcases bare_ne hsnap (by omega) with ⟨hold, hnew⟩
    rw [cutAt, if_neg hheader, if_pos hdata]
    constructor
    · rintro (h | h)
      · exact absurd h hold
      · exact absurd h hnew
    · rintro (⟨h, -⟩ | ⟨h, -⟩ | ⟨-, -, -, -, -, h, -⟩)
      · omega
      · omega
      · omega
  by_cases hall : new.sizeOnDisk ≤ n
  · -- the file is complete
    rw [cutAt_of_sizeOnDisk_le hall]
    constructor
    · intro h
      exact .inr (.inl ⟨hall, h⟩)
    · rintro (⟨h, -⟩ | ⟨-, h⟩ | ⟨-, -, -, -, -, -, h⟩)
      · omega
      · exact h
      · omega
  · -- some entry is not complete
    rw [cutAt_iff_endsBehind (by omega) hall]
    constructor
    · intro h
      exact .inr (.inr h)
    · rintro (⟨h, -⟩ | ⟨h, -⟩ | h)
      · omega
      · omega
      · exact h

/-- For every log, every mutation that rewrites the file and every number of bytes
that reached it: the file is opened as the log before or after the mutation exactly
when the stop is harmless. -/
theorem crashAtomic_iff (log : RaftLog) (m : Mutation) (hrewrites : log.Rewrites m) (n : Nat) :
    (openFile (some ((log.mutate m).toBytes.take n)) = log ∨
      openFile (some ((log.mutate m).toBytes.take n)) = log.mutate m) ↔
      StopHarmless log (log.mutate m) n := by
  rw [openFile_take]
  exact cutAt_iff (mutate_snapshot hrewrites) n

/-- An append to a log of one entry is stopped behind the old entry: the old log is
still there. -/
theorem crashAtomic_iff_append :
    openFile (some ((RaftLog.mutate { entries := [⟨1, [65]⟩] } (.append 1 [66])).toBytes.take 40)) =
      { entries := [⟨1, [65]⟩] } := by
  have hsafe : StopHarmless { entries := [⟨1, [65]⟩] }
      (RaftLog.mutate { entries := [⟨1, [65]⟩] } (.append 1 [66])) 40 := by
    refine .inr (.inr ⟨rfl, rfl, rfl, ?_, ?_, ?_, ?_⟩)
    · decide
    · decide
    · decide
    · decide
  rcases (crashAtomic_iff { entries := [⟨1, [65]⟩] } (.append 1 [66]) trivial 40).mpr hsafe with
    h | h
  · exact h
  · exact absurd h (by decide)

/-- The same append, stopped right after the truncation: the entry that was already
on disk is gone. -/
theorem append_not_crashAtomic :
    openFile (some ((RaftLog.mutate { entries := [⟨1, [65]⟩] } (.append 1 [66])).toBytes.take 0)) =
        {} ∧
      ¬ (openFile (some ((RaftLog.mutate { entries := [⟨1, [65]⟩] } (.append 1 [66])).toBytes.take
            0)) = { entries := [⟨1, [65]⟩] } ∨
        openFile (some ((RaftLog.mutate { entries := [⟨1, [65]⟩] } (.append 1 [66])).toBytes.take
            0)) = RaftLog.mutate { entries := [⟨1, [65]⟩] } (.append 1 [66])) := by
  decide

/-! ## What a cut file is read as -/

theorem clip_eq_self_iff {s : Bytes} : clip s = s ↔ s.length < 2 ^ 32 := by
  constructor
  · intro h
    have hlen := clip_length s
    rw [h] at hlen
    rw [hlen]
    exact Nat.mod_lt _ (by decide)
  · exact clip_of_lt

/-- The numbers of the log are values of its {lit}`uint64_t` members. -/
def Words (log : RaftLog) : Prop :=
  log.snapshotLastIndex < 2 ^ 64 ∧ log.snapshotLastTerm < 2 ^ 64 ∧
    ∀ e ∈ log.entries, e.term < 2 ^ 64

/-- A log that a cut file may be read as: the empty log, or the whole snapshot with a prefix
of the entries. -/
def RecoveredFrom (log read : RaftLog) : Prop :=
  read = {} ∨ (read.snapshotLastIndex = log.snapshotLastIndex ∧
    read.snapshotLastTerm = log.snapshotLastTerm ∧ read.snapshotData = log.snapshotData ∧
    read.entries <+: log.entries)

/-- How many entries are whole in the first {lit}`n` bytes of the file. -/
def wholeEntries (log : RaftLog) (n : Nat) : Nat :=
  entryFormat.wholeRecords log.entries (n - headerSize - (clip log.snapshotData).length)

/-- A cut after {lit}`n` bytes is consistent in three cases.  It lies in the header.  Or it lies
behind the snapshot data, which has to be short enough for its length field, as the commands
of the whole entries have to be.  Or the log has no snapshot index and term, and neither
snapshot data nor entries are read. -/
def CutConsistent (log : RaftLog) (n : Nat) : Prop :=
  n < headerSize ∨
    (headerSize + (clip log.snapshotData).length ≤ n ∧ log.snapshotData.length < 2 ^ 32 ∧
      ∀ e ∈ log.entries.take (log.wholeEntries n), e.command.length < 2 ^ 32) ∨
    (log.snapshotLastIndex = 0 ∧ log.snapshotLastTerm = 0 ∧
      (n < headerSize + (clip log.snapshotData).length ∨
        (clip log.snapshotData = [] ∧ log.wholeEntries n = 0)))

/-- Entries read back from the disk are a prefix of the entries exactly when none of them was
clipped. -/
theorem take_map_storedEntry_prefix_iff {es : List PersistedEntry}
    (hterms : ∀ e ∈ es, e.term < 2 ^ 64) (k : Nat) :
    (es.map storedEntry).take k <+: es ↔ ∀ e ∈ es.take k, e.command.length < 2 ^ 32 := by
  induction es generalizing k with
  | nil => simp
  | cons e es ih =>
      rw [List.forall_mem_cons] at hterms
      have hstored : storedEntry e = e ↔ e.command.length < 2 ^ 32 := by
        rw [← clip_eq_self_iff]
        rcases e with ⟨term, command⟩
        simp only [storedEntry, PersistedEntry.mk.injEq, Nat.mod_eq_of_lt hterms.1, true_and]
      cases k with
      | zero => simp
      | succ k =>
          rw [List.map_cons, List.take_succ_cons, List.take_succ_cons, List.cons_prefix_cons,
            ih hterms.2, hstored, List.forall_mem_cons]

/-- Whole entries read back are none exactly when no entry is whole. -/
theorem take_wholeEntries_eq_nil_iff (log : RaftLog) (n : Nat) :
    log.stored.entries.take (log.wholeEntries n) = [] ↔ log.wholeEntries n = 0 := by
  have hlen : (log.stored.entries.take (log.wholeEntries n)).length = log.wholeEntries n := by
    rw [List.length_take, stored, List.length_map]
    exact min_eq_left (RecordFormat.wholeRecords_le _ _ _)
  rw [← List.length_eq_zero_iff, hlen]

/-- For every log and every prefix of its file: the prefix is read as the empty log or as the
snapshot with a prefix of the entries, exactly when the cut is consistent. -/
theorem recoveredFrom_iff (log : RaftLog) (hwords : log.Words) (n : Nat) :
    RecoveredFrom log (openFile (some (log.toBytes.take n))) ↔ log.CutConsistent n := by
  rcases hwords with ⟨hidx, hterm, hentries⟩
  have hstored : log.stored = ⟨log.entries.map storedEntry, log.snapshotLastIndex,
      log.snapshotLastTerm, clip log.snapshotData⟩ := by
    rw [stored, Nat.mod_eq_of_lt hidx, Nat.mod_eq_of_lt hterm]
  rw [openFile_take, RecoveredFrom, CutConsistent, cutAt]
  by_cases hheader : n < headerSize
  · rw [if_pos hheader]
    exact iff_of_true (.inl rfl) (.inl hheader)
  rw [if_neg hheader]
  by_cases hdata : n < headerSize + (clip log.snapshotData).length
  · -- the snapshot data is cut: only the index and the term are read
    have hne : log.snapshotData ≠ [] := by
      intro hnil
      rw [hnil] at hdata
      exact hheader (by simpa [clip] using hdata)
    rw [if_pos hdata, hstored]
    constructor
    · rintro (hempty | ⟨-, -, hlost, -⟩)
      · right
        right
        rw [RaftLog.mk.injEq] at hempty
        exact ⟨hempty.2.1, hempty.2.2.1, .inl hdata⟩
      · exact absurd hlost.symm hne
    · rintro (h | ⟨h, -⟩ | ⟨hzero, hzero', -⟩)
      · exact absurd h hheader
      · omega
      · left
        rw [hzero, hzero']
  · -- the snapshot is whole, and so are some entries
    have hnone := take_wholeEntries_eq_nil_iff log n
    have hkept := take_map_storedEntry_prefix_iff hentries (log.wholeEntries n)
    rw [if_neg hdata, ← wholeEntries]
    rw [hstored] at hnone ⊢
    dsimp only at hnone ⊢
    rw [hkept, clip_eq_self_iff, RaftLog.mk.injEq, hnone]
    constructor
    · rintro (⟨hcount, hzero, hzero', hclip⟩ | ⟨-, -, hshort, hcommands⟩)
      · exact .inr (.inr ⟨hzero, hzero', .inr ⟨hclip, hcount⟩⟩)
      · exact .inr (.inl ⟨by omega, hshort, hcommands⟩)
    · rintro (h | ⟨-, hshort, hcommands⟩ | ⟨hzero, hzero', h | ⟨hclip, hcount⟩⟩)
      · exact absurd h hheader
      · exact .inr ⟨rfl, rfl, hshort, hcommands⟩
      · exact absurd h hdata
      · exact .inl ⟨hcount, hzero, hzero', hclip⟩

/-- A file that is cut inside its second entry gives the snapshot and the first one. -/
theorem recoveredFrom_secondEntry :
    RecoveredFrom ⟨[⟨2, [97]⟩, ⟨2, [98]⟩], 7, 2, [115]⟩
      (openFile (some ((toBytes ⟨[⟨2, [97]⟩, ⟨2, [98]⟩], 7, 2, [115]⟩).take 45))) := by
  refine (recoveredFrom_iff _ ⟨by decide, by decide, by decide⟩ 45).mpr ?_
  exact .inr (.inl ⟨by decide, by decide, by decide⟩)

/-- A file that is cut inside the snapshot data keeps the index and the term of the snapshot
and has no data: a node that starts on it takes seven entries for applied. -/
theorem snapshot_data_lost :
    openFile (some ((toBytes ⟨[⟨2, [97]⟩], 7, 2, [115, 116]⟩).take 25)) = ⟨[], 7, 2, []⟩ ∧
      (RaftNode.openFiles 0 [0] {} (openFile (some ((toBytes
        ⟨[⟨2, [97]⟩], 7, 2, [115, 116]⟩).take 25)))).lastApplied = 7 ∧
      ¬ RecoveredFrom ⟨[⟨2, [97]⟩], 7, 2, [115, 116]⟩
        (openFile (some ((toBytes ⟨[⟨2, [97]⟩], 7, 2, [115, 116]⟩).take 25))) := by
  have hread : openFile (some ((toBytes ⟨[⟨2, [97]⟩], 7, 2, [115, 116]⟩).take 25)) =
      ⟨[], 7, 2, []⟩ := by decide
  refine ⟨hread, by rw [hread]; rfl, ?_⟩
  rw [hread]
  rintro (h | ⟨-, -, h, -⟩)
  · exact absurd h (by decide)
  · exact absurd h (by decide)

end RaftLog

end NanoDB.Raft

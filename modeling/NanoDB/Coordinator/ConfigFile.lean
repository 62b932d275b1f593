import Mathlib.Data.UInt
import NanoDB.Coordinator.Topology
import NanoDB.Lib.Execution
import NanoDB.Lib.FileSystem

/-!
# The shared config file

Coordinators on one machine share a config file: {lit}`save_cluster_config` replaces it,
{lit}`load_cluster_config` reads it.  A save writes to a temporary file of its own, named
after the process and a counter of the process, and renames it over the config file.

The steps are the accesses to the file system: opening, single writes and reads of any
size, the rename.  They interleave in any order, and a save can fail at any of them.  The
JSON library is a parameter that parses what it dumps; {lit}`dump` throws on a host that is
not UTF-8.  Documents are those of the shape of a config file.

Main results:

- Theorem {lit}`readConfig_configJson`: the endpoints of a document are read back.
- Theorem {lit}`tempPath_injective`: temporary names are unique.
- Theorem {lit}`ConfigSystem.step_cases`: what one access can do.
-/

namespace NanoDB.Coordinator

open Lib (Exec FileSystem guardedRun)
open Raft (Bytes)
open Cluster (decimal)

/-! ## Documents -/

/-- A value without members. -/
inductive Scalar
  | bool (b : Bool)
  | int (i : Int)
  | str (s : Bytes)
deriving DecidableEq, Repr

/-- The value of a member of a config document: a scalar, or an array of objects of
scalars. -/
inductive Member
  | scalar (v : Scalar)
  | objects (items : List (List (String × Scalar)))
deriving DecidableEq, Repr

/-- A JSON document. -/
abbrev Document := List (String × Member)

/-- {lit}`get<int>`, which also takes a boolean. -/
def Scalar.getInt : Scalar → Option Int
  | .bool b => some (if b then 1 else 0)
  | .int i => some i
  | .str _ => none

def Scalar.getString : Scalar → Option Bytes
  | .str s => some s
  | _ => none

def Scalar.getBool : Scalar → Option Bool
  | .bool b => some b
  | _ => none

/-- {lit}`at`, then {lit}`get`; {lean}`none` is an exception. -/
def required {α : Type} (object : List (String × Scalar)) (key : String)
    (get : Scalar → Option α) : Option α :=
  (object.lookup key).bind get

/-- {lit}`value`, with a default for a key that is missing. -/
def optional {α : Type} (object : List (String × Scalar)) (key : String)
    (get : Scalar → Option α) (default : α) : Option α :=
  match object.lookup key with
  | none => some default
  | some v => get v

/-- One element of the array, with its keys in the order of the library's map. -/
def endpointJson (ep : ShardEndpoint) : List (String × Scalar) :=
  [("host", .str ep.host), ("port", .int ep.port), ("primary", .bool ep.isPrimary),
    ("replica_id", .int ep.replicaId), ("shard_id", .int ep.shardId)]

/-- The document that {lit}`save_cluster_config` builds. -/
def configJson (shards : List ShardEndpoint) : Document :=
  [("shards", .objects (shards.map endpointJson))]

def readEndpoint (s : List (String × Scalar)) : Option ShardEndpoint := do
  let shardId ← required s "shard_id" Scalar.getInt
  let replicaId ← optional s "replica_id" Scalar.getInt 0
  let host ← required s "host" Scalar.getString
  let port ← required s "port" Scalar.getInt
  let isPrimary ← optional s "primary" Scalar.getBool true
  return ⟨shardId, replicaId, host, port, isPrimary⟩

inductive ConfigError
  /-- {lit}`cannot open cluster config: ` and the path. -/
  | cannotOpen
  /-- An exception of the JSON library. -/
  | json
  /-- {lit}`cluster config has zero shards`. -/
  | zeroShards
deriving DecidableEq, Repr

/-- What {lit}`load_cluster_config` makes of a document. -/
def readConfig (j : Document) : Except ConfigError (List ShardEndpoint) :=
  match j.lookup "shards" with
  | some (.objects items) =>
      match items.mapM readEndpoint with
      | none => .error .json
      | some shards => if shards = [] then .error .zeroShards else .ok shards
  | _ => .error .json

theorem readEndpoint_endpointJson (ep : ShardEndpoint) :
    readEndpoint (endpointJson ep) = some ep :=
  rfl

theorem mapM_readEndpoint (shards : List ShardEndpoint) :
    (shards.map endpointJson).mapM readEndpoint = some shards := by
  induction shards with
  | nil => rfl
  | cons ep shards ih =>
      rw [List.map_cons, List.mapM_cons, readEndpoint_endpointJson, ih]
      rfl

/-- Every non-empty list is read back as it was written. -/
theorem readConfig_configJson {shards : List ShardEndpoint} (h : shards ≠ []) :
    readConfig (configJson shards) = .ok shards := by
  have hlookup : (configJson shards).lookup "shards" =
      some (.objects (shards.map endpointJson)) := by
    simp [configJson]
  rw [readConfig, hlookup]
  dsimp only
  rw [mapM_readEndpoint]
  exact if_neg h

/-- The JSON library.  {lit}`dump` throws on a string that is not UTF-8. -/
structure JsonLibrary where
  dump : Document → Option Bytes
  parse : Bytes → Option Document
  parse_dump : ∀ j text, dump j = some text → parse text = some j

/-- What {lit}`load_cluster_config` makes of the text that it has read. -/
def JsonLibrary.loadText (lib : JsonLibrary) (text : Bytes) :
    Except ConfigError (List ShardEndpoint) :=
  match lib.parse text with
  | none => .error .json
  | some j => readConfig j

theorem JsonLibrary.loadText_dump (lib : JsonLibrary) {shards : List ShardEndpoint} {text : Bytes}
    (hne : shards ≠ []) (h : lib.dump (configJson shards) = some text) :
    lib.loadText text = .ok shards := by
  rw [loadText, lib.parse_dump _ _ h]
  exact readConfig_configJson hne

/-! ## Temporary names -/

/-- The process of a save and the value it has drawn from {lit}`s_write_counter`. -/
structure Ticket where
  pid : Nat
  seq : Nat
deriving DecidableEq, Repr

/-- {lit}`.tmp`. -/
def tmpSuffix : Bytes := [46, 116, 109, 112]

def tempPath (path : Bytes) (t : Ticket) : Bytes :=
  path ++ (46 :: (decimal t.pid ++ (46 :: (decimal t.seq ++ tmpSuffix))))

/-- A digit is its own byte. -/
private theorem digit_toNat {n : Nat} {c : Char} (hc : c ∈ Nat.toDigits 10 n) :
    (UInt8.ofNat c.toNat).toNat = c.toNat ∧ 48 ≤ c.toNat := by
  have hdigit : '0'.toNat ≤ c.toNat ∧ c.toNat ≤ '9'.toNat :=
    Char.isDigit_iff_toNat.mp (Nat.isDigit_of_mem_toDigits (by omega) (by omega) hc)
  have hlo : '0'.toNat = 48 := rfl
  have hhi : '9'.toNat = 57 := rfl
  rw [UInt8.toNat_ofNat']
  omega

/-- The digits are read back from the bytes. -/
private theorem toDigits_of_decimal (n : Nat) :
    (decimal n).map (fun b => Char.ofNat b.toNat) = Nat.toDigits 10 n := by
  rw [decimal, List.map_map]
  refine (List.map_congr_left ?_).trans (List.map_id' _)
  intro c hc
  rw [Function.comp_apply, (digit_toNat hc).1, Char.ofNat_toNat]

theorem decimal_injective {m n : Nat} (h : decimal m = decimal n) : m = n := by
  have hdigits : Nat.toDigits 10 m = Nat.toDigits 10 n := by
    rw [← toDigits_of_decimal, ← toDigits_of_decimal, h]
  rw [← Nat.ofDigitChars_ten_toDigits (n := m), hdigits, Nat.ofDigitChars_ten_toDigits]

/-- A number has no dot in it. -/
theorem dot_notMem_decimal (n : Nat) : (46 : UInt8) ∉ decimal n := by
  intro hmem
  rcases List.mem_map.mp hmem with ⟨c, hc, heq⟩
  rcases digit_toNat hc with ⟨hbyte, hlo⟩
  rw [heq] at hbyte
  have hdot : (46 : UInt8).toNat = 46 := rfl
  omega

/-- The part before the first dot is determined. -/
private theorem eq_of_append_dot {s s' rest rest' : Bytes} (hs : (46 : UInt8) ∉ s)
    (hs' : (46 : UInt8) ∉ s') (h : s ++ 46 :: rest = s' ++ 46 :: rest') :
    s = s' ∧ rest = rest' := by
  induction s generalizing s' with
  | nil =>
      cases s' with
      | nil => exact ⟨rfl, (List.cons.inj h).2⟩
      | cons b s' => exact absurd ((List.cons.inj h).1 ▸ List.mem_cons_self) hs'
  | cons a s ih =>
      cases s' with
      | nil => exact absurd ((List.cons.inj h).1 ▸ List.mem_cons_self) hs
      | cons b s' =>
          rcases List.cons.inj h with ⟨rfl, htail⟩
          rcases ih (fun hmem => hs (List.mem_cons_of_mem _ hmem))
            (fun hmem => hs' (List.mem_cons_of_mem _ hmem)) htail with ⟨rfl, hrest⟩
          exact ⟨rfl, hrest⟩

/-- Two saves with one temporary name are one save of one process. -/
theorem tempPath_injective {path : Bytes} {t t' : Ticket} (h : tempPath path t = tempPath path t') :
    t = t' := by
  have htail := (List.cons.inj (List.append_cancel_left h)).2
  rcases eq_of_append_dot (dot_notMem_decimal _) (dot_notMem_decimal _) htail with ⟨hpid, hseq⟩
  have hseq' : decimal t.seq = decimal t'.seq := List.append_cancel_right hseq
  rcases t with ⟨pid, seq⟩
  rcases t' with ⟨pid', seq'⟩
  rw [Ticket.mk.injEq]
  exact ⟨decimal_injective hpid, decimal_injective hseq'⟩

theorem tempPath_ne (path : Bytes) (t : Ticket) : tempPath path t ≠ path := by
  intro h
  have hlen := congrArg List.length h
  rw [tempPath, List.length_append, List.length_cons] at hlen
  omega

/-! ## Saves and loads -/

/-- How far a {lit}`save_cluster_config` call has come. -/
inductive SavePhase
  | idle
  /-- It has its temporary name. -/
  | started (ticket : Ticket) (shards : List ShardEndpoint)
  /-- The file is open, {lit}`offset` bytes are written and {lit}`rest` is left. -/
  | writing (ticket : Ticket) (shards : List ShardEndpoint) (file offset : Nat) (rest : Bytes)
  /-- The rename has happened. -/
  | done (shards : List ShardEndpoint)
  /-- It has thrown, or its process was killed. -/
  | failed
deriving DecidableEq, Repr

/-- The temporary name that a save uses. -/
def SavePhase.ticket : SavePhase → Option Ticket
  | .started ticket _ => some ticket
  | .writing ticket _ _ _ _ => some ticket
  | _ => none

/-- The list that a save is writing or has written. -/
def SavePhase.shards : SavePhase → Option (List ShardEndpoint)
  | .started _ shards => some shards
  | .writing _ shards _ _ _ => some shards
  | .done shards => some shards
  | _ => none

/-- How far a {lit}`load_cluster_config` call has come. -/
inductive LoadPhase
  | idle
  | reading (file : Nat) (text : Bytes)
  | finished (result : Except ConfigError (List ShardEndpoint))

/-- The file system, the counter of each process, and the calls. -/
structure ConfigSystem (ω ρ : Type) where
  fs : FileSystem Bytes UInt8
  counter : Nat → Nat
  saves : ω → SavePhase
  loads : ρ → LoadPhase

inductive ConfigAction (ω ρ : Type)
  /-- A process calls {lit}`save_cluster_config` and draws its counter. -/
  | beginSave (w : ω) (pid : Nat) (shards : List ShardEndpoint)
  | openTemp (w : ω)
  /-- One write of at most {lit}`size + 1` bytes. -/
  | write (w : ω) (size : Nat)
  | rename (w : ω)
  | fail (w : ω)
  | openLoad (r : ρ)
  /-- One read of at most {lit}`size + 1` bytes; an empty one is the end of the file. -/
  | read (r : ρ) (size : Nat)
deriving DecidableEq, Repr

section System

variable {ω ρ : Type} [DecidableEq ω] [DecidableEq ρ]

namespace ConfigSystem

def setSave (s : ConfigSystem ω ρ) (w : ω) (phase : SavePhase) : ConfigSystem ω ρ :=
  { s with saves := Function.update s.saves w phase }

def setLoad (s : ConfigSystem ω ρ) (r : ρ) (phase : LoadPhase) : ConfigSystem ω ρ :=
  { s with loads := Function.update s.loads r phase }

variable (lib : JsonLibrary) (path : Bytes)

def step (s : ConfigSystem ω ρ) : ConfigAction ω ρ → Option (ConfigSystem ω ρ)
  | .beginSave w pid shards =>
      match s.saves w with
      | .idle =>
          some { s.setSave w (.started ⟨pid, s.counter pid⟩ shards) with
            counter := Function.update s.counter pid (s.counter pid + 1) }
      | _ => none
  | .openTemp w =>
      match s.saves w with
      | .started ticket shards =>
          let opened := s.fs.openTrunc (tempPath path ticket)
          -- The text is made after the file is opened; an exception leaves the file.
          match lib.dump (configJson shards) with
          | none => some { s.setSave w .failed with fs := opened.2 }
          | some text =>
              some { s.setSave w (.writing ticket shards opened.1 0 text) with fs := opened.2 }
      | _ => none
  | .write w size =>
      match s.saves w with
      | .writing ticket shards file offset rest =>
          let chunk := rest.take (size + 1)
          some { s.setSave w
              (.writing ticket shards file (offset + chunk.length) (rest.drop (size + 1))) with
            fs := s.fs.writeAt file offset chunk }
      | _ => none
  | .rename w =>
      match s.saves w with
      | .writing ticket shards _ _ [] =>
          match s.fs.rename (tempPath path ticket) path with
          | none => some (s.setSave w .failed)
          | some fs => some { s.setSave w (.done shards) with fs := fs }
      | _ => none
  | .fail w =>
      match s.saves w with
      | .started _ _ => some (s.setSave w .failed)
      | .writing _ _ _ _ _ => some (s.setSave w .failed)
      | _ => none
  | .openLoad r =>
      match s.loads r with
      | .idle =>
          match s.fs.dir path with
          | none => some (s.setLoad r (.finished (.error .cannotOpen)))
          | some file => some (s.setLoad r (.reading file []))
      | _ => none
  | .read r size =>
      match s.loads r with
      | .reading file text =>
          match ((s.fs.data file).drop text.length).take (size + 1) with
          | [] => some (s.setLoad r (.finished (lib.loadText text)))
          | chunk => some (s.setLoad r (.reading file (text ++ chunk)))
      | _ => none

/-- What a step of a save can do. -/
theorem step_cases {s s' : ConfigSystem ω ρ} {act : ConfigAction ω ρ}
    (h : step lib path s act = some s') :
    (∃ w pid shards, act = .beginSave w pid shards ∧ s.saves w = .idle ∧
      s' = { s.setSave w (.started ⟨pid, s.counter pid⟩ shards) with
        counter := Function.update s.counter pid (s.counter pid + 1) }) ∨
    (∃ w ticket shards phase, act = .openTemp w ∧ s.saves w = .started ticket shards ∧
      s' = { s.setSave w phase with fs := (s.fs.openTrunc (tempPath path ticket)).2 } ∧
      (phase = .failed ∨ ∃ text, lib.dump (configJson shards) = some text ∧
        phase = .writing ticket shards (s.fs.openTrunc (tempPath path ticket)).1 0 text)) ∨
    (∃ w ticket shards file offset rest size, act = .write w size ∧
      s.saves w = .writing ticket shards file offset rest ∧
      s' = { s.setSave w (.writing ticket shards file (offset + (rest.take (size + 1)).length)
          (rest.drop (size + 1))) with
        fs := s.fs.writeAt file offset (rest.take (size + 1)) }) ∨
    (∃ w ticket shards file offset fs', act = .rename w ∧
      s.saves w = .writing ticket shards file offset [] ∧
      s.fs.rename (tempPath path ticket) path = some fs' ∧
      s' = { s.setSave w (.done shards) with fs := fs' }) ∨
    (∃ w, (act = .rename w ∨ act = .fail w) ∧ (s.saves w).ticket.isSome = true ∧
      s' = s.setSave w .failed) ∨
    (∃ r phase, act = .openLoad r ∧ s.loads r = .idle ∧ s' = s.setLoad r phase ∧
      ((s.fs.dir path = none ∧ phase = .finished (.error .cannotOpen)) ∨
        ∃ file, s.fs.dir path = some file ∧ phase = .reading file [])) ∨
    (∃ r file text size phase, act = .read r size ∧ s.loads r = .reading file text ∧
      s' = s.setLoad r phase ∧
      ((((s.fs.data file).drop text.length).take (size + 1) = [] ∧
          phase = .finished (lib.loadText text)) ∨
        (((s.fs.data file).drop text.length).take (size + 1) ≠ [] ∧
          phase = .reading file
            (text ++ ((s.fs.data file).drop text.length).take (size + 1))))) := by
  cases act with
  | beginSave w pid shards =>
      simp only [step] at h
      split at h
      · next hw => exact .inl ⟨w, pid, shards, rfl, hw, (Option.some_inj.mp h).symm⟩
      · contradiction
  | openTemp w =>
      simp only [step] at h
      split at h
      · next ticket shards hw =>
          right; left
          split at h
          · exact ⟨w, ticket, shards, _, rfl, hw, (Option.some_inj.mp h).symm, .inl rfl⟩
          · next text htext =>
              exact ⟨w, ticket, shards, _, rfl, hw, (Option.some_inj.mp h).symm,
                .inr ⟨text, htext, rfl⟩⟩
      · contradiction
  | write w size =>
      simp only [step] at h
      split at h
      · next ticket shards file offset rest hw =>
          right; right; left
          exact ⟨w, ticket, shards, file, offset, rest, size, rfl, hw, (Option.some_inj.mp h).symm⟩
      · contradiction
  | rename w =>
      simp only [step] at h
      split at h
      · next ticket shards file offset hw =>
          split at h
          · right; right; right; right; left
            exact ⟨w, .inl rfl, by rw [hw]; rfl, (Option.some_inj.mp h).symm⟩
          · next fs' hfs =>
              right; right; right; left
              exact ⟨w, ticket, shards, file, offset, fs', rfl, hw, hfs,
                (Option.some_inj.mp h).symm⟩
      · contradiction
  | fail w =>
      simp only [step] at h
      right; right; right; right; left
      split at h
      · next hw => exact ⟨w, .inr rfl, by rw [hw]; rfl, (Option.some_inj.mp h).symm⟩
      · next hw => exact ⟨w, .inr rfl, by rw [hw]; rfl, (Option.some_inj.mp h).symm⟩
      · contradiction
  | openLoad r =>
      simp only [step] at h
      right; right; right; right; right; left
      split at h
      · next hr =>
          split at h
          · next hdir =>
              exact ⟨r, _, rfl, hr, (Option.some_inj.mp h).symm, .inl ⟨hdir, rfl⟩⟩
          · next file hdir =>
              exact ⟨r, _, rfl, hr, (Option.some_inj.mp h).symm, .inr ⟨file, hdir, rfl⟩⟩
      · contradiction
  | read r size =>
      simp only [step] at h
      right; right; right; right; right; right
      split at h
      · next file text hr =>
          split at h
          · next hchunk =>
              exact ⟨r, file, text, size, _, rfl, hr, (Option.some_inj.mp h).symm,
                .inl ⟨hchunk, rfl⟩⟩
          · next hchunk =>
              exact ⟨r, file, text, size, _, rfl, hr, (Option.some_inj.mp h).symm,
                .inr ⟨hchunk, rfl⟩⟩
      · contradiction

end ConfigSystem

end System

end NanoDB.Coordinator

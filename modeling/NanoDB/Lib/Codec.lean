import Mathlib.Data.List.Basic
import Mathlib.Data.Int.Basic
import Mathlib.Tactic.Linarith

/-!
# Byte codecs

Little-endian integers and streams of self-delimiting records.  A record format
is an encoder and a parser tied together by their laws: the parser reads back
what was stored and leaves the rest of the input alone, and it rejects every
proper prefix of a record.  A stream is read record by record until the parser
rejects, so the reader of a stream that was cut anywhere returns the records that
are whole.

Main results:

- Theorem {lit}`leNat_leBytes`: a fixed-width little-endian integer reads back
  modulo its width.
- Theorem {lit}`RecordFormat.parseAll_take`: reading any prefix of a stream of
  records returns exactly the whole records in it.
- Theorem {lit}`RecordFormat.wholeRecords_eq_iff`: how many records are whole,
  in terms of encoded sizes.
- Theorem {lit}`ExactFormat.encodeAll_prefix_iff`: given records are the first to be
  read from an input exactly when their bytes come first in it.
-/

namespace NanoDB.Lib

/-! ## Little-endian integers -/

/-- The {lit}`width` low bytes of a number, least significant first. -/
def leBytes : Nat → Nat → List UInt8
  | 0, _ => []
  | width + 1, n => UInt8.ofNat n :: leBytes width (n / 256)

/-- The number that a little-endian byte string stands for. -/
def leNat : List UInt8 → Nat
  | [] => 0
  | b :: bs => b.toNat + 256 * leNat bs

@[simp]
theorem leBytes_length (width n : Nat) : (leBytes width n).length = width := by
  induction width generalizing n with
  | zero => rfl
  | succ width ih => simp [leBytes, ih]

/-- A little-endian integer reads back modulo its width. -/
theorem leNat_leBytes (width n : Nat) : leNat (leBytes width n) = n % 256 ^ width := by
  induction width generalizing n with
  | zero => simp [leBytes, leNat, Nat.mod_one]
  | succ width ih =>
      have hhead : (UInt8.ofNat n).toNat = n % 256 := by simp
      rw [leBytes, leNat, ih, hhead, pow_succ', Nat.mod_mul]

/-- A byte string is the little-endian integer it stands for. -/
theorem leBytes_leNat (bs : List UInt8) : leBytes bs.length (leNat bs) = bs := by
  induction bs with
  | nil => rfl
  | cons b bs ih =>
      have hlt : b.toNat < 256 := b.toNat_lt
      have hhead : UInt8.ofNat (b.toNat + 256 * leNat bs) = b := by
        apply UInt8.toNat_inj.mp
        simp only [UInt8.toNat_ofNat']
        omega
      have htail : (b.toNat + 256 * leNat bs) / 256 = leNat bs := by omega
      rw [List.length_cons, leNat, leBytes, hhead, htail, ih]

/-- A two's complement integer of {lit}`width` bytes. -/
def leIntBytes (width : Nat) (v : Int) : List UInt8 :=
  leBytes width (v % 256 ^ width).toNat

/-- The value of a two's complement byte string. -/
def leInt (bs : List UInt8) : Int :=
  Int.bmod (leNat bs) (256 ^ bs.length)

@[simp]
theorem leIntBytes_length (width : Nat) (v : Int) : (leIntBytes width v).length = width := by
  simp [leIntBytes]

/-- A two's complement integer in range reads back. -/
theorem leInt_leIntBytes {width : Nat} {v : Int} (hlo : -(256 ^ width : Int) ≤ 2 * v)
    (hhi : 2 * v < 256 ^ width) : leInt (leIntBytes width v) = v := by
  have hpos : (0 : Int) < 256 ^ width := by positivity
  have hmod : (((v % 256 ^ width).toNat % 256 ^ width : Nat) : Int) = v % 256 ^ width := by
    rw [Int.natCast_mod, Int.toNat_of_nonneg (Int.emod_nonneg v hpos.ne')]
    push_cast
    exact Int.emod_emod_of_dvd v dvd_rfl
  simp only [leInt, leIntBytes, leBytes_length, leNat_leBytes]
  rw [hmod]
  have hcast : ((256 ^ width : Nat) : Int) = 256 ^ width := by push_cast; rfl
  rw [← hcast, Int.emod_bmod]
  apply Int.bmod_eq_of_le_mul_two
  · omega
  · omega

/-! ## Streams of records -/

/-- A self-delimiting record format over an alphabet {lit}`β`.  {lit}`stored a` is
what is read back for {lit}`a`: the two differ where a field of {lit}`a` does not
fit its encoded width. -/
structure RecordFormat (α β : Type*) where
  encode : α → List β
  parse : List β → Option (α × List β)
  stored : α → α
  encode_ne_nil : ∀ a, encode a ≠ []
  parse_encode : ∀ a rest, parse (encode a ++ rest) = some (stored a, rest)
  parse_take : ∀ a n, n < (encode a).length → parse ((encode a).take n) = none

namespace RecordFormat

variable {α β : Type*} (f : RecordFormat α β)

/-- The encoded size of one record. -/
def size (a : α) : Nat :=
  (f.encode a).length

theorem size_pos (a : α) : 0 < f.size a :=
  List.length_pos_iff.mpr (f.encode_ne_nil a)

/-- A stream of records. -/
def encodeAll (as : List α) : List β :=
  as.flatMap f.encode

/-- The encoded size of a stream. -/
def sizeAll (as : List α) : Nat :=
  (f.encodeAll as).length

@[simp]
theorem encodeAll_nil : f.encodeAll [] = [] :=
  rfl

@[simp]
theorem encodeAll_cons (a : α) (as : List α) :
    f.encodeAll (a :: as) = f.encode a ++ f.encodeAll as :=
  rfl

@[simp]
theorem sizeAll_nil : f.sizeAll [] = 0 :=
  rfl

@[simp]
theorem sizeAll_cons (a : α) (as : List α) : f.sizeAll (a :: as) = f.size a + f.sizeAll as := by
  simp [sizeAll, size]

/-- A stream is at least as long as its number of records. -/
theorem length_le_sizeAll (as : List α) : as.length ≤ f.sizeAll as := by
  induction as with
  | nil => exact le_rfl
  | cons a as ih =>
      have hpos := f.size_pos a
      rw [List.length_cons, sizeAll_cons]
      omega

/-- Read records until the parser rejects, at most {lit}`fuel` of them. -/
def parseAll : Nat → List β → List α
  | 0, _ => []
  | fuel + 1, bs =>
      match f.parse bs with
      | none => []
      | some (a, rest) => a :: parseAll fuel rest

/-- How many records of a stream lie within its first {lit}`n` bytes. -/
def wholeRecords : List α → Nat → Nat
  | [], _ => 0
  | a :: as, n => if f.size a ≤ n then wholeRecords as (n - f.size a) + 1 else 0

theorem wholeRecords_le (as : List α) (n : Nat) : f.wholeRecords as n ≤ as.length := by
  induction as generalizing n with
  | nil => exact le_rfl
  | cons a as ih =>
      have := ih (n - f.size a)
      simp only [wholeRecords, List.length_cons]
      split_ifs <;> omega

/-- The parser rejects the empty input. -/
theorem parse_nil [Inhabited α] : f.parse [] = none := by
  simpa using f.parse_take default 0 (f.size_pos default)

/-- A stream that was cut anywhere reads back as the records that are whole. -/
theorem parseAll_take [Inhabited α] (as : List α) (n fuel : Nat)
    (hfuel : ((f.encodeAll as).take n).length < fuel) :
    f.parseAll fuel ((f.encodeAll as).take n) = (as.take (f.wholeRecords as n)).map f.stored := by
  induction as generalizing n fuel with
  | nil =>
      cases fuel with
      | zero => rfl
      | succ fuel => simp [parseAll, parse_nil]
  | cons a as ih =>
      cases fuel with
      | zero => omega
      | succ fuel =>
          have hpos := f.size_pos a
          rw [encodeAll_cons] at hfuel ⊢
          by_cases hle : f.size a ≤ n
          · have htake : (f.encode a ++ f.encodeAll as).take n =
                f.encode a ++ (f.encodeAll as).take (n - f.size a) := by
              rw [List.take_append, List.take_of_length_le hle]
              rfl
            rw [htake, List.length_append] at hfuel
            have hrest : ((f.encodeAll as).take (n - f.size a)).length < fuel := by
              have hsize : (f.encode a).length = f.size a := rfl
              omega
            rw [htake, parseAll, f.parse_encode]
            simp only [wholeRecords, if_pos hle, List.take_succ_cons, List.map_cons]
            rw [ih _ _ hrest]
          · have hlt : n < (f.encode a).length := Nat.lt_of_not_le hle
            rw [List.take_append_of_le_length hlt.le, parseAll, f.parse_take a n hlt]
            simp [wholeRecords, hle]

/-- Exactly {lit}`k` records are whole when the first {lit}`k` fit and the next one,
if there is one, does not. -/
theorem wholeRecords_eq_iff (as : List α) (n k : Nat) (hk : k ≤ as.length) :
    f.wholeRecords as n = k ↔
      f.sizeAll (as.take k) ≤ n ∧ (k < as.length → n < f.sizeAll (as.take (k + 1))) := by
  induction as generalizing n k with
  | nil =>
      have hzero : k = 0 := by simpa using hk
      simp [wholeRecords, hzero]
  | cons a as ih =>
      cases k with
      | zero =>
          simp only [wholeRecords, List.take_zero, sizeAll_nil, Nat.zero_le, true_and,
            List.length_cons, Nat.zero_lt_succ, true_implies, List.take_succ_cons, sizeAll_cons,
            Nat.add_zero]
          split_ifs with hle
          · simpa using hle
          · simpa using hle
      | succ k =>
          have hk' : k ≤ as.length := by simpa using hk
          have := ih (n - f.size a) k hk'
          simp only [wholeRecords, List.take_succ_cons, sizeAll_cons, List.length_cons]
          split_ifs with hle
          · rw [Nat.add_right_cancel_iff, this]
            constructor
            · rintro ⟨hlo, hhi⟩
              exact ⟨by omega, fun hlt => by have := hhi (by omega); omega⟩
            · rintro ⟨hlo, hhi⟩
              exact ⟨by omega, fun hlt => by have := hhi (by omega); omega⟩
          · constructor
            · intro hzero
              contradiction
            · rintro ⟨hlo, -⟩
              omega

/-- All records are whole when the whole stream is there. -/
theorem wholeRecords_eq_length_iff (as : List α) (n : Nat) :
    f.wholeRecords as n = as.length ↔ f.sizeAll as ≤ n := by
  rw [f.wholeRecords_eq_iff as n _ le_rfl, List.take_length]
  simp

/-- A whole stream reads back entirely. -/
theorem parseAll_encodeAll [Inhabited α] (as : List α) (fuel : Nat)
    (hfuel : (f.encodeAll as).length < fuel) :
    f.parseAll fuel (f.encodeAll as) = as.map f.stored := by
  have hall : f.wholeRecords as (f.sizeAll as) = as.length :=
    (f.wholeRecords_eq_length_iff as _).mpr le_rfl
  have hwhole : (f.encodeAll as).take (f.sizeAll as) = f.encodeAll as := List.take_length
  have hread := f.parseAll_take as (f.sizeAll as) fuel (by rw [hwhole]; exact hfuel)
  rwa [hwhole, hall, List.take_length] at hread

end RecordFormat

/-! ## Exact formats -/

/-- A record format in which every accepted input starts with an encoding. -/
structure ExactFormat (α β : Type*) extends RecordFormat α β where
  encode_of_parse : ∀ bs a rest, parse bs = some (a, rest) → bs = encode a ++ rest

namespace ExactFormat

variable {α β : Type*} (f : ExactFormat α β)

/-- All records of an input, up to the first that the parser rejects. -/
def readAll (bs : List β) : List α :=
  f.parseAll (bs.length + 1) bs

/-- Every record takes at least one element of the input. -/
theorem length_lt_of_parse {bs rest : List β} {a : α} (h : f.parse bs = some (a, rest)) :
    rest.length < bs.length := by
  have hpos := f.size_pos a
  rw [RecordFormat.size] at hpos
  rw [f.encode_of_parse bs a rest h, List.length_append]
  omega

/-- More fuel than input changes nothing. -/
theorem parseAll_fuel {bs : List β} {m n : Nat} (hm : bs.length < m) (hn : bs.length < n) :
    f.parseAll m bs = f.parseAll n bs := by
  induction m generalizing bs n with
  | zero => omega
  | succ m ih =>
      cases n with
      | zero => omega
      | succ n =>
          rw [RecordFormat.parseAll, RecordFormat.parseAll]
          cases hparse : f.parse bs with
          | none => rfl
          | some p =>
              have hlt := f.length_lt_of_parse hparse
              have hrest : f.parseAll m p.2 = f.parseAll n p.2 := ih (by omega) (by omega)
              dsimp only
              rw [hrest]

theorem readAll_of_none {bs : List β} (h : f.parse bs = none) : f.readAll bs = [] := by
  rw [readAll, RecordFormat.parseAll, h]

theorem readAll_of_some {bs rest : List β} {a : α} (h : f.parse bs = some (a, rest)) :
    f.readAll bs = a :: f.readAll rest := by
  have hlt := f.length_lt_of_parse h
  rw [readAll, RecordFormat.parseAll, h]
  dsimp only
  rw [readAll, f.parseAll_fuel hlt (Nat.lt_succ_self _)]

/-- A stream of records in front of an input is read first. -/
theorem readAll_append (as : List α) (rest : List β) :
    f.readAll (f.encodeAll as ++ rest) = as.map f.stored ++ f.readAll rest := by
  induction as with
  | nil => rfl
  | cons a as ih =>
      rw [RecordFormat.encodeAll_cons, List.append_assoc,
        f.readAll_of_some (f.parse_encode a _), ih]
      rfl

/-- An input is the records that are read from it and a rest. -/
theorem encodeAll_readAll_prefix (bs : List β) : f.encodeAll (f.readAll bs) <+: bs := by
  induction h : bs.length using Nat.strong_induction_on generalizing bs with
  | _ n ih =>
      cases hparse : f.parse bs with
      | none =>
          rw [f.readAll_of_none hparse]
          exact List.nil_prefix
      | some p =>
          have hlt := f.length_lt_of_parse hparse
          rw [f.readAll_of_some hparse, RecordFormat.encodeAll_cons]
          conv_rhs => rw [f.encode_of_parse bs p.1 p.2 hparse]
          exact (List.prefix_append_right_inj _).mpr (ih _ (h ▸ hlt) p.2 rfl)

/-- Records that read back as they are come first exactly when their bytes do. -/
theorem encodeAll_prefix_iff {as : List α} (hstored : ∀ a ∈ as, f.stored a = a) (bs : List β) :
    f.encodeAll as <+: bs ↔ as <+: f.readAll bs := by
  constructor
  · rintro ⟨rest, rfl⟩
    rw [f.readAll_append, List.map_congr_left hstored, List.map_id']
    exact List.prefix_append _ _
  · rintro ⟨rest, hread⟩
    refine List.IsPrefix.trans ?_ (f.encodeAll_readAll_prefix bs)
    rw [← hread, RecordFormat.encodeAll, RecordFormat.encodeAll, List.flatMap_append]
    exact List.prefix_append _ _

end ExactFormat

end NanoDB.Lib

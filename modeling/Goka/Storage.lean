import Goka.Basic
import Goka.Library.Decimal
import Goka.Library.KeyedLog

/-!
# The LevelDB storage

The database is a map from keys to values that keeps what was written; the offset of the table lives
under a reserved key of the same map. Until the storage is marked as recovered an offset is only
kept in memory, and a ticker writes it out from time to time. The pieces in which other goroutines
can interleave are named, and the operations of the interface are composed of them.
-/

namespace Goka

def offsetKey : Bytes := [95, 95, 111, 102, 102, 115, 101, 116]

abbrev Database := Bytes → Option Bytes

/-- What the database holds besides the offset. -/
def Database.content (db : Database) : Bytes → Option Bytes :=
  fun key => if key = offsetKey then none else db key

structure Storage where
  db : Database
  offset : Int
  recovered : Bool
  closed : Bool

/-- The letters of the escapes that `strconv.Quote` has a letter for. -/
def escapes : List (UInt8 × UInt8) :=
  [(7, 97), (8, 98), (9, 116), (10, 110), (11, 118), (12, 102), (13, 114)]

def hexDigit (n : UInt8) : UInt8 := if n < 10 then 48 + n else 87 + n

/-- A byte in the output of `strconv.Quote`; those from 128 on are taken for invalid UTF-8. -/
def quoteByte (b : UInt8) : Bytes :=
  if b = 34 ∨ b = 92 then
    [92, b]
  else if 32 ≤ b ∧ b < 127 then
    [b]
  else
    match escapes.lookup b with
    | some letter => [92, letter]
    | none => [92, 120, hexDigit (b / 16), hexDigit (b % 16)]

def Bytes.quote (bytes : Bytes) : String := Bytes.text ([34] ++ bytes.flatMap quoteByte ++ [34])

/-- The error of `strconv.ParseInt`. -/
def parseIntError (data : Bytes) (err : Decimal.ParseError) : String :=
  "strconv.ParseInt: parsing " ++ data.quote ++
    match err with
    | .invalidSyntax => ": invalid syntax"
    | .outOfRange => ": value out of range"

namespace Storage

variable (s : Storage)

def new (db : Database) : Storage where
  db := db
  offset := 0
  recovered := false
  closed := false

def has (key : Bytes) : Bool := (s.db key).isSome

def get (key : Bytes) : Option Bytes := s.db key

/-- `Set`: LevelDB stores a nil slice as an empty value. -/
def set (key : Bytes) (value : Option Bytes) : Storage :=
  { s with db := Function.update s.db key (some (value.getD [])) }

def delete (key : Bytes) : Storage :=
  { s with db := Function.update s.db key none }

def getOffset (defValue : Int) : Except String Int :=
  if s.recovered = false ∧ s.offset ≠ 0 then
    .ok s.offset
  else
    match s.get offsetKey with
    | none => .ok defValue
    | some data =>
        match Decimal.parse 64 data with
        | .ok value => .ok value
        | .error err => .error ("error decoding offset: " ++ parseIntError data err)

def putOffset (offset : Int) : Storage := s.set offsetKey (some (Decimal.format offset))

def storeOffset (offset : Int) : Storage := { s with offset := offset }

def putIfRecovered (offset : Int) : Storage :=
  if s.recovered then s.putOffset offset else s

def setOffset (offset : Int) : Storage := (s.storeOffset offset).putIfRecovered offset

/-- Writes an offset loaded from memory before; `0` may only mean that none was ever set. -/
def putLoaded (curOffset : Int) : Storage :=
  if curOffset ≠ 0 then s.putOffset curOffset else s

def closeRecovered : Outcome Storage :=
  if s.recovered then .panic "close of closed channel" else .ok { s with recovered := true }

def markRecovered : Outcome Storage := (s.putLoaded s.offset).closeRecovered

def syncTick : Storage := s.putLoaded s.offset

def close : Outcome Storage :=
  if s.closed then .panic "close of closed channel"
  else .ok { s.putLoaded s.offset with closed := true }

def defaultUpdate (key : Bytes) (value : Option Bytes) : Storage :=
  match value with
  | none => s.delete key
  | some value => s.set key (some value)

/-! ### What each operation leaves of the content and of the offset -/

variable {s}

@[simp]
theorem content_putOffset (offset : Int) : (s.putOffset offset).db.content = s.db.content := by
  funext key
  by_cases hkey : key = offsetKey <;> simp [putOffset, set, Database.content, hkey]

@[simp]
theorem putOffset_offsetKey (offset : Int) :
    (s.putOffset offset).db offsetKey = some (Decimal.format offset) := by
  simp [putOffset, set]

@[simp]
theorem content_putLoaded (offset : Int) : (s.putLoaded offset).db.content = s.db.content := by
  unfold putLoaded
  split
  · exact content_putOffset offset
  · rfl

@[simp]
theorem putLoaded_offset (offset : Int) : (s.putLoaded offset).offset = s.offset := by
  unfold putLoaded
  split <;> rfl

@[simp]
theorem putLoaded_recovered (offset : Int) : (s.putLoaded offset).recovered = s.recovered := by
  unfold putLoaded
  split <;> rfl

@[simp]
theorem putLoaded_closed (offset : Int) : (s.putLoaded offset).closed = s.closed := by
  unfold putLoaded
  split <;> rfl

@[simp]
theorem content_putIfRecovered (offset : Int) :
    (s.putIfRecovered offset).db.content = s.db.content := by
  unfold putIfRecovered
  split
  · exact content_putOffset offset
  · rfl

@[simp]
theorem putIfRecovered_offset (offset : Int) : (s.putIfRecovered offset).offset = s.offset := by
  unfold putIfRecovered
  split <;> rfl

@[simp]
theorem putIfRecovered_recovered (offset : Int) :
    (s.putIfRecovered offset).recovered = s.recovered := by
  unfold putIfRecovered
  split <;> rfl

@[simp]
theorem putIfRecovered_closed (offset : Int) :
    (s.putIfRecovered offset).closed = s.closed := by
  unfold putIfRecovered
  split <;> rfl

@[simp]
theorem setOffset_offset (offset : Int) : (s.setOffset offset).offset = offset := by
  rw [setOffset, putIfRecovered_offset]
  rfl

@[simp]
theorem setOffset_recovered (offset : Int) : (s.setOffset offset).recovered = s.recovered := by
  rw [setOffset, putIfRecovered_recovered]
  rfl

@[simp]
theorem setOffset_closed (offset : Int) : (s.setOffset offset).closed = s.closed := by
  rw [setOffset, putIfRecovered_closed]
  rfl

theorem defaultUpdate_db (s : Storage) (key : Bytes) (value : Option Bytes) :
    (s.defaultUpdate key value).db = Function.update s.db key value := by
  cases value <;> rfl

@[simp]
theorem defaultUpdate_offset (key : Bytes) (value : Option Bytes) :
    (s.defaultUpdate key value).offset = s.offset := by
  cases value <;> rfl

@[simp]
theorem defaultUpdate_recovered (key : Bytes) (value : Option Bytes) :
    (s.defaultUpdate key value).recovered = s.recovered := by
  cases value <;> rfl

theorem content_update {db : Database} {key : Bytes} (hkey : key ≠ offsetKey)
    (value : Option Bytes) :
    Database.content (Function.update db key value) = Function.update db.content key value := by
  funext k
  by_cases hk : k = key
  · subst hk
    simp [Database.content, hkey]
  · simp [Database.content, hk]

theorem content_defaultUpdate (s : Storage) {record : KeyedLog.Record Bytes Bytes}
    (hkey : record.key ≠ offsetKey) :
    (s.defaultUpdate record.key record.value).db.content
      = KeyedLog.apply s.db.content record := by
  rw [defaultUpdate_db, content_update hkey]
  rfl

theorem defaultUpdate_offsetKey {key : Bytes} (hkey : key ≠ offsetKey) (value : Option Bytes) :
    (s.defaultUpdate key value).db offsetKey = s.db offsetKey := by
  rw [defaultUpdate_db, Function.update_of_ne hkey.symm]

/-! ### Reading the offset back -/

/-- The offset in the database is a number of the offset's type, or there is none. -/
def Persisted (db : Database) (stored : Option Int) : Prop :=
  db offsetKey = stored.map Decimal.format ∧ ∀ v ∈ stored, -2 ^ 63 ≤ v ∧ v < 2 ^ 63

theorem getOffset_of_persisted {stored : Option Int} (hstored : Persisted s.db stored)
    (hread : s.recovered = true ∨ s.offset = 0) (defValue : Int) :
    s.getOffset defValue = .ok (stored.getD defValue) := by
  obtain ⟨hdb, hrange⟩ := hstored
  have hslow : ¬ (s.recovered = false ∧ s.offset ≠ 0) := by
    rintro ⟨hrecovered, hoffset⟩
    rcases hread with h | h
    · simp [h] at hrecovered
    · exact hoffset h
  rw [getOffset, if_neg hslow, get, hdb]
  cases stored with
  | none => rfl
  | some v =>
      obtain ⟨hlow, hhigh⟩ := hrange v rfl
      have hparse := Decimal.parse_format (by omega : 0 < 64) hlow hhigh
      simp [hparse]

theorem Persisted.putOffset {v : Int} (hlow : -2 ^ 63 ≤ v) (hhigh : v < 2 ^ 63) :
    Persisted (s.putOffset v).db (some v) := by
  refine ⟨by simp, fun w hw => ?_⟩
  rw [← Option.some.inj hw]
  exact ⟨hlow, hhigh⟩

theorem Persisted.unique {db : Database} {stored stored' : Option Int}
    (h : Persisted db stored) (h' : Persisted db stored') : stored = stored' := by
  have hread := getOffset_of_persisted (s := new db) h (Or.inr rfl)
  have hread' := getOffset_of_persisted (s := new db) h' (Or.inr rfl)
  cases stored with
  | none =>
      cases stored' with
      | none => rfl
      | some v => exact absurd (h.1.symm.trans h'.1) (by simp)
  | some v =>
      cases stored' with
      | none => exact absurd (h.1.symm.trans h'.1) (by simp)
      | some v' =>
          have heq := (hread 0).symm.trans (hread' 0)
          simpa using heq

end Storage

end Goka

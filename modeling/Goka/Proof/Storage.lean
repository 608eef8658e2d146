import Goka.StorageRun

/-!
# Offset and data in one key space

The offset is an entry of the database like any other, so whoever writes the reserved key writes the
offset. In memory it is a number whose zero stands for "never set", and a put that comes too late
puts an old one.
-/

namespace Goka

namespace Storage

variable {s s' : Storage}

/-- No operation on the key touches the offset, and no operation on the offset touches the key. -/
structure Isolated (s : Storage) (key : Bytes) : Prop where
  set : ∀ value defValue, (s.set key value).getOffset defValue = s.getOffset defValue
  delete : ∀ defValue, (s.delete key).getOffset defValue = s.getOffset defValue
  setOffset : ∀ offset, (s.setOffset offset).get key = s.get key ∧
    (s.setOffset offset).has key = s.has key
  markRecovered : ∀ s', s.markRecovered = .ok s' → s'.get key = s.get key ∧ s'.has key = s.has key
  syncTick : s.syncTick.get key = s.get key ∧ s.syncTick.has key = s.has key
  close : ∀ s', s.close = .ok s' → s'.get key = s.get key ∧ s'.has key = s.has key

theorem getOffset_congr (hrecovered : s'.recovered = s.recovered) (hoffset : s'.offset = s.offset)
    (hdb : s'.db offsetKey = s.db offsetKey) (defValue : Int) :
    s'.getOffset defValue = s.getOffset defValue := by
  simp only [getOffset, get, hrecovered, hoffset, hdb]

theorem getOffset_of_memory (hrecovered : s.recovered = false) (hoffset : s.offset ≠ 0)
    (defValue : Int) : s.getOffset defValue = .ok s.offset :=
  if_pos ⟨hrecovered, hoffset⟩

theorem reads_database (h : ¬ (s.recovered = false ∧ s.offset ≠ 0)) :
    s.recovered = true ∨ s.offset = 0 := by
  by_contra hmemory
  rw [not_or, Bool.not_eq_true] at hmemory
  exact h hmemory

theorem putOffset_db_of_ne {key : Bytes} (hkey : key ≠ offsetKey) (offset : Int) :
    (s.putOffset offset).db key = s.db key :=
  Function.update_of_ne hkey _ _

theorem putLoaded_db_of_ne {key : Bytes} (hkey : key ≠ offsetKey) (curOffset : Int) :
    (s.putLoaded curOffset).db key = s.db key := by
  unfold putLoaded
  split
  · exact putOffset_db_of_ne hkey curOffset
  · rfl

theorem markRecovered_eq_ok (h : s.markRecovered = .ok s') :
    s.recovered = false ∧ s' = { s.putLoaded s.offset with recovered := true } := by
  rw [markRecovered, closeRecovered, putLoaded_recovered] at h
  split at h
  · exact absurd h nofun
  · next hrecovered => exact ⟨by simpa using hrecovered, (Outcome.ok.inj h).symm⟩

theorem close_eq_ok (h : s.close = .ok s') :
    s.closed = false ∧ s' = { s.putLoaded s.offset with closed := true } := by
  rw [Storage.close] at h
  split at h
  · exact absurd h nofun
  · next hclosed => exact ⟨by simpa using hclosed, (Outcome.ok.inj h).symm⟩

theorem isolated_of_db {key : Bytes}
    (hset : ∀ value defValue, (s.set key value).getOffset defValue = s.getOffset defValue)
    (hdelete : ∀ defValue, (s.delete key).getOffset defValue = s.getOffset defValue)
    (hsetOffset : ∀ offset, (s.setOffset offset).db key = s.db key)
    (hput : (s.putLoaded s.offset).db key = s.db key) : Isolated s key where
  set := hset
  delete := hdelete
  setOffset offset := by simp only [get, has, hsetOffset offset, and_self]
  markRecovered := by
    intro s' h
    obtain ⟨-, rfl⟩ := markRecovered_eq_ok h
    simp only [get, has, hput, and_self]
  syncTick := by simp only [get, has, Storage.syncTick, hput, and_self]
  close := by
    intro s' h
    obtain ⟨-, rfl⟩ := close_eq_ok h
    simp only [get, has, hput, and_self]

theorem isolated_of_ne {key : Bytes} (hkey : key ≠ offsetKey) : Isolated s key := by
  refine isolated_of_db (fun value => ?_) ?_ (fun offset => ?_) (putLoaded_db_of_ne hkey _)
  · exact getOffset_congr rfl rfl (Function.update_of_ne hkey.symm _ _)
  · exact getOffset_congr rfl rfl (Function.update_of_ne hkey.symm _ _)
  · rw [setOffset, putIfRecovered]
    split
    · exact putOffset_db_of_ne hkey offset
    · rfl

/-- Where the database is read, setting the reserved key sets the offset. -/
theorem getOffset_set_offsetKey (hread : ¬ (s.recovered = false ∧ s.offset ≠ 0)) {offset : Int}
    (hlow : -2 ^ 63 ≤ offset) (hhigh : offset < 2 ^ 63) (defValue : Int) :
    (s.set offsetKey (some (Decimal.format offset))).getOffset defValue = .ok offset := by
  exact getOffset_of_persisted (s := s.putOffset offset) (Persisted.putOffset hlow hhigh)
    (reads_database hread) defValue

/-- The reserved key is isolated only while the offset is read from memory and the database holds
the same one. -/
theorem isolated_iff (s : Storage) (key : Bytes) :
    Isolated s key ↔ key ≠ offsetKey ∨
      s.recovered = false ∧ s.offset ≠ 0 ∧ s.db offsetKey = some (Decimal.format s.offset) := by
  constructor
  · intro h
    by_cases hkey : key = offsetKey
    · subst hkey
      refine Or.inr ?_
      by_cases hread : s.recovered = false ∧ s.offset ≠ 0
      · have hput := h.syncTick.1
        rw [syncTick, get, putLoaded, if_pos hread.2, putOffset_offsetKey] at hput
        exact ⟨hread.1, hread.2, hput.symm⟩
      · -- two different offsets written through the key cannot both be the one read before
        have hone := getOffset_set_offsetKey hread (by decide : -2 ^ 63 ≤ 1) (by decide) 0
        have htwo := getOffset_set_offsetKey hread (by decide : -2 ^ 63 ≤ 2) (by decide) 0
        rw [h.set] at hone htwo
        exact absurd (hone.symm.trans htwo) (by simp)
    · exact Or.inl hkey
  · rintro (hkey | ⟨hrecovered, hoffset, hdb⟩)
    · exact isolated_of_ne hkey
    · by_cases hkey : key = offsetKey
      · subst hkey
        refine isolated_of_db (fun value defValue => ?_) (fun defValue => ?_) (fun offset => ?_) ?_
        · rw [getOffset_of_memory hrecovered hoffset]
          exact getOffset_of_memory (s := s.set offsetKey value) hrecovered hoffset defValue
        · rw [getOffset_of_memory hrecovered hoffset]
          exact getOffset_of_memory (s := s.delete offsetKey) hrecovered hoffset defValue
        · rw [setOffset, putIfRecovered, if_neg]
          · rfl
          · exact ne_true_of_eq_false hrecovered
        · rw [putLoaded, if_pos hoffset, putOffset_offsetKey, hdb]
      · exact isolated_of_ne hkey

/-- One message with the reserved key in an empty storage is read as an offset, and another one
makes the offset unreadable. -/
theorem offset_overwritten_by_message :
    (new fun _ => none).getOffset 0 = .ok 0 ∧
      ((new fun _ => none).set offsetKey (some [53])).getOffset 0 = .ok 5 ∧
      ((new fun _ => none).set offsetKey (some [120])).getOffset 0
        = .error "error decoding offset: strconv.ParseInt: parsing \"x\": invalid syntax" := by
  decide

end Storage

namespace StorageRun

open Schedule Storage

variable {r r' : StorageRun} {action : Action}

/-- Before the storage is recovered no offset 0 is set, and once it is recovered or closed the
goroutine of `Open` puts no offset that has been replaced since it was loaded. -/
def Fresh (r : StorageRun) : Action → Prop
  | .setOffset offset => r.st.recovered = true ∨ offset ≠ 0
  | .syncPut => r.st.recovered = false ∧ r.st.closed = false ∨
      r.curOffset = some 0 ∨ r.curOffset = some r.st.offset
  | _ => True

instance : DecidablePred (Fresh r)
  | .setOffset offset => inferInstanceAs (Decidable (r.st.recovered = true ∨ offset ≠ 0))
  | .syncPut => inferInstanceAs (Decidable (r.st.recovered = false ∧ r.st.closed = false ∨
      r.curOffset = some 0 ∨ r.curOffset = some r.st.offset))
  | .markRecovered | .syncLoad | .syncReturn | .close | .reopen => isTrue trivial

/-- While the offset in memory is the one that counts, it is the last one set; otherwise the last
one set is in the database. -/
structure Inv (r : StorageRun) : Prop where
  memory : r.st.offset ≠ 0 → r.last = some r.st.offset
  database : (r.st.recovered = false ∧ r.st.closed = false ∧ r.st.offset ≠ 0) ∨
    Persisted r.st.db r.last
  range : ∀ v ∈ r.last, -2 ^ 63 ≤ v ∧ v < 2 ^ 63
  loaded : r.st.recovered = false → r.st.closed = false →
    ∀ v ∈ r.curOffset, v ≠ 0 → r.st.offset ≠ 0

theorem inv_start {db : Database} (hdb : db offsetKey = none) : Inv (start db) where
  memory h := absurd rfl h
  database := Or.inr ⟨hdb, nofun⟩
  range := nofun
  loaded _ _ := nofun

/-- Putting the offset from memory into the database puts the last one there. -/
theorem Inv.persisted_putLoaded (hinv : Inv r) :
    Persisted (r.st.putLoaded r.st.offset).db r.last := by
  rw [putLoaded]
  split
  · next hoffset =>
      have hlast := hinv.memory hoffset
      obtain ⟨hlow, hhigh⟩ := hinv.range _ hlast
      rw [hlast]
      exact Persisted.putOffset hlow hhigh
  · next hoffset =>
      exact hinv.database.resolve_left fun h => hoffset h.2.2

/-- Before the storage is recovered the offset stays in memory, and afterwards it goes to the
database. -/
theorem inv_setOffset {offset : Int} (hfresh : Fresh r (.setOffset offset))
    (hopen : r.st.closed = false)
    (hlow : 0 ≤ offset) (hhigh : offset < 2 ^ 63) :
    Inv { r with st := r.st.setOffset offset, last := some offset } := by
  have hlow' : -2 ^ 63 ≤ offset := by omega
  have hnonzero : (r.st.setOffset offset).recovered = false →
      (r.st.setOffset offset).offset ≠ 0 := by
    rw [setOffset_recovered, setOffset_offset]
    exact fun hrecovered => hfresh.resolve_left (ne_true_of_eq_false hrecovered)
  refine ⟨fun _ => by rw [setOffset_offset], ?_, ?_, fun hrecovered _ _ _ _ => hnonzero hrecovered⟩
  · cases hrecovered : r.st.recovered with
    | false =>
        refine Or.inl ⟨?_, ?_, hnonzero ?_⟩
        · rw [setOffset_recovered, hrecovered]
        · rw [setOffset_closed, hopen]
        · rw [setOffset_recovered, hrecovered]
    | true =>
        have hput : r.st.setOffset offset = (r.st.storeOffset offset).putOffset offset :=
          if_pos hrecovered
        rw [hput]
        exact Or.inr (Persisted.putOffset hlow' hhigh)
  · intro v hv
    rw [← Option.some.inj hv]
    exact ⟨hlow', hhigh⟩

/-- The goroutine puts the offset it has loaded, which is the last one set while that is in memory.
-/
theorem Inv.syncPut (hinv : Inv r) (hfresh : Fresh r .syncPut) {curOffset : Int}
    (hloaded : r.curOffset = some curOffset) :
    Inv { r with st := r.st.putLoaded curOffset, curOffset := none } := by
  refine ⟨?_, ?_, hinv.range, fun _ _ => nofun⟩
  · rw [putLoaded_offset]
    exact hinv.memory
  · rw [putLoaded_recovered, putLoaded_closed, putLoaded_offset]
    by_cases hzero : curOffset = 0
    · rw [putLoaded, if_neg (not_not_intro hzero)]
      exact hinv.database
    · rcases hfresh with ⟨hrecovered, hclosed⟩ | hcur | hcur
      · exact Or.inl ⟨hrecovered, hclosed, hinv.loaded hrecovered hclosed curOffset hloaded hzero⟩
      · exact absurd (Option.some.inj (hloaded.symm.trans hcur)) hzero
      · rw [Option.some.inj (hloaded.symm.trans hcur)]
        exact Or.inr hinv.persisted_putLoaded

/-- The last offset set is in memory or in the database through every step. -/
theorem inv_step (hinv : Inv r) (hfresh : Fresh r action) (h : r.step action = some r') :
    Inv r' := by
  cases action with
  | setOffset offset =>
      simp only [step] at h
      split at h
      · next hguard =>
          obtain rfl := Option.some.inj h
          exact inv_setOffset hfresh hguard.1 hguard.2.1 hguard.2.2
      · exact absurd h nofun
  | markRecovered =>
      simp only [step] at h
      split at h
      · split at h
        · next st hmark =>
            obtain ⟨-, rfl⟩ := markRecovered_eq_ok hmark
            obtain rfl := Option.some.inj h
            refine ⟨?_, Or.inr hinv.persisted_putLoaded, hinv.range, nofun⟩
            exact fun hoffset => by simpa using hinv.memory (by simpa using hoffset)
        · exact absurd h nofun
      · exact absurd h nofun
  | syncLoad =>
      simp only [step] at h
      split at h
      · obtain rfl := Option.some.inj h
        refine ⟨hinv.memory, hinv.database, hinv.range, fun _ _ v hv hne => ?_⟩
        rw [Option.some.inj hv]
        exact hne
      · exact absurd h nofun
  | syncPut =>
      simp only [step] at h
      split at h
      · next curOffset hloaded =>
          obtain rfl := Option.some.inj h
          exact hinv.syncPut hfresh hloaded
      · exact absurd h nofun
  | syncReturn =>
      simp only [step] at h
      split at h
      · obtain rfl := Option.some.inj h
        exact ⟨hinv.memory, hinv.database, hinv.range, hinv.loaded⟩
      · exact absurd h nofun
  | close =>
      simp only [step] at h
      split at h
      · next st hclose =>
          obtain ⟨-, rfl⟩ := close_eq_ok hclose
          obtain rfl := Option.some.inj h
          refine ⟨?_, Or.inr hinv.persisted_putLoaded, hinv.range, fun _ => nofun⟩
          exact fun hoffset => by simpa using hinv.memory (by simpa using hoffset)
      · exact absurd h nofun
  | reopen =>
      simp only [step] at h
      split at h
      · next hclosed =>
          obtain rfl := Option.some.inj h
          refine ⟨fun hoffset => absurd rfl hoffset, Or.inr ?_, hinv.range, fun _ _ => nofun⟩
          exact hinv.database.resolve_left fun hopen => by simp [hclosed] at hopen
      · exact absurd h nofun

theorem Inv.getOffset_eq (hinv : Inv r) (defValue : Int) :
    r.st.getOffset defValue = .ok (r.last.getD defValue) := by
  by_cases hmemory : r.st.recovered = false ∧ r.st.offset ≠ 0
  · rw [getOffset_of_memory hmemory.1 hmemory.2, hinv.memory hmemory.2]
    rfl
  · have hstored : Persisted r.st.db r.last :=
      hinv.database.resolve_left fun h => hmemory ⟨h.1, h.2.2⟩
    exact getOffset_of_persisted hstored (reads_database hmemory) defValue

/-- In a run that keeps the discipline the offset read is always the last one set. -/
theorem reads_last_offset {db : Database} (hdb : db offsetKey = none) (actions : List Action)
    (hfresh : ∀ t ∈ transitions step (start db) actions, Fresh t.1 t.2.1) (defValue : Int) :
    (run step (start db) actions).st.getOffset defValue
      = .ok ((run step (start db) actions).last.getD defValue) := by
  have hinv : Inv (run step (start db) actions) :=
    run_invariant_of_allowed Fresh (fun _ _ _ hinv hfresh h => inv_step hinv hfresh h)
      (inv_start hdb) hfresh
  exact hinv.getOffset_eq defValue

theorem reads_last_offset_reopened :
    (run step (start fun _ => none) [.setOffset 5, .syncLoad, .setOffset 7, .syncPut,
      .markRecovered, .setOffset 0, .close, .reopen]).st.getOffset 3 = .ok 0 :=
  reads_last_offset rfl [.setOffset 5, .syncLoad, .setOffset 7, .syncPut, .markRecovered,
    .setOffset 0, .close, .reopen] (by decide) 3

/-- An offset 0 set before the storage is recovered is not read back, and a put of the goroutine of
`Open` that comes after a later `SetOffset` brings the old offset back. -/
theorem reads_other_offset :
    ((run step (start fun _ => none) [.setOffset 0]).last = some 0 ∧
      (run step (start fun _ => none) [.setOffset 0]).st.getOffset 7 = .ok 7) ∧
    ((run step (start fun _ => none)
        [.setOffset 5, .syncLoad, .markRecovered, .setOffset 7, .syncPut]).last = some 7 ∧
      (run step (start fun _ => none)
        [.setOffset 5, .syncLoad, .markRecovered, .setOffset 7, .syncPut]).st.getOffset 3
          = .ok 5) := by
  decide

end StorageRun

end Goka

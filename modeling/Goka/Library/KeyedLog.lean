import Mathlib.Data.List.Basic
import Mathlib.Logic.Function.Basic
import Mathlib.Order.Lattice
import Mathlib.Tactic.Common

/-!
# Replaying a keyed log

A log is a list of records with strictly increasing offsets. Replaying it into a table writes the
value of every record under its key, a record without a value being a deletion.

A table that is restored from a checkpoint and then brought up to date by replaying records it
already holds passes through contents that no prefix of the log produces. What stays true is per
key: `Ahead base start log lo hi table` says that every key holds what replaying the log from
`start` up to some offset between `lo` and `hi` onto `base` gives it, each key its own. Replaying
the next record at or after `lo` raises `lo` past it, and at `lo = hi` the table is a replay again.
-/

namespace KeyedLog

variable {K V : Type*}

structure Record (K V : Type*) where
  offset : Int
  key : K
  value : Option V
  deriving Repr, DecidableEq

def Ordered (log : List (Record K V)) : Prop := log.Pairwise fun r s => r.offset < s.offset

def below (log : List (Record K V)) (offset : Int) : List (Record K V) :=
  log.filter fun r => decide (r.offset < offset)

/-- The records from one offset up to but excluding another. -/
def slice (log : List (Record K V)) (lo hi : Int) : List (Record K V) :=
  log.filter fun r => decide (lo ≤ r.offset) && decide (r.offset < hi)

/-- The record a reader standing at `cursor` gets next. -/
def nextRecord (log : List (Record K V)) (cursor : Int) : Option (Record K V) :=
  log.find? fun r => decide (cursor ≤ r.offset)

section Replay

variable [DecidableEq K]

def apply (table : K → Option V) (record : Record K V) : K → Option V :=
  Function.update table record.key record.value

def replay (table : K → Option V) (log : List (Record K V)) : K → Option V :=
  log.foldl apply table

def fold (log : List (Record K V)) : K → Option V := replay (fun _ => none) log

variable {table table' : K → Option V} {log : List (Record K V)} {record : Record K V} {k : K}

@[simp]
theorem apply_self : apply table record record.key = record.value := by
  simp [apply]

theorem apply_of_ne (h : k ≠ record.key) : apply table record k = table k := by
  simp [apply, h]

@[simp]
theorem replay_nil : replay table ([] : List (Record K V)) = table := rfl

@[simp]
theorem replay_append (log log' : List (Record K V)) :
    replay table (log ++ log') = replay (replay table log) log' :=
  List.foldl_append ..

@[simp]
theorem replay_singleton : replay table [record] = apply table record := rfl

theorem replay_of_absent (h : ∀ r ∈ log, r.key ≠ k) : replay table log k = table k := by
  induction log generalizing table with
  | nil => rfl
  | cons r log ih =>
      rw [replay, List.foldl_cons, ← replay, ih fun s hs => h s (List.mem_cons_of_mem _ hs)]
      exact apply_of_ne (h r (List.mem_cons_self ..)).symm

theorem replay_of_present (h : ∃ r ∈ log, r.key = k) :
    replay table log k = replay table' log k := by
  induction log generalizing table table' with
  | nil => simp at h
  | cons r log ih =>
      simp only [replay, List.foldl_cons]
      by_cases hlater : ∃ s ∈ log, s.key = k
      · exact ih hlater
      · have habsent : ∀ s ∈ log, s.key ≠ k := fun s hs hkey => hlater ⟨s, hs, hkey⟩
        obtain ⟨s, hs, hkey⟩ := h
        rcases List.mem_cons.mp hs with rfl | hs
        · rw [← replay, ← replay, replay_of_absent habsent, replay_of_absent habsent, ← hkey,
            apply_self, apply_self]
        · exact absurd hkey (habsent s hs)

end Replay

section Order

variable {log : List (Record K V)} {record r : Record K V} {lo lo' hi hi' cursor offset : Int}

@[simp]
theorem mem_below : r ∈ below log offset ↔ r ∈ log ∧ r.offset < offset := by
  simp [below]

@[simp]
theorem mem_slice : r ∈ slice log lo hi ↔ r ∈ log ∧ lo ≤ r.offset ∧ r.offset < hi := by
  simp [slice]

theorem below_append (log log' : List (Record K V)) :
    below (log ++ log') offset = below log offset ++ below log' offset :=
  List.filter_append ..

theorem below_of_forall_lt (h : ∀ r ∈ log, r.offset < offset) : below log offset = log :=
  List.filter_eq_self.mpr fun r hr => by simpa using h r hr

theorem below_of_forall_le (h : ∀ r ∈ log, offset ≤ r.offset) : below log offset = [] :=
  List.filter_eq_nil_iff.mpr fun r hr => by simpa using h r hr

theorem slice_eq_of_gap (h : ∀ r ∈ log, ¬ (cursor ≤ r.offset ∧ r.offset < hi))
    (hle : cursor ≤ hi) : slice log lo hi = slice log lo cursor := by
  refine List.filter_congr fun r hr => ?_
  have := h r hr
  have hiff : r.offset < hi ↔ r.offset < cursor := by omega
  simp [hiff]

theorem slice_append (log log' : List (Record K V)) :
    slice (log ++ log') lo hi = slice log lo hi ++ slice log' lo hi :=
  List.filter_append ..

@[simp]
theorem slice_self : slice log lo lo = [] := by
  refine List.filter_eq_nil_iff.mpr fun r _ => ?_
  simp

theorem below_succ (hlog : Ordered log) (hr : record ∈ log) :
    below log (record.offset + 1) = below log record.offset ++ [record] := by
  induction log with
  | nil => simp at hr
  | cons s log ih =>
      obtain ⟨hhead, htail⟩ := List.pairwise_cons.mp hlog
      rcases List.mem_cons.mp hr with rfl | hr
      · have hrest : ∀ offset ≤ record.offset + 1, below log offset = [] := by
          intro offset hoffset
          refine List.filter_eq_nil_iff.mpr fun r hmem => ?_
          have := hhead r hmem
          simp only [decide_eq_true_eq]
          omega
        have hdrop : below (record :: log) record.offset = below log record.offset :=
          List.filter_cons_of_neg (by simp)
        calc
          below (record :: log) (record.offset + 1) = record :: below log (record.offset + 1) :=
            List.filter_cons_of_pos (decide_eq_true (by omega))
          _ = below (record :: log) record.offset ++ [record] := by
            rw [hdrop, hrest _ le_rfl, hrest _ (by omega), List.nil_append]
      · have hlt := hhead record hr
        have hkeep : below (s :: log) record.offset = s :: below log record.offset :=
          List.filter_cons_of_pos (decide_eq_true hlt)
        calc
          below (s :: log) (record.offset + 1) = s :: below log (record.offset + 1) :=
            List.filter_cons_of_pos (decide_eq_true (by omega))
          _ = below (s :: log) record.offset ++ [record] := by
            rw [hkeep, ih htail hr, List.cons_append]

theorem slice_eq_filter_below :
    slice log lo hi = (below log hi).filter fun r => decide (lo ≤ r.offset) := by
  simp [slice, below, List.filter_filter]

theorem slice_eq_below (h : ∀ r ∈ log, lo ≤ r.offset) : slice log lo hi = below log hi := by
  refine List.filter_congr fun r hr => ?_
  simp [h r hr]

theorem slice_succ (hlog : Ordered log) (hr : record ∈ log) (hlo : lo ≤ record.offset) :
    slice log lo (record.offset + 1) = slice log lo record.offset ++ [record] := by
  rw [slice_eq_filter_below, slice_eq_filter_below, below_succ hlog hr, List.filter_append]
  simp [hlo]

theorem below_append_slice (hlog : Ordered log) (hle : lo ≤ hi) :
    below log lo ++ slice log lo hi = below log hi := by
  induction log with
  | nil => rfl
  | cons s log ih =>
      obtain ⟨hhead, htail⟩ := List.pairwise_cons.mp hlog
      have ih := ih htail
      simp only [below, slice] at ih ⊢
      by_cases hs : s.offset < lo
      · have hs' : s.offset < hi := by omega
        simp [hs, hs', ih]
      · have hnone : log.filter (fun r => decide (r.offset < lo)) = [] := by
          refine List.filter_eq_nil_iff.mpr fun r hmem => ?_
          have := hhead r hmem
          simp only [decide_eq_true_eq]
          omega
        rw [hnone, List.nil_append] at ih
        by_cases hs' : s.offset < hi <;> simp [hs, hs', hnone, ih, not_lt.mp hs]

theorem nextRecord_eq_some (h : nextRecord log cursor = some record) :
    record ∈ log ∧ cursor ≤ record.offset := by
  refine ⟨List.mem_of_find?_eq_some h, ?_⟩
  simpa using List.find?_some h

/-- Nothing of an ordered log lies between the cursor and the record read next. -/
theorem nextRecord_gap (hlog : Ordered log) (h : nextRecord log cursor = some record) :
    ∀ r ∈ log, ¬ (cursor ≤ r.offset ∧ r.offset < record.offset) := by
  intro r hr ⟨hcursor, hbefore⟩
  induction log with
  | nil => simp at hr
  | cons s log ih =>
      obtain ⟨hhead, htail⟩ := List.pairwise_cons.mp hlog
      by_cases hs : cursor ≤ s.offset
      · have heq : s = record := by simpa [nextRecord, hs] using h
        subst heq
        rcases List.mem_cons.mp hr with rfl | hr
        · omega
        · have := hhead r hr
          omega
      · have h' : nextRecord log cursor = some record := by simpa [nextRecord, hs] using h
        rcases List.mem_cons.mp hr with rfl | hr
        · exact hs hcursor
        · exact ih htail h' hr

theorem Ordered.eq_of_offset_eq (hlog : Ordered log) (hr : r ∈ log) (hrecord : record ∈ log)
    (h : r.offset = record.offset) : r = record := by
  induction log with
  | nil => simp at hr
  | cons s log ih =>
      obtain ⟨hhead, htail⟩ := List.pairwise_cons.mp hlog
      rcases List.mem_cons.mp hr with rfl | hrest
      · rcases List.mem_cons.mp hrecord with rfl | hrecord'
        · rfl
        · have := hhead record hrecord'
          omega
      · rcases List.mem_cons.mp hrecord with rfl | hrecord'
        · have := hhead r hrest
          omega
        · exact ih htail hrest hrecord'

theorem nextRecord_append (h : nextRecord log cursor = some r) (record : Record K V) :
    nextRecord (log ++ [record]) cursor = some r := by
  unfold nextRecord at h ⊢
  rw [List.find?_append, h]
  rfl

theorem Ordered.append (hlog : Ordered log) (h : ∀ r ∈ log, r.offset < record.offset) :
    Ordered (log ++ [record]) := by
  refine List.pairwise_append.mpr ⟨hlog, List.pairwise_singleton _ _, ?_⟩
  intro r hr s hs
  rw [List.mem_singleton.mp hs]
  exact h r hr

end Order

/-! ### Tables ahead of a position -/

section Ahead

variable [DecidableEq K]

/-- Every key holds what the log from `start` up to an offset between `lo` and `hi` makes of `base`,
each its own. -/
def Ahead (base : K → Option V) (start : Int) (log : List (Record K V)) (lo hi : Int)
    (table : K → Option V) : Prop :=
  ∀ k, ∃ cut, lo ≤ cut ∧ cut ≤ hi ∧ table k = replay base (slice log start cut) k

variable {log : List (Record K V)} {base table : K → Option V} {record : Record K V}
  {start lo lo' hi hi' : Int}

theorem ahead_self (table : K → Option V) (start : Int) (log : List (Record K V)) :
    Ahead table start log start start table := by
  intro k
  refine ⟨start, le_rfl, le_rfl, ?_⟩
  rw [slice_self, replay_nil]

theorem Ahead.mono (h : Ahead base start log lo hi table) (hlo : lo' ≤ lo) (hhi : hi ≤ hi') :
    Ahead base start log lo' hi' table := by
  intro k
  obtain ⟨cut, hcut, hcut', hk⟩ := h k
  exact ⟨cut, hlo.trans hcut, hcut'.trans hhi, hk⟩

theorem Ahead.eq_replay (h : Ahead base start log lo lo table) :
    table = replay base (slice log start lo) := by
  funext k
  obtain ⟨cut, hcut, hcut', hk⟩ := h k
  rw [hk, le_antisymm hcut' hcut]

/-- The lower end moves freely across offsets without a record. -/
theorem Ahead.advance (h : Ahead base start log lo hi table)
    (hgap : ∀ r ∈ log, ¬ (lo ≤ r.offset ∧ r.offset < lo')) :
    Ahead base start log lo' (max hi lo') table := by
  intro k
  obtain ⟨cut, hcut, hcut', hk⟩ := h k
  by_cases hbelow : cut < lo'
  · refine ⟨lo', le_rfl, le_max_right .., ?_⟩
    rw [hk, slice_eq_of_gap ?_ hbelow.le]
    exact fun r hr hin => hgap r hr ⟨hcut.trans hin.1, hin.2⟩
  · exact ⟨cut, not_lt.mp hbelow, hcut'.trans (le_max_left ..), hk⟩

theorem Ahead.append (h : Ahead base start log lo hi table) (hrecord : hi ≤ record.offset) :
    Ahead base start (log ++ [record]) lo hi table := by
  intro k
  obtain ⟨cut, hcut, hcut', hk⟩ := h k
  refine ⟨cut, hcut, hcut', ?_⟩
  have hnil : slice [record] start cut = [] := by
    refine List.filter_eq_nil_iff.mpr fun r hr => ?_
    rw [List.mem_singleton.mp hr]
    simpa using fun _ => hcut'.trans hrecord
  rw [slice_append, hnil, List.append_nil, hk]

/-- **Replaying the next record.** Its key now holds the record's own value, and every other key
that had stopped before the record can be read as standing behind it. -/
theorem Ahead.apply (hlog : Ordered log) (hnext : nextRecord log lo = some record)
    (hstart : start ≤ lo) (h : Ahead base start log lo hi table) :
    Ahead base start log (record.offset + 1) (max hi (record.offset + 1)) (apply table record) := by
  obtain ⟨hmem, hlo⟩ := nextRecord_eq_some hnext
  have hgap := nextRecord_gap hlog hnext
  have hsucc := slice_succ hlog hmem (hstart.trans hlo)
  intro k
  by_cases hkey : k = record.key
  · refine ⟨record.offset + 1, le_rfl, le_max_right .., ?_⟩
    rw [hkey, apply_self, hsucc, replay_append, replay_singleton, apply_self]
  · rw [apply_of_ne hkey]
    obtain ⟨cut, hcut, hcut', hk⟩ := h k
    by_cases hbelow : cut ≤ record.offset
    · refine ⟨record.offset + 1, le_rfl, le_max_right .., ?_⟩
      rw [hk, hsucc, replay_append, replay_singleton, apply_of_ne hkey, slice_eq_of_gap ?_ hbelow]
      exact fun r hr hin => hgap r hr ⟨hcut.trans hin.1, hin.2⟩
    · exact ⟨cut, by omega, hcut'.trans (le_max_left ..), hk⟩

/-! ### Replays that give the fold of the log -/

theorem fold_below_eq_replay (hlog : Ordered log) (hle : lo ≤ hi) :
    fold (below log hi) = replay (fold (below log lo)) (slice log lo hi) := by
  rw [← below_append_slice hlog hle, fold, replay_append, ← fold]

/-- Applying the next record, or the last one again. -/
theorem fold_below_apply (hlog : Ordered log) (hr : record ∈ log) (hle : lo ≤ record.offset + 1)
    (hnext : ∀ r ∈ log, lo ≤ r.offset → record.offset ≤ r.offset) :
    fold (below log (record.offset + 1)) = apply (fold (below log lo)) record := by
  have hsucc : fold (below log (record.offset + 1))
      = apply (fold (below log record.offset)) record := by
    rw [below_succ hlog hr, fold, replay_append, replay_singleton, fold]
  by_cases hbefore : lo ≤ record.offset
  · have hbelow : below log lo = below log record.offset := by
      refine List.filter_congr fun r hmem => ?_
      have := hnext r hmem
      have hiff : r.offset < lo ↔ r.offset < record.offset := by omega
      simp [hiff]
    rw [hsucc, hbelow]
  · obtain rfl : lo = record.offset + 1 := by omega
    rw [hsucc]
    funext k
    by_cases hkey : k = record.key
    · rw [hkey, apply_self, apply_self]
    · rw [apply_of_ne hkey, apply_of_ne hkey, apply_of_ne hkey]

/-- A key that is not replayed has had its last record before. -/
theorem fold_below_of_absent (hlog : Ordered log) (hle : lo ≤ hi) {k : K}
    (habsent : ∀ r ∈ slice log lo hi, r.key ≠ k) :
    fold (below log hi) k = fold (below log lo) k := by
  rw [fold_below_eq_replay hlog hle, replay_of_absent habsent]

/-- **When a replay repairs a table.** Keys that are replayed come out right whatever they held, so
replaying gives the fold of the log if and only if every other key holds what the log gives it. -/
theorem replay_slice_eq_fold_iff (hlog : Ordered log) (hle : lo ≤ hi) :
    replay table (slice log lo hi) = fold (below log hi) ↔
      ∀ k, (∀ r ∈ slice log lo hi, r.key ≠ k) → table k = fold (below log hi) k := by
  rw [funext_iff]
  refine forall_congr' fun k => ?_
  by_cases hpresent : ∃ r ∈ slice log lo hi, r.key = k
  · have hvacuous : ¬ ∀ r ∈ slice log lo hi, r.key ≠ k := by
      obtain ⟨r, hr, hkey⟩ := hpresent
      exact fun habsent => habsent r hr hkey
    rw [fold_below_eq_replay hlog hle, replay_of_present hpresent]
    exact ⟨fun _ habsent => absurd habsent hvacuous, fun _ => rfl⟩
  · have habsent : ∀ r ∈ slice log lo hi, r.key ≠ k := fun r hr hkey => hpresent ⟨r, hr, hkey⟩
    rw [replay_of_absent habsent]
    exact ⟨fun h _ => h, fun h => h habsent⟩

end Ahead

/-! ### Logs that are written in turns

The records of one log are some of those in a list of writes, in their order.
-/

section Partition

variable {q : Record K V → Bool} {writes more : List (Record K V)} {offset offset' : Int}

/-- The writes before the first one of the log that is not below the offset. -/
def upTo (q : Record K V → Bool) (offset : Int) (writes : List (Record K V)) : List (Record K V) :=
  writes.takeWhile fun r => !(q r && decide (offset ≤ r.offset))

theorem filter_upTo (hordered : Ordered (writes.filter q)) :
    (upTo q offset writes).filter q = below (writes.filter q) offset := by
  induction writes with
  | nil => rfl
  | cons r writes ih =>
      rw [upTo, List.takeWhile_cons]
      cases hq : q r with
      | false =>
          rw [List.filter_cons_of_neg (by simp [hq])] at hordered ⊢
          simp only [Bool.false_and, Bool.not_false, if_true]
          rw [List.filter_cons_of_neg (by simp [hq])]
          exact ih hordered
      | true =>
          rw [List.filter_cons_of_pos hq] at hordered ⊢
          obtain ⟨hhead, htail⟩ := List.pairwise_cons.mp hordered
          by_cases hle : offset ≤ r.offset
          · have hempty : below (r :: writes.filter q) offset = [] :=
              below_of_forall_le (List.forall_mem_cons.mpr ⟨hle,
                fun r' hr' => hle.trans (hhead r' hr').le⟩)
            simp [hle, hempty]
          · simp only [hle, decide_false, Bool.and_false, Bool.not_false, if_true]
            rw [List.filter_cons_of_pos hq, below, List.filter_cons_of_pos (by simpa using hle)]
            exact congrArg (r :: ·) (ih htail)

theorem length_upTo_le (hle : offset ≤ offset') :
    (upTo q offset writes).length ≤ (upTo q offset' (writes ++ more)).length := by
  induction writes with
  | nil => exact Nat.zero_le _
  | cons r writes ih =>
      rw [upTo, upTo, List.cons_append, List.takeWhile_cons, List.takeWhile_cons]
      by_cases hstop : q r = true ∧ offset ≤ r.offset
      · rw [if_neg (by simp [hstop])]
        exact Nat.zero_le _
      · have hgoes : ∀ {o : Int}, offset ≤ o → (!(q r && decide (o ≤ r.offset))) = true := by
          intro o ho
          rw [Bool.not_eq_true', Bool.and_eq_false_iff, decide_eq_false_iff_not]
          by_cases hq : q r = true
          · exact .inr fun hr => hstop ⟨hq, ho.trans hr⟩
          · exact .inl (by simpa using hq)
        rw [if_pos (hgoes le_rfl), if_pos (hgoes hle)]
        exact Nat.succ_le_succ ih

theorem take_length_upTo (q : Record K V → Bool) (offset : Int) (writes : List (Record K V)) :
    writes.take (upTo q offset writes).length = upTo q offset writes :=
  (List.prefix_iff_eq_take.mp (List.takeWhile_prefix _)).symm

variable [DecidableEq K] {k : K}

theorem replay_filter (h : ∀ r ∈ writes, r.key = k → q r = true) {table table' : K → Option V}
    (heq : table k = table' k) : replay table (writes.filter q) k = replay table' writes k := by
  induction writes generalizing table table' with
  | nil => exact heq
  | cons r writes ih =>
      obtain ⟨hr, hwrites⟩ := List.forall_mem_cons.mp h
      have happly : ∀ {t t' : K → Option V}, t k = t' k → apply t r k = apply t' r k := by
        intro t t' heq
        by_cases hkey : k = r.key
        · rw [hkey, apply_self, apply_self]
        · rw [apply_of_ne hkey, apply_of_ne hkey, heq]
      cases hq : q r with
      | true =>
          rw [List.filter_cons_of_pos hq]
          exact ih hwrites (happly heq)
      | false =>
          have hkey : k ≠ r.key := by
            rintro rfl
            exact Bool.noConfusion (hq.symm.trans (hr rfl))
          rw [List.filter_cons_of_neg (by simp [hq])]
          exact ih hwrites (heq.trans (apply_of_ne hkey).symm)

/-- What a key holds below an offset of its log is what it holds after the writes up to there. -/
theorem fold_below_eq_fold_upTo (hordered : Ordered (writes.filter q))
    (hkey : ∀ r ∈ writes, r.key = k → q r = true) :
    fold (below (writes.filter q) offset) k = fold (upTo q offset writes) k := by
  rw [← filter_upTo hordered]
  exact replay_filter (fun r hr => hkey r ((List.takeWhile_prefix _).subset hr)) rfl

end Partition

end KeyedLog

import Goka.Library.Threads
import Goka.Proof.Hash
import Goka.Proof.ViewTable
import Goka.ViewRun

/-!
# What can be read from a view

All writes stand in one order, and a partition serves those of its keys up to some offset. So
whatever can be read for a key is what the key held after the first so many writes, and this number
never goes down: not while the view runs, not when it reconnects, and not when it is closed and
opened again. The offset on disk has to keep up for this: a put of the goroutine of `Open` that
comes too late makes a load begin with records that are served already.
-/

namespace Goka

open Schedule KeyedLog

namespace ViewRun

variable {hasher : Hasher} {n : Nat} {s s' : ViewRun}

/-! ### What a step can do -/

inductive Step (s : ViewRun) : Action → ViewRun → Prop where
  | writes {record : TableRecord} {i : Nat} {table table' : ViewTable}
      (hpartition : writerPartition s.hasher s.tables.length record.key = some i)
      (htable : s.tables[i]? = some table) (happend : table.append record = some table') :
      Step s (.write record) { s with
        tables := s.tables.set i table', writes := s.writes ++ [record] }
  | runs (hphase : s.phase = .created) : Step s .run { s with phase := .recovering }
  | moves {i : Nat} {action : ViewTable.Action} {table table' : ViewTable}
      (hallows : s.allows action = true) (htable : s.tables[i]? = some table)
      (hstep : table.step s.autoreconnect action = some table') :
      Step s (.inTable i action) { s with tables := s.tables.set i table' }
  | evicts {key : Bytes} {i : Nat} {table table' : ViewTable} (htable : s.tables[i]? = some table)
      (hstep : table.step s.autoreconnect (.evict key) = some table') :
      Step s (.evict key) { s with tables := s.tables.set i table' }
  | returns {i : Nat} {table table' : ViewTable} (htable : s.tables[i]? = some table)
      (hstep : table.step s.autoreconnect .returns = some table') (herrs : table.table.errs = []) :
      Step s (.returns i) { s with tables := s.tables.set i table' }
  | fails {i : Nat} {table table' : ViewTable} (htable : s.tables[i]? = some table)
      (hstep : table.step s.autoreconnect .returns = some table') (herrs : table.table.errs ≠ []) :
      Step s (.returns i) { s with
        tables := (s.tables.set i table').map ViewTable.cancel
        errs := s.errs ++ [errorsText table.table.errs] }
  | recoveryEnds (hphase : s.phase = .recovering)
      (hback : ∀ table ∈ s.tables, table.phase = .recovered)
      (hends : s.errs ≠ [] ∨ s.ctxDone = true) :
      Step s .recovered { s with phase := .closing (s.errorOf "recovering") }
  | recovers (hphase : s.phase = .recovering) (hback : ∀ table ∈ s.tables, table.phase = .recovered)
      (hgoes : s.errs = [] ∧ s.ctxDone = false) : Step s .recovered { s with phase := .catching }
  | catchupEnds (hphase : s.phase = .catching)
      (hback : ∀ table ∈ s.tables, table.phase = .returned) :
      Step s .caughtUp { s with phase := .closing (s.errorOf "catching up") }
  | drops {rerr : Option String} (hphase : s.phase = .closing rerr) :
      Step s .close { s with dropped := true }
  | runReturns {rerr rerr' : Option String} {closeErrs : List String}
      (hphase : s.phase = .closing rerr) (hclosed : ∀ table ∈ s.tables, table.phase = .closed)
      (hrerr : closeErrs = [] → rerr = none → rerr' = none) :
      Step s (.runReturns closeErrs) { s with phase := .returned rerr' }
  | cancels : Step s .cancel s.cancel
  | restarts {rerr : Option String} {autoreconnect : Bool} (hphase : s.phase = .returned rerr) :
      Step s (.restart autoreconnect) { s with
        autoreconnect := autoreconnect
        phase := .created
        ctxDone := false
        tables := s.tables.map ViewTable.reopen
        dropped := false
        errs := [] }

theorem onTable_cases {i : Nat} {move : ViewTable → Option ViewTable}
    (h : s.onTable i move = some s') :
    ∃ table table', s.tables[i]? = some table ∧ move table = some table' ∧
      s' = { s with tables := s.tables.set i table' } := by
  unfold onTable at h
  split at h
  · cases h
  · next table htable =>
      obtain ⟨table', hmove, rfl⟩ := Option.map_eq_some_iff.mp h
      exact ⟨table, table', htable, hmove, rfl⟩

/-- One case for each action of the view. -/
theorem perform_cases {action : Action} (h : s.perform action = some s') : Step s action s' := by
  cases action with
  | write record =>
      change s.write record = some s' at h
      unfold write at h
      split at h
      · cases h
      · next i hpartition =>
          obtain ⟨_, hmove, rfl⟩ := Option.map_eq_some_iff.mp h
          obtain ⟨table, table', htable, happend, rfl⟩ := onTable_cases hmove
          exact .writes hpartition htable happend
  | run =>
      obtain ⟨hphase, rfl⟩ := guard_eq_some.mp h
      exact .runs hphase
  | inTable i action =>
      obtain ⟨hallows, h⟩ := Option.ite_none_right_eq_some.mp h
      obtain ⟨table, table', htable, hstep, rfl⟩ := onTable_cases h
      exact .moves hallows htable hstep
  | evict key =>
      change s.evict key = some s' at h
      unfold evict at h
      split at h
      · obtain ⟨-, h⟩ := Option.ite_none_left_eq_some.mp h
        obtain ⟨table, table', htable, hstep, rfl⟩ := onTable_cases h
        exact .evicts htable hstep
      · cases h
  | returns i =>
      change s.returns i = some s' at h
      unfold returns at h
      split at h
      · cases h
      · next table htable =>
          obtain ⟨table', hstep, rfl⟩ := Option.map_eq_some_iff.mp h
          dsimp only
          split
          · next herrs => exact .returns htable hstep herrs
          · next herrs => exact .fails htable hstep herrs
  | recovered =>
      obtain ⟨⟨hphase, hback⟩, h⟩ := Option.ite_none_right_eq_some.mp h
      split at h
      · next hends =>
          obtain rfl := Option.some.inj h
          exact .recoveryEnds hphase hback hends
      · next hgoes =>
          obtain rfl := Option.some.inj h
          rw [not_or, not_not, Bool.not_eq_true] at hgoes
          exact .recovers hphase hback hgoes
  | caughtUp =>
      obtain ⟨⟨hphase, hback⟩, rfl⟩ := guard_eq_some.mp h
      exact .catchupEnds hphase hback
  | close =>
      change s.close = some s' at h
      unfold close at h
      split at h
      · next hphase =>
          obtain ⟨-, h⟩ := Option.ite_none_left_eq_some.mp h
          obtain rfl := Option.some.inj h
          exact .drops hphase
      · cases h
  | runReturns closeErrs =>
      change s.runReturns closeErrs = some s' at h
      unfold runReturns at h
      split at h
      · next rerr hphase =>
          obtain ⟨⟨-, hclosed⟩, rfl⟩ := guard_eq_some.mp h
          refine .runReturns hphase hclosed ?_
          rintro rfl rfl
          rfl
      · cases h
  | cancel =>
      obtain rfl := Option.some.inj h
      exact .cancels
  | restart autoreconnect =>
      change s.restart autoreconnect = some s' at h
      unfold restart at h
      split at h
      · next hphase =>
          obtain rfl := Option.some.inj h
          exact .restarts hphase
      · cases h

theorem step_cases {action : Action} (h : s.step action = some s') : Step s action s' :=
  perform_cases (Option.ite_none_left_eq_some.mp h).2

/-! ### The tables -/

structure Formed (n : Nat) (s : ViewRun) : Prop where
  length : s.tables.length = n
  sound : ∀ table ∈ s.tables, table.Sound

theorem formed_new (topic : String) (hasher : Hasher) (autoreconnect : Bool) (n : Nat) :
    Formed n (new topic hasher autoreconnect n) where
  length := by rw [new, List.length_map, List.length_range]
  sound := List.forall_mem_map.mpr fun _ _ => ViewTable.sound_onDatabase ..

theorem Formed.set (h : Formed n s) {i : Nat} {table' : ViewTable} (hsound : table'.Sound) :
    Formed n { s with tables := s.tables.set i table' } :=
  ⟨(List.length_set ..).trans h.length, Threads.forall_mem_set h.sound hsound⟩

theorem Formed.move (h : Formed n s) {i : Nat} {action : ViewTable.Action}
    {table table' : ViewTable} (htable : s.tables[i]? = some table)
    (hstep : table.step s.autoreconnect action = some table') :
    Formed n { s with tables := s.tables.set i table' } :=
  h.set (ViewTable.sound_step (h.sound table (List.mem_of_getElem? htable)) hstep)

theorem Formed.map (h : Formed n s) {move : ViewTable → ViewTable}
    (hmove : ∀ table ∈ s.tables, (move table).Sound) :
    (s.tables.map move).length = n ∧ ∀ table ∈ s.tables.map move, table.Sound :=
  ⟨(List.length_map _).trans h.length, List.forall_mem_map.mpr hmove⟩

/-- Without any condition on the storages. -/
theorem formed_step {action : Action} (h : Formed n s) (hstep : s.step action = some s') :
    Formed n s' := by
  cases step_cases hstep with
  | writes _ htable happend =>
      obtain ⟨hlength, hsound⟩ :=
        h.set ((h.sound _ (List.mem_of_getElem? htable)).append happend)
      exact ⟨hlength, hsound⟩
  | runs | recoveryEnds | recovers | catchupEnds | drops | runReturns => exact ⟨h.length, h.sound⟩
  | moves _ htable hon | evicts htable hon | returns htable hon => exact h.move htable hon
  | fails htable hon =>
      obtain ⟨hlength, hsound⟩ :=
        (h.move htable hon).map fun table hmem => ((h.move htable hon).sound table hmem).cancel
      exact ⟨hlength, hsound⟩
  | cancels =>
      obtain ⟨hlength, hsound⟩ := h.map fun table htable => (h.sound table htable).cancel
      exact ⟨hlength, hsound⟩
  | restarts =>
      obtain ⟨hlength, hsound⟩ :=
        h.map fun table _ => (ViewTable.sound_onDatabase .. : table.reopen.Sound)
      exact ⟨hlength, hsound⟩

/-! ### The invariant -/

/-- The storages are written in time. -/
def Timely (s : ViewRun) : Action → Prop
  | .inTable i action => ∀ table ∈ s.tables[i]?, table.Timely action
  | _ => True

instance decidableTimely (s : ViewRun) : DecidablePred s.Timely
  | .inTable i action => inferInstanceAs (Decidable (∀ table ∈ s.tables[i]?, table.Timely action))
  | .write _ | .run | .evict _ | .returns _ | .recovered | .caughtUp | .close | .runReturns _
  | .cancel | .restart _ => isTrue trivial

def goesTo (hasher : Hasher) (n i : Nat) (record : TableRecord) : Bool :=
  writerPartition hasher n record.key = some i

structure Inv (hasher : Hasher) (n : Nat) (s : ViewRun) : Prop where
  hasher_eq : s.hasher = hasher
  length : s.tables.length = n
  holds : ∀ table ∈ s.tables, ∃ stored, ViewTable.Exact stored table
  logs : ∀ (i : Nat) (table : ViewTable), s.tables[i]? = some table →
    table.table.log.records = s.writes.filter (goesTo hasher n i)
  closed : ∀ rerr, s.phase = .returned rerr → ∀ table ∈ s.tables, table.phase = .closed

theorem Inv.formed (h : Inv hasher n s) : Formed n s where
  length := h.length
  sound := fun table htable =>
    let ⟨_, hexact⟩ := h.holds table htable
    hexact.toSound

theorem inv_new (topic : String) (hasher : Hasher) (autoreconnect : Bool) (n : Nat) :
    Inv hasher n (new topic hasher autoreconnect n) where
  hasher_eq := rfl
  length := by rw [new, List.length_map, List.length_range]
  holds := List.forall_mem_map.mpr fun partition _ => ⟨none, ViewTable.exact_new topic partition⟩
  logs := by
    intro i table htable
    obtain ⟨partition, -, rfl⟩ := List.mem_map.mp (List.mem_of_getElem? htable)
    rfl
  closed := fun _ hphase => ViewPhase.noConfusion hphase

/-- A table moves on. -/
theorem Inv.move (h : Inv hasher n s) {i : Nat} {table table' : ViewTable}
    (htable : s.tables[i]? = some table) (hholds : ∃ stored, ViewTable.Exact stored table')
    (honward : ViewTable.Onward table table') :
    Inv hasher n { s with tables := s.tables.set i table' } where
  hasher_eq := h.hasher_eq
  length := (List.length_set ..).trans h.length
  holds := Threads.forall_mem_set h.holds hholds
  logs := by
    refine Threads.forall_getElem?_set ?_ fun j other _ hother => h.logs j other hother
    rw [honward.log]
    exact h.logs i table htable
  closed := by
    intro rerr hphase
    have hclosed := h.closed rerr hphase
    exact Threads.forall_mem_set hclosed
      (honward.closed (hclosed table (List.mem_of_getElem? htable)))

theorem Inv.step_table (h : Inv hasher n s) {i : Nat} {autoreconnect : Bool}
    {action : ViewTable.Action} {table table' : ViewTable} (htable : s.tables[i]? = some table)
    (hstep : table.step autoreconnect action = some table') (htimely : table.Timely action) :
    Inv hasher n { s with tables := s.tables.set i table' } := by
  obtain ⟨stored, hexact⟩ := h.holds table (List.mem_of_getElem? htable)
  exact h.move htable (ViewTable.exact_step hexact htimely hstep)
    (ViewTable.onward_step hexact hstep)

theorem Inv.cancel (h : Inv hasher n s) (ctxDone : Bool) (errs : List String) :
    Inv hasher n { s with
      tables := s.tables.map ViewTable.cancel, ctxDone := ctxDone, errs := errs } where
  hasher_eq := h.hasher_eq
  length := (List.length_map _).trans h.length
  holds := by
    refine List.forall_mem_map.mpr fun table htable => ?_
    obtain ⟨stored, hexact⟩ := h.holds table htable
    exact ⟨stored, hexact.cancel⟩
  logs := by
    intro i table htable
    rw [List.getElem?_map] at htable
    obtain ⟨before, hbefore, rfl⟩ := Option.map_eq_some_iff.mp htable
    exact h.logs i before hbefore
  closed := fun rerr hphase => List.forall_mem_map.mpr (h.closed rerr hphase)

/-- The record goes to the partition of its key, and to the log of no other. -/
theorem Inv.write (h : Inv hasher n s) {record : TableRecord} {i : Nat} {table table' : ViewTable}
    (hpartition : writerPartition s.hasher s.tables.length record.key = some i)
    (htable : s.tables[i]? = some table) (happend : table.append record = some table') :
    Inv hasher n { s with tables := s.tables.set i table', writes := s.writes ++ [record] } := by
  rw [h.hasher_eq, h.length] at hpartition
  obtain ⟨stored, hexact⟩ := h.holds table (List.mem_of_getElem? htable)
  have hlog : table'.phase = table.phase ∧ table'.table.log.records = table.table.log.records ++
      [record] := by
    obtain ⟨-, hstep⟩ := Option.ite_none_left_eq_some.mp happend
    obtain ⟨moved, hmoved, rfl⟩ := Option.map_eq_some_iff.mp hstep
    cases PartitionTable.step_cases hmoved with
    | append hlog => exact ⟨rfl, (TopicLog.append_eq_some hlog).2.1⟩
  refine ⟨h.hasher_eq, (List.length_set ..).trans h.length,
    Threads.forall_mem_set h.holds ⟨stored, hexact.append happend⟩, ?_, fun rerr hphase => ?_⟩
  · refine Threads.forall_getElem?_set ?_ fun j other hne hother => ?_
    · have hgoes : goesTo hasher n i record = true := decide_eq_true hpartition
      rw [hlog.2, h.logs i table htable, List.filter_append, List.filter_cons_of_pos hgoes,
        List.filter_nil]
    · have hgoes : ¬ goesTo hasher n j record = true := by
        rw [goesTo, decide_eq_true_eq, hpartition]
        exact fun heq => hne (Option.some.inj heq).symm
      dsimp only
      rw [h.logs j other hother, List.filter_append, List.filter_cons_of_neg hgoes, List.filter_nil,
        List.append_nil]
  · have hclosed := h.closed rerr hphase
    exact Threads.forall_mem_set hclosed
      (hlog.1.trans (hclosed table (List.mem_of_getElem? htable)))

theorem Inv.restart (h : Inv hasher n s) {rerr : Option String} (hphase : s.phase = .returned rerr)
    (autoreconnect : Bool) :
    Inv hasher n { s with
      autoreconnect := autoreconnect
      phase := .created
      ctxDone := false
      tables := s.tables.map ViewTable.reopen
      dropped := false
      errs := [] } where
  hasher_eq := h.hasher_eq
  length := (List.length_map _).trans h.length
  holds := by
    refine List.forall_mem_map.mpr fun table htable => ?_
    obtain ⟨stored, hexact⟩ := h.holds table htable
    exact ⟨stored, hexact.reopen (h.closed rerr hphase table htable)⟩
  logs := by
    intro i table htable
    rw [List.getElem?_map] at htable
    obtain ⟨before, hbefore, rfl⟩ := Option.map_eq_some_iff.mp htable
    exact h.logs i before hbefore
  closed := fun _ hphase => ViewPhase.noConfusion hphase

/-- Each partition keeps its storage exact, and the writes are those of the logs. -/
theorem inv_step {action : Action} (h : Inv hasher n s) (htimely : s.Timely action)
    (hstep : s.step action = some s') : Inv hasher n s' := by
  cases step_cases hstep with
  | writes hpartition htable happend => exact h.write hpartition htable happend
  | runs | recoveryEnds | recovers | catchupEnds =>
      exact ⟨h.hasher_eq, h.length, h.holds, h.logs, fun _ hphase => ViewPhase.noConfusion hphase⟩
  | drops => exact ⟨h.hasher_eq, h.length, h.holds, h.logs, h.closed⟩
  | moves _ htable hmove => exact h.step_table htable hmove (htimely _ htable)
  | evicts htable hmove | returns htable hmove => exact h.step_table htable hmove trivial
  | fails htable hmove => exact (h.step_table htable hmove trivial).cancel s.ctxDone _
  | runReturns _ hclosed => exact ⟨h.hasher_eq, h.length, h.holds, h.logs, fun _ _ => hclosed⟩
  | cancels => exact h.cancel true s.errs
  | restarts hphase => exact h.restart hphase _

theorem inv_run (h : Inv hasher n s) {actions : List Action}
    (htimely : ∀ t ∈ transitions step s actions, t.1.Timely t.2.1) :
    Inv hasher n (Schedule.run step s actions) :=
  run_invariant_of_allowed Timely (fun _ _ _ h htimely hstep => inv_step h htimely hstep) h htimely

/-! ### What is read -/

def served (s : ViewRun) (i : Nat) : Int := (s.tables[i]?.map ViewTable.served).getD 0

/-- How many of the writes are in what can be read for a key. -/
def position (s : ViewRun) (key : Bytes) : Nat :=
  match writerPartition s.hasher s.tables.length key with
  | none => 0
  | some i => (upTo (goesTo s.hasher s.tables.length i) (s.served i) s.writes).length

/-- The key was evicted and no record of it was applied since. -/
def Evicted (s : ViewRun) (key : Bytes) : Prop := ∃ table ∈ s.tables, key ∈ table.evicted

theorem natAbs_mod_of_nonneg {sum : UInt32} (hlt : n < 2 ^ 31)
    (hnonneg : 0 ≤ ((if sum.toInt32 < 0 then -sum.toInt32 else
      sum.toInt32) % Int32.ofNat n).toInt) :
    ((if sum.toInt32 < 0 then -sum.toInt32 else sum.toInt32) % Int32.ofNat n).toInt
      = (sum.toInt32.toInt.natAbs % n : Nat) := by
  rcases toInt_index_cases hlt sum with ⟨-, hvalue⟩ | ⟨heq, hvalue⟩
  · exact hvalue
  · have hmin : sum.toInt32.toInt = -2 ^ 31 := toInt32_eq_min_iff.mpr heq
    have habs : sum.toInt32.toInt.natAbs = 2 ^ 31 := by
      rw [hmin]
      decide
    rw [habs, hvalue]
    rw [hvalue] at hnonneg
    omega

/-- A reader that does not fail looks where the writers write. -/
theorem find_eq_ok {v : View ViewTable} {key : Bytes} {table : ViewTable}
    (hlt : v.partitions.length < 2 ^ 31) (h : v.find key = .ok table) :
    ∃ i, writerPartition v.hasher v.partitions.length key = some i ∧
    v.partitions[i]? = some table := by
  obtain ⟨index, hhash, h⟩ := Outcome.bind_eq_ok.mp h
  have hnonneg : 0 ≤ index.toInt := by
    by_contra hneg
    rw [if_pos (by omega)] at h
    cases h
  rw [if_neg (by omega)] at h
  have hfound : v.partitions[index.toInt.toNat]? = some table := by
    split at h
    · next found hfound => rw [hfound, Outcome.ok.inj h]
    · cases h
  have hpos : 0 < v.partitions.length :=
    Nat.zero_lt_of_lt (List.getElem?_eq_some_iff.mp hfound).1
  cases hsum : v.hasher key with
  | error err => simp [View.hash, hashKey, hsum] at hhash
  | ok sum =>
      have hindex := Outcome.ok.inj (hhash.symm.trans (hashKey_eq hsum hpos "no partitions found"))
      refine ⟨index.toInt.toNat, ?_, hfound⟩
      rw [hindex] at hnonneg ⊢
      rw [writerPartition, hsum]
      dsimp only
      rw [toInt_hashPartitioner hpos hlt, natAbs_mod_of_nonneg hlt hnonneg]

/-- A read that succeeds has come to the partition of its writer, which is running. -/
theorem get_eq_ok {key : Bytes} {data : Option Bytes} (hlt : s.tables.length < 2 ^ 31)
    (h : s.get key = .ok data) :
    ∃ i table, writerPartition s.hasher s.tables.length key = some i ∧ s.tables[i]? = some table ∧
      table.table.state = .running ∧ data = table.st.get key := by
  obtain ⟨table, hfind, h⟩ := Outcome.bind_eq_ok.mp h
  have hpartitions : s.view.partitions = [] ∨ s.view.partitions = s.tables := by
    unfold view
    cases s.dropped
    · exact .inr rfl
    · exact .inl rfl
  obtain ⟨i, hpartition, htable⟩ :=
    find_eq_ok (by rcases hpartitions with h | h <;> rw [h]; decide; exact hlt) hfind
  have htables : s.view.partitions = s.tables := by
    refine hpartitions.resolve_left fun hnil => ?_
    rw [hnil] at htable
    exact absurd htable.symm (Option.some_ne_none _)
  rw [htables] at hpartition htable
  refine ⟨i, table, hpartition, htable, ?_⟩
  unfold ViewTable.get at h
  split at h
  · cases h
  · next data' hget =>
      split at hget
      · cases hget
      · next hready =>
          rw [← Outcome.ok.inj h, ← Except.ok.inj hget]
          exact ⟨PartitionTable.readyToRead_eq_ok.mp hready, rfl⟩

theorem content_of_ne {db : Database} {key : Bytes} (hkey : key ≠ offsetKey) :
    db.content key = db key :=
  if_neg hkey

/-- What is read for a key is what the key held after the writes up to its position, or the key was
evicted. -/
theorem Inv.get_eq (h : Inv hasher n s) (hlt : n < 2 ^ 31) {key : Bytes} (hkey : key ≠ offsetKey)
    {data : Option Bytes} (hget : s.get key = .ok data) :
    data = fold (s.writes.take (s.position key)) key ∨ data = none ∧ s.Evicted key := by
  obtain ⟨i, table, hpartition, htable, -, rfl⟩ := get_eq_ok (h.length ▸ hlt) hget
  have hmem := List.mem_of_getElem? htable
  obtain ⟨stored, hexact⟩ := h.holds table hmem
  have hserved : s.served i = table.served := by
    rw [served, htable]
    rfl
  rw [position, hpartition]
  dsimp only
  rw [take_length_upTo, hserved, h.hasher_eq, h.length]
  rw [h.hasher_eq, h.length] at hpartition
  have hgoes : ∀ r ∈ s.writes, r.key = key → goesTo hasher n i r = true :=
    fun r _ hr => decide_eq_true (hr ▸ hpartition)
  have hordered : Ordered (s.writes.filter (goesTo hasher n i)) :=
    h.logs i table htable ▸ table.table.log.ordered
  have hcontent := hexact.content key
  rw [h.logs i table htable, content_of_ne hkey, fold_below_eq_fold_upTo hordered hgoes] at hcontent
  exact hcontent.imp_right fun ⟨hevicted, hnone⟩ => ⟨hnone, table, hmem, hevicted⟩

/-! ### Nothing goes back -/

structure Grows (s s' : ViewRun) : Prop where
  writes : ∃ more, s'.writes = s.writes ++ more
  served : ∀ i, s.served i ≤ s'.served i

theorem Grows.refl (s : ViewRun) : Grows s s := ⟨⟨[], (List.append_nil _).symm⟩, fun _ => le_rfl⟩

theorem Grows.trans {s'' : ViewRun} (h : Grows s s') (h' : Grows s' s'') : Grows s s'' := by
  obtain ⟨more, hmore⟩ := h.writes
  obtain ⟨more', hmore'⟩ := h'.writes
  refine ⟨⟨more ++ more', ?_⟩, fun i => (h.served i).trans (h'.served i)⟩
  rw [hmore', hmore, List.append_assoc]

theorem served_set {i : Nat} {table table' : ViewTable} (htable : s.tables[i]? = some table)
    (hle : table.served ≤ table'.served) (j : Nat) :
    s.served j ≤ served { s with tables := s.tables.set i table' } j := by
  unfold served
  dsimp only
  rcases eq_or_ne i j with rfl | hne
  · rw [List.getElem?_set_self', htable]
    exact hle
  · rw [List.getElem?_set_ne hne]

theorem served_map (move : ViewTable → ViewTable)
    (hmove : ∀ table, (move table).served = table.served) (i : Nat) :
    ((s.tables.map move)[i]?.map ViewTable.served).getD 0 = s.served i := by
  rw [List.getElem?_map, Option.map_map, served]
  exact congrArg (fun f => (s.tables[i]?.map f).getD 0) (funext hmove)

/-- What a partition serves never shrinks, since its cursor never goes back behind it. -/
theorem grows_step {action : Action} (h : Inv hasher n s) (hstep : s.step action = some s') :
    Grows s s' := by
  have hnone : ∃ more, s.writes = s.writes ++ more := ⟨[], (List.append_nil _).symm⟩
  have hmove : ∀ {i : Nat} {action : ViewTable.Action} {table table' : ViewTable},
      s.tables[i]? = some table →
      table.step s.autoreconnect action = some table' → table.served ≤ table'.served := by
    intro i action table table' htable hstep
    obtain ⟨stored, hexact⟩ := h.holds table (List.mem_of_getElem? htable)
    exact (ViewTable.onward_step hexact hstep).served
  cases step_cases hstep with
  | @writes record i table table' hpartition htable happend =>
      refine ⟨⟨[record], rfl⟩, served_set htable ?_⟩
      obtain ⟨-, hstep⟩ := Option.ite_none_left_eq_some.mp happend
      obtain ⟨moved, -, rfl⟩ := Option.map_eq_some_iff.mp hstep
      exact le_rfl
  | runs | recoveryEnds | recovers | catchupEnds | drops | runReturns =>
      exact ⟨hnone, fun _ => le_rfl⟩
  | moves _ htable hon | evicts htable hon | returns htable hon =>
      exact ⟨hnone, served_set htable (hmove htable hon)⟩
  | @fails i table table' htable hon =>
      refine ⟨hnone, fun j => (served_set htable (hmove htable hon) j).trans_eq ?_⟩
      exact (served_map (s := { s with tables := s.tables.set i table' }) ViewTable.cancel
        (fun _ => rfl) j).symm
  | cancels => exact ⟨hnone, fun i => (served_map ViewTable.cancel (fun _ => rfl) i).ge⟩
  | restarts => exact ⟨hnone, fun i => (served_map ViewTable.reopen (fun _ => rfl) i).ge⟩

structure Ahead (hasher : Hasher) (n : Nat) (base s : ViewRun) : Prop where
  inv : Inv hasher n s
  grows : Grows base s

theorem ahead_step {base : ViewRun} {action : Action} (h : Ahead hasher n base s)
    (htimely : s.Timely action) (hstep : s.step action = some s') : Ahead hasher n base s' :=
  ⟨inv_step h.inv htimely hstep, h.grows.trans (grows_step h.inv hstep)⟩

/-- What a view has served it serves from then on. -/
theorem ahead_run (h : Inv hasher n s) {actions : List Action}
    (htimely : ∀ t ∈ transitions step s actions, t.1.Timely t.2.1) :
    Ahead hasher n s (Schedule.run step s actions) :=
  run_invariant_of_allowed Timely (fun _ _ _ h htimely hstep => ahead_step h htimely hstep)
    ⟨h, Grows.refl s⟩ htimely

theorem Grows.position_le (hinv : Inv hasher n s) (hinv' : Inv hasher n s') (h : Grows s s')
    (key : Bytes) :
    s.position key ≤ s'.position key := by
  obtain ⟨more, hmore⟩ := h.writes
  rw [position, position, hinv.hasher_eq, hinv.length, hinv'.hasher_eq, hinv'.length, hmore]
  cases writerPartition hasher n key with
  | none => exact le_rfl
  | some i => exact length_upTo_le (h.served i)

theorem position_le_length (s : ViewRun) (key : Bytes) : s.position key ≤ s.writes.length := by
  unfold position
  split
  · exact Nat.zero_le _
  · exact (List.takeWhile_prefix _).length_le

/-- **Reads never go back.** All writes to the topic stand in one order. What is read for a key is
what the key held after a number of them, or the key was evicted; and as long as the storages are
written in time, reconnecting and closing and opening the view again included, the number for a
later read is not smaller. -/
theorem reads_never_go_back (topic : String) (hasher : Hasher) (autoreconnect : Bool) (n : Nat)
    (hlt : n < 2 ^ 31) (key : Bytes) (hkey : key ≠ offsetKey) (actions more : List Action)
    (htimely : ∀ t ∈ transitions step (new topic hasher autoreconnect n) (actions ++ more),
      t.1.Timely t.2.1) :
    let s := Schedule.run step (new topic hasher autoreconnect n) actions
    let s' := Schedule.run step s more
    s.position key ≤ s'.position key ∧ s'.position key ≤ s'.writes.length ∧
      s.writes <+: s'.writes ∧
      ∀ data, s'.get key = .ok data →
        data = fold (s'.writes.take (s'.position key)) key ∨ data = none ∧ s'.Evicted key := by
  intro s s'
  rw [transitions_append] at htimely
  have hfirst := fun t ht => htimely t (List.mem_append_left _ ht)
  have hmore := fun t ht => htimely t (List.mem_append_right _ ht)
  have hinv : Inv hasher n s := inv_run (inv_new topic hasher autoreconnect n) hfirst
  obtain ⟨hinv', hgrows⟩ : Ahead hasher n s s' := ahead_run hinv hmore
  obtain ⟨written, hwritten⟩ := hgrows.writes
  refine ⟨hgrows.position_le hinv hinv' key, position_le_length s' key, ⟨written, hwritten.symm⟩,
    ?_⟩
  exact fun data hget => hinv'.get_eq hlt hkey hget

def recordLoaded : List Action :=
  [.inTable 0 (.outside .message), .inTable 0 (.update none), .inTable 0 (.setOffset none)]

def recoveryBegun : List Action :=
  [.run, .inTable 0 (.create none none none), .inTable 0 .setupAndRecover,
    .inTable 0 (.getOffset none), .inTable 0 (.outside (.gotWatermarks none none)),
    .inTable 0 (.outside (.consumePartition none))]

def recoveryEnded : List Action :=
  [.inTable 0 (.markRecovered none false), .inTable 0 (.outside .drained), .returns 0, .recovered]

def recovery : List Action :=
  recoveryBegun ++ recordLoaded ++ [.inTable 0 .syncLoad, .inTable 0 (.syncPut none)] ++
    recordLoaded ++ recoveryEnded

def catchupBegun : List Action :=
  [.inTable 0 .catchupForever, .inTable 0 (.getOffset none),
    .inTable 0 (.outside (.gotWatermarks none none)),
    .inTable 0 (.outside (.consumePartition none))]

def replacement : List Action :=
  catchupBegun ++ [.cancel, .inTable 0 (.outside .contextDone), .inTable 0 (.outside .drained),
    .returns 0, .caughtUp, .close, .inTable 0 (.close none), .runReturns [], .restart true]

theorem reads_never_go_back_second_view :
    let s := Schedule.run step (new "table" (fun _ => .ok 0) false 1)
      (.write ⟨0, [97], some [1]⟩ :: recovery)
    let s' := Schedule.run step s (replacement ++ .write ⟨1, [97], some [2]⟩ :: recovery)
    s.get [97] = .ok (some [1]) ∧ s'.get [97] = .ok (some [2]) ∧
      s.position [97] ≤ s'.position [97] := by
  refine ⟨by decide +kernel, by decide +kernel, ?_⟩
  exact (reads_never_go_back "table" (fun _ => .ok 0) false 1 (by decide) [97] (by decide)
    (.write ⟨0, [97], some [1]⟩ :: recovery)
    (replacement ++ .write ⟨1, [97], some [2]⟩ :: recovery) (by decide +kernel)).1

/-- An offset that was loaded two records ago is put behind the recovery, and the load that follows
applies the first of them again. -/
example :
    let write (offset : Int) (value : UInt8) : Action := .write ⟨offset, [97], some [value]⟩
    let written := [write 0 1, write 1 2, write 2 3, write 3 4]
    let recovered := written ++ recoveryBegun ++ recordLoaded ++ recordLoaded ++
      [.inTable 0 .syncLoad] ++ recordLoaded ++ recordLoaded ++ recoveryEnded
    let s := Schedule.run step (new "table" (fun _ => .ok 0) false 1) recovered
    let s' := Schedule.run step s (.inTable 0 (.syncPut none) :: catchupBegun ++ recordLoaded)
    s.get [97] = .ok (some [4]) ∧ s'.get [97] = .ok (some [3]) := by
  decide +kernel

end ViewRun

end Goka

import Goka.Library.Threads
import Goka.PartitionStart
import Goka.Proof.PartitionTable

/-!
# A partition processor that is running has recovered

As long as its context is open, `SetupAndRecover` comes back without an error only from
`markRecovered`. So when no table fails and the context is not cancelled before the last of them is
back, all tables have recovered when `Start` returns.
-/

namespace Goka

open Schedule

/-! ### One table -/

namespace PartitionTable

variable {p p' : PartitionTable}

structure Recovering (p : PartitionTable) : Prop where
  uncancelled : p.cancelled = false
  noRestart : p.restartOnError = false
  noBackoff : p.pc ≠ .backoff
  stop : p.pc ≠ .idle → p.stopAfterCatchup = true
  recovered : p.pc = .idle ∨ p.pc = .draining → p.errs = [] → p.state = .running

theorem Recovering.returned (huncancelled : p.cancelled = false)
    (hrestart : p.restartOnError = false) (hrecovered : p.errs = [] → p.state = .running) :
    Recovering p.returned := by
  have hpc : p.returned.pc = .idle := by simp [PartitionTable.returned, hrestart]
  refine ⟨huncancelled, hrestart, ?_, fun hbusy => absurd hpc hbusy, fun _ => hrecovered⟩
  rw [hpc]
  exact Pc.noConfusion

theorem collect_ne_nil (err : String) : (p.collect err).errs ≠ [] :=
  List.append_ne_nil_of_right_ne_nil _ (List.cons_ne_nil _ _)

namespace Recovering

theorem fails (h : Recovering p) (err : String) : Recovering (p.collect err).returned :=
  .returned h.uncancelled h.noRestart fun herrs => absurd herrs (collect_ne_nil err)

/-- The call goes on. -/
theorem goes (h : Recovering p) (hpc : p.pc ≠ .idle) (huncancelled : p'.cancelled = p.cancelled)
    (hrestart : p'.restartOnError = p.restartOnError)
    (hstop : p'.stopAfterCatchup = p.stopAfterCatchup)
    (hgoes : p'.pc ≠ .idle ∧ p'.pc ≠ .draining ∧ p'.pc ≠ .backoff) : Recovering p' where
  uncancelled := huncancelled.trans h.uncancelled
  noRestart := hrestart.trans h.noRestart
  noBackoff := hgoes.2.2
  stop := fun _ => hstop.trans (h.stop hpc)
  recovered := fun hleft => (hleft.elim hgoes.1 hgoes.2.1).elim

theorem leaveMarkRecovered (h : Recovering p) (hpc : p.pc ≠ .idle)
    (hrecovered : p.errs = [] → p.state = .running) (consuming : Bool) :
    Recovering (p.leaveMarkRecovered consuming) := by
  cases consuming with
  | false => exact .returned h.uncancelled h.noRestart hrecovered
  | true =>
      exact ⟨h.uncancelled, h.noRestart, Pc.noConfusion, fun _ => h.stop hpc, fun _ => hrecovered⟩

theorem leaveLoadMessages (h : Recovering p) (hpc : p.pc ≠ .idle) :
    Recovering p.leaveLoadMessages := by
  rw [PartitionTable.leaveLoadMessages, if_pos (h.stop hpc)]
  exact h.goes hpc rfl rfl rfl ⟨Pc.noConfusion, Pc.noConfusion, Pc.noConfusion⟩

theorem drains (h : Recovering p) (hpc : p.pc ≠ .idle) (err : String) :
    Recovering { p.collect err with pc := .draining } where
  uncancelled := h.uncancelled
  noRestart := h.noRestart
  noBackoff := Pc.noConfusion
  stop := fun _ => h.stop hpc
  recovered := fun _ herrs => absurd herrs (collect_ne_nil err)

end Recovering

theorem leaveMarkRecovered_topic (consuming : Bool) :
    (p.leaveMarkRecovered consuming).topic = p.topic := by
  cases consuming <;> rfl

theorem leaveLoadMessages_topic : p.leaveLoadMessages.topic = p.topic := by
  unfold leaveLoadMessages
  split <;> rfl

theorem topic_step {e : Event} (hstep : p.step e = some p') : p'.topic = p.topic := by
  cases step_cases hstep with
  | closed | cancelled | reached => exact leaveLoadMessages_topic
  | markCancelled | recovered | markFails => exact leaveMarkRecovered_topic _
  | _ => rfl

/-- Without an error the load can only end behind its call of `markRecovered`. -/
theorem recovering_step {e : Event} (h : Recovering p) (hwithin : e.within = true)
    (hstep : p.step e = some p') : Recovering p' := by
  have hbusy : ∀ {pc : Pc}, p.pc = pc → pc ≠ .idle → p.pc ≠ .idle := fun hpc hne => hpc ▸ hne
  cases step_cases hstep with
  | cancel | createFails | setupCancelled | setup | catchup => cases hwithin
  | append | ignored => exact ⟨h.uncancelled, h.noRestart, h.noBackoff, h.stop, h.recovered⟩
  | nilMessage | stallTick => exact h
  | offsetFails | watermarksFail | consumeFails => exact h.fails _
  | gotOffset hpc | found hpc | consume hpc | message hpc | updated hpc | offsetSet hpc =>
      exact h.goes (hbusy hpc Pc.noConfusion) rfl rfl rfl
        ⟨Pc.noConfusion, Pc.noConfusion, Pc.noConfusion⟩
  | upToDate hpc | markPanics hpc =>
      exact h.goes (hbusy hpc Pc.noConfusion) rfl rfl rfl
        ⟨Pc.noConfusion, Pc.noConfusion, Pc.noConfusion⟩
  | closed hpc | reached hpc => exact h.leaveLoadMessages (hbusy hpc Pc.noConfusion)
  | cancelled | markCancelled | backoffCancelled =>
      -- the context is open
      rw [step, contextDone, if_neg (Bool.eq_false_iff.mp h.uncancelled)] at hstep
      cases hstep
  | consumerError err text =>
      refine ⟨h.uncancelled, h.noRestart, h.noBackoff, h.stop, fun _ herrs => ?_⟩
      exact absurd herrs (collect_ne_nil text)
  | updateFails hpc | setFails hpc => exact h.drains (hbusy hpc Pc.noConfusion) _
  | recovered hpc =>
      have hbusy := hbusy hpc Pc.noConfusion
      have hmarked : Recovering { p with state := .running } :=
        ⟨h.uncancelled, h.noRestart, h.noBackoff, h.stop, fun _ _ => rfl⟩
      exact hmarked.leaveMarkRecovered hbusy (fun _ => rfl) _
  | markFails hpc err =>
      have hfailed : (p.collect err).errs ≠ [] := collect_ne_nil err
      have hmarked : Recovering (p.collect err) :=
        ⟨h.uncancelled, h.noRestart, h.noBackoff, h.stop, fun _ herrs => absurd herrs hfailed⟩
      exact hmarked.leaveMarkRecovered (hbusy hpc Pc.noConfusion)
        (fun herrs => absurd herrs hfailed) _
  | drained hpc => exact .returned h.uncancelled h.noRestart (h.recovered (.inr hpc))
  | retry hpc => exact absurd hpc h.noBackoff

end PartitionTable

/-! ### The goroutine of a table -/

namespace TableRun

variable {run run' : TableRun}

inductive Step (run : TableRun) : Action → TableRun → Prop where
  | createFails {builderErr openErr closeErr : Option String} {st : StorageStatus} {err : String}
      {table : PartitionTable} (hphase : run.phase = .ready)
      (hcreate : createStorage builderErr openErr closeErr run.table.cancelled = (st, .error err))
      (htable : run.table.step (.setupAndRecover false (.error err)) = some table) :
      Step run (.create builderErr openErr closeErr)
        { run with table := table, phase := .loading, st := st }
  | creates {builderErr openErr closeErr : Option String} {st : StorageStatus}
      (hphase : run.phase = .ready)
      (hcreate : createStorage builderErr openErr closeErr run.table.cancelled = (st, .ok ())) :
      Step run (.create builderErr openErr closeErr) { run with phase := .created, st := st }
  | enters {table : PartitionTable} (hphase : run.phase = .created)
      (htable : run.table.step (.setupAndRecover false (.ok ())) = some table) :
      Step run .enter { run with table := table, phase := .loading }
  | event {e : PartitionTable.Event} {table : PartitionTable} (hphase : run.phase = .loading)
      (hwithin : e.within = true) (htable : run.table.step e = some table) :
      Step run (.event e) { run with table := table }

theorem step_cases {action : Action} (h : run.step action = some run') : Step run action run' := by
  cases action with
  | create builderErr openErr closeErr =>
      obtain ⟨hphase, h⟩ := Option.ite_none_right_eq_some.mp h
      split at h
      · next hcreate =>
          obtain ⟨table, htable, rfl⟩ := Option.map_eq_some_iff.mp h
          exact .createFails hphase hcreate htable
      · next hcreate =>
          obtain rfl := Option.some.inj h
          exact .creates hphase hcreate
  | enter =>
      obtain ⟨hphase, h⟩ := Option.ite_none_right_eq_some.mp h
      obtain ⟨table, htable, rfl⟩ := Option.map_eq_some_iff.mp h
      exact .enters hphase htable
  | event e =>
      obtain ⟨⟨hphase, hwithin⟩, h⟩ := Option.ite_none_right_eq_some.mp h
      obtain ⟨table, htable, rfl⟩ := Option.map_eq_some_iff.mp h
      exact .event hphase hwithin htable

theorem topic_step {action : Action} (h : run.step action = some run') :
    run'.table.topic = run.table.topic := by
  cases step_cases h with
  | creates => rfl
  | createFails hphase hcreate htable => exact PartitionTable.topic_step htable
  | enters hphase htable => exact PartitionTable.topic_step htable
  | event hphase hwithin htable => exact PartitionTable.topic_step htable

structure Recovered (run : TableRun) : Prop where
  returned : run.phase = .returned
  noError : run.table.errs = []
  running : run.table.state = .running

def Sound (run : TableRun) : Prop :=
  match run.phase with
  | .ready | .created => run.table.cancelled = false ∧ run.table.restartOnError = false
  | .loading => run.table.Recovering
  | .returned | .closed => run.table.errs = [] ∧ run.table.state = .running

theorem sound_new (topic : String) (partition : Int) (log : TopicLog) (held : Bool) :
    Sound (new topic partition log held) :=
  ⟨rfl, rfl⟩

theorem Sound.ready (h : Sound run) (hphase : run.phase = .ready) :
    run.table.cancelled = false ∧ run.table.restartOnError = false := by
  rwa [Sound, hphase] at h

theorem Sound.created (h : Sound run) (hphase : run.phase = .created) :
    run.table.cancelled = false ∧ run.table.restartOnError = false := by
  rwa [Sound, hphase] at h

theorem Sound.loading (h : Sound run) (hphase : run.phase = .loading) : run.table.Recovering := by
  rwa [Sound, hphase] at h

theorem Sound.returned (h : Sound run) (hphase : run.phase = .returned) :
    run.table.errs = [] ∧ run.table.state = .running := by
  rwa [Sound, hphase] at h

/-- A cancellation does not come to a table that is back. -/
theorem Sound.cancel (h : Sound run) (hback : run.phase = .returned ∨ run.phase = .closed) :
    Sound run.cancel := by
  have hphase : run.cancel.phase = run.phase := rfl
  unfold Sound at h ⊢
  rw [hphase]
  rcases hback with hback | hback <;> rwa [hback] at h ⊢

/-- The events of a load are left to `recovering_step`. -/
theorem sound_step {action : Action} (h : Sound run) (hstep : run.step action = some run') :
    Sound run' := by
  cases step_cases hstep with
  | createFails hphase hcreate htable =>
      obtain ⟨huncancelled, hrestart⟩ := h.ready hphase
      cases PartitionTable.step_cases htable with
      | createFails hpc =>
          refine ⟨huncancelled, hrestart, ?_, fun hbusy => absurd hpc hbusy, fun _ herrs => ?_⟩
          · exact fun hbackoff => Pc.noConfusion (hpc.symm.trans hbackoff)
          · exact absurd herrs (List.cons_ne_nil _ _)
  | creates hphase hcreate => exact h.ready hphase
  | enters hphase htable =>
      obtain ⟨huncancelled, -⟩ := h.created hphase
      obtain ⟨-, rfl⟩ := guard_eq_some.mp htable
      dsimp only
      rw [Sound, if_neg (Bool.eq_false_iff.mp huncancelled)]
      refine ⟨huncancelled, rfl, Pc.noConfusion, fun _ => rfl, fun hleft => ?_⟩
      exact hleft.elim Pc.noConfusion Pc.noConfusion
  | event hphase hwithin htable =>
      have hrecovering := PartitionTable.recovering_step (h.loading hphase) hwithin htable
      rwa [Sound, hphase]

end TableRun

/-! ### The processor -/

namespace PartProc

variable {pp pp' : PartProc}

inductive Step (pp : PartProc) : Action → PartProc → Prop where
  | starts (hpc : pp.pc = .created) :
      Step pp .start { pp with state := .recovering, pc := .recovering }
  | table {i : Nat} {action : TableRun.Action} {run run' : TableRun} (hpc : pp.pc = .recovering)
      (hrun : pp.tables[i]? = some run) (htable : run.step action = some run') :
      Step pp (.table i action) { pp with tables := pp.tables.set i run' }
  | returns {i : Nat} {run : TableRun} (hpc : pp.pc = .recovering) (hrun : pp.tables[i]? = some run)
      (hphase : run.phase = .loading) (hidle : run.table.pc = .idle) (herrs : run.table.errs = []) :
      Step pp (.returns i) { pp with tables := pp.tables.set i { run with phase := .returned } }
  | fails {i : Nat} {run : TableRun} (hpc : pp.pc = .recovering) (hrun : pp.tables[i]? = some run)
      (hphase : run.phase = .loading) (herrs : run.table.errs ≠ []) (text : String) :
      Step pp (.returns i) { pp with
        tables := (pp.tables.set i { run with phase := .returned }).map TableRun.cancel
        setupErrs := pp.setupErrs ++ [text] }
  | waits (hpc : pp.pc = .recovering) (hback : ∀ run ∈ pp.tables, run.phase = .returned) :
      Step pp .wait { pp with state := .running, pc := .returned pp.exit }
  | stops {exit : StartExit} (hpc : pp.pc = .returned exit) :
      Step pp .stop { pp.cancel with state := .stopping, pc := .stopping }
  | closes {i : Nat} {run : TableRun} (hpc : pp.pc = .stopping) (hrun : pp.tables[i]? = some run)
      (hphase : run.phase = .returned) (hst : run.st = .opened) (err : Option String) :
      Step pp (.closeTable i err) { pp with
        tables := pp.tables.set i { run with phase := .closed, st := .closed }
        closeErrs := pp.closeErrs ++ err.toList }
  | closesNothing {i : Nat} {run : TableRun} (hpc : pp.pc = .stopping)
      (hrun : pp.tables[i]? = some run) (hphase : run.phase = .returned) (hst : run.st ≠ .opened)
      (err : Option String) :
      Step pp (.closeTable i err) { pp with
        tables := pp.tables.set i { run with phase := .closed } }
  | stopReturns (hpc : pp.pc = .stopping)
      (hclosed : ∀ run ∈ pp.tables, run.held = true → run.phase = .closed) :
      Step pp .stopReturns { pp with
        state := .idle
        pc := .stopped (if pp.closeErrs = [] then none else some (errorsText pp.closeErrs)) }
  | cancels : Step pp .cancel pp.cancel

theorem table_cases {i : Nat} {action : TableRun.Action} (h : pp.table i action = some pp') :
    Step pp (.table i action) pp' := by
  obtain ⟨hpc, h⟩ := Option.ite_none_right_eq_some.mp h
  split at h
  · cases h
  · next run hrun =>
      obtain ⟨run', hstep, rfl⟩ := Option.map_eq_some_iff.mp h
      exact .table hpc hrun hstep

theorem returns_cases {i : Nat} (h : pp.returns i = some pp') : Step pp (.returns i) pp' := by
  obtain ⟨hpc, h⟩ := Option.ite_none_right_eq_some.mp h
  split at h
  · cases h
  · next run hrun =>
      obtain ⟨⟨hphase, hidle⟩, h⟩ := Option.ite_none_right_eq_some.mp h
      split at h
      · next herrs =>
          obtain rfl := Option.some.inj h
          exact .returns hpc hrun hphase hidle herrs
      · next herrs =>
          obtain rfl := Option.some.inj h
          exact .fails hpc hrun hphase herrs _

theorem stop_cases (h : pp.stop = some pp') : Step pp .stop pp' := by
  unfold stop at h
  split at h
  · cases h
  · next exit _ hpc =>
      obtain rfl := Option.some.inj h
      exact .stops hpc
  · cases h

theorem closeTable_cases {i : Nat} {err : Option String} (h : pp.closeTable i err = some pp') :
    Step pp (.closeTable i err) pp' := by
  obtain ⟨hpc, h⟩ := Option.ite_none_right_eq_some.mp h
  split at h
  · cases h
  · next run hrun =>
      obtain ⟨⟨hphase, -⟩, h⟩ := Option.ite_none_right_eq_some.mp h
      split at h
      · next hst =>
          obtain rfl := Option.some.inj h
          exact .closes hpc hrun hphase hst err
      · next hst =>
          obtain rfl := Option.some.inj h
          exact .closesNothing hpc hrun hphase hst err

theorem step_cases {action : Action} (h : pp.step action = some pp') : Step pp action pp' := by
  cases action with
  | start =>
      obtain ⟨hpc, rfl⟩ := guard_eq_some.mp h
      exact .starts hpc
  | table i action => exact table_cases h
  | returns i => exact returns_cases h
  | wait =>
      obtain ⟨⟨hpc, hback⟩, rfl⟩ := guard_eq_some.mp h
      exact .waits hpc hback
  | stop => exact stop_cases h
  | closeTable i err => exact closeTable_cases h
  | stopReturns =>
      obtain ⟨⟨hpc, hclosed⟩, rfl⟩ := guard_eq_some.mp h
      exact .stopReturns hpc hclosed
  | cancel =>
      obtain rfl := Option.some.inj h
      exact .cancels

def topics (pp : PartProc) : List String := pp.tables.map fun run => run.table.topic

theorem topics_cancel (tables : List TableRun) :
    ((tables.map TableRun.cancel).map fun run => run.table.topic)
      = tables.map fun run => run.table.topic := by
  rw [List.map_map]
  rfl

theorem topics_step {action : Action} (hstep : pp.step action = some pp') :
    pp'.topics = pp.topics := by
  cases step_cases hstep with
  | table hpc hrun htable => exact Threads.map_set_of_eq hrun (TableRun.topic_step htable)
  | returns hpc hrun | closes hpc hrun | closesNothing hpc hrun =>
      exact Threads.map_set_of_eq hrun rfl
  | fails hpc hrun => exact (topics_cancel _).trans (Threads.map_set_of_eq hrun rfl)
  | stops | cancels => exact topics_cancel _
  | _ => rfl

theorem partition_step {action : Action} (hstep : pp.step action = some pp') :
    pp'.partition = pp.partition := by
  cases step_cases hstep <;> rfl

theorem topics_joinTables (partition : Int) (joins : List (String × TopicLog)) :
    (joinTables partition joins).map (fun run => run.table.topic) = joins.map Prod.fst := by
  induction joins with
  | nil => rfl
  | cons entry rest ih => exact congrArg (entry.1 :: ·) ih

theorem topics_new (partition : Int) (runMode : PPRunMode) (groupTable : Option (String × TopicLog))
    (joins : List (String × TopicLog)) :
    (new partition runMode groupTable joins).topics
      = (groupTable.toList ++ joins).map Prod.fst := by
  rw [topics, new, List.map_append, topics_joinTables, List.map_map, List.map_append]
  rfl

/-! ### Undisturbed starts -/

/-- No table fails, and the context is not cancelled before `SetupAndRecover` of every table has
returned. -/
def Undisturbed (pp : PartProc) : Action → Prop
  | .returns i => ∀ run ∈ pp.tables[i]?, run.table.errs = []
  | .cancel => ∀ run ∈ pp.tables, run.phase = .returned ∨ run.phase = .closed
  | _ => True

instance decidableUndisturbed (pp : PartProc) : DecidablePred pp.Undisturbed
  | .returns i => inferInstanceAs (Decidable (∀ run ∈ pp.tables[i]?, run.table.errs = []))
  | .cancel =>
      inferInstanceAs (Decidable (∀ run ∈ pp.tables, run.phase = .returned ∨ run.phase = .closed))
  | .start | .table _ _ | .wait | .stop | .closeTable _ _ | .stopReturns =>
      inferInstanceAs (Decidable True)

theorem mem_joinTables {partition : Int} {joins : List (String × TopicLog)} {run : TableRun}
    (h : run ∈ joinTables partition joins) :
    ∃ topic log held, run = .new topic partition log held := by
  induction joins with
  | nil => exact absurd h List.not_mem_nil
  | cons entry rest ih =>
      rcases List.mem_cons.mp h with rfl | h
      · exact ⟨_, _, _, rfl⟩
      · exact ih h

theorem mem_tables_new {partition : Int} {runMode : PPRunMode}
    {groupTable : Option (String × TopicLog)} {joins : List (String × TopicLog)} {run : TableRun}
    (h : run ∈ (new partition runMode groupTable joins).tables) :
    ∃ topic log held, run = .new topic partition log held := by
  rcases List.mem_append.mp h with h | h
  · obtain ⟨entry, -, rfl⟩ := List.mem_map.mp h
    exact ⟨_, _, _, rfl⟩
  · exact mem_joinTables h

structure Inv (pp : PartProc) : Prop where
  sound : ∀ run ∈ pp.tables, run.Sound
  running : pp.state = .running ↔ ∃ exit, pp.pc = .returned exit
  back : ∀ exit, pp.pc = .returned exit → ∀ run ∈ pp.tables, run.phase = .returned

theorem Inv.of_outside (hsound : ∀ run ∈ pp.tables, run.Sound) (hstate : pp.state ≠ .running)
    (hpc : ∀ exit, pp.pc ≠ .returned exit) : Inv pp where
  sound := hsound
  running := iff_of_false hstate fun ⟨exit, hreturned⟩ => hpc exit hreturned
  back := fun exit hreturned => absurd hreturned (hpc exit)

theorem inv_new (partition : Int) (runMode : PPRunMode) (groupTable : Option (String × TopicLog))
    (joins : List (String × TopicLog)) : Inv (new partition runMode groupTable joins) := by
  refine .of_outside (fun run hrun => ?_) PPState.noConfusion fun _ => StartPc.noConfusion
  obtain ⟨topic, log, held, rfl⟩ := mem_tables_new hrun
  exact TableRun.sound_new _ _ _ _

theorem sound_cancel {tables : List TableRun} (h : ∀ run ∈ tables, run.Sound)
    (hback : ∀ run ∈ tables, run.phase = .returned ∨ run.phase = .closed) :
    ∀ run ∈ tables.map TableRun.cancel, run.Sound := by
  intro run hrun
  obtain ⟨run, hmem, rfl⟩ := List.mem_map.mp hrun
  exact (h run hmem).cancel (hback run hmem)

/-- A table moves on while `Start` waits or `Stop` closes. -/
theorem Inv.move (h : Inv pp) (hpc : ∀ exit, pp.pc ≠ .returned exit) {run : TableRun}
    (hrun : run.Sound) (i : Nat) (closeErrs : List String) :
    Inv { pp with tables := pp.tables.set i run, closeErrs := closeErrs } where
  sound := Threads.forall_mem_set h.sound hrun
  running := h.running
  back := fun exit hreturned => absurd hreturned (hpc exit)

theorem Inv.cancel (h : Inv pp)
    (hback : ∀ run ∈ pp.tables, run.phase = .returned ∨ run.phase = .closed) :
    Inv pp.cancel where
  sound := sound_cancel h.sound hback
  running := h.running
  back := by
    intro exit hpc run hrun
    obtain ⟨run, hmem, rfl⟩ := List.mem_map.mp hrun
    exact h.back exit hpc run hmem

/-- `Start` waits for all tables before it sets the state. -/
theorem inv_step {action : Action} (h : Inv pp) (hundisturbed : Undisturbed pp action)
    (hstep : pp.step action = some pp') : Inv pp' := by
  have hrecovering : pp.pc = .recovering → ∀ exit, pp.pc ≠ .returned exit :=
    fun hpc exit hreturned => StartPc.noConfusion (hpc.symm.trans hreturned)
  have hstopping : pp.pc = .stopping → ∀ exit, pp.pc ≠ .returned exit :=
    fun hpc exit hreturned => StartPc.noConfusion (hpc.symm.trans hreturned)
  cases step_cases hstep with
  | starts hpc => exact .of_outside h.sound PPState.noConfusion fun _ => StartPc.noConfusion
  | table hpc hrun htable =>
      have hsound := TableRun.sound_step (h.sound _ (List.mem_of_getElem? hrun)) htable
      exact h.move (hrecovering hpc) hsound _ _
  | returns hpc hrun hphase hidle herrs =>
      have hloading := (h.sound _ (List.mem_of_getElem? hrun)).loading hphase
      refine h.move (hrecovering hpc) ?_ _ _
      exact ⟨herrs, hloading.recovered (.inl hidle) herrs⟩
  | fails hpc hrun hphase herrs text => exact absurd (hundisturbed _ hrun) herrs
  | waits hpc hback => exact ⟨h.sound, iff_of_true rfl ⟨_, rfl⟩, fun _ _ => hback⟩
  | stops hpc =>
      have hback := h.back _ hpc
      have hsound := sound_cancel h.sound fun run hrun => .inl (hback run hrun)
      exact .of_outside hsound PPState.noConfusion fun _ => StartPc.noConfusion
  | closes hpc hrun hphase hst err =>
      refine h.move (hstopping hpc) ?_ _ _
      exact (h.sound _ (List.mem_of_getElem? hrun)).returned hphase
  | closesNothing hpc hrun hphase hst err =>
      refine h.move (hstopping hpc) ?_ _ _
      exact (h.sound _ (List.mem_of_getElem? hrun)).returned hphase
  | stopReturns hpc hclosed =>
      exact .of_outside h.sound PPState.noConfusion fun _ => StartPc.noConfusion
  | cancels => exact h.cancel hundisturbed

/-- The group table and all joins have recovered. -/
def Recovered (topics : List String) (pp : PartProc) : Prop :=
  pp.topics = topics ∧ ∀ run ∈ pp.tables, run.Recovered

theorem Inv.recovered (h : Inv pp) (hrunning : pp.state = .running) : Recovered pp.topics pp := by
  obtain ⟨exit, hpc⟩ := h.running.mp hrunning
  refine ⟨rfl, fun run hrun => ?_⟩
  have hphase := h.back exit hpc run hrun
  obtain ⟨herrs, hstate⟩ := (h.sound run hrun).returned hphase
  exact ⟨hphase, herrs, hstate⟩

end PartProc

end Goka

import Goka.Library.Progress
import Goka.Proof.RecoverAhead
import Goka.Sessions

/-!
# What one session leaves to the next

`Cleanup` leaves no processor registered, no runner going and no storage open. So every session
finds the map of the processors empty, registers each of its partitions once, and no storage is ever
open twice.
-/

namespace Goka

open Schedule Processor

/-! ### A processor from its creation to the end of its `Stop` -/

theorem TableRun.phase_step {run run' : TableRun} {action : TableRun.Action}
    (h : run.step action = some run') : run'.phase ≠ .ready := by
  cases TableRun.step_cases h with
  | createFails | creates | enters => exact TablePhase.noConfusion
  | event hphase => exact fun hready => TablePhase.noConfusion (hphase.symm.trans hready)

namespace PartProc

variable {pp pp' : PartProc} {topics : List String}

structure Orderly (topics : List String) (pp : PartProc) : Prop where
  tidy : pp.Tidy
  topics_eq : pp.topics = topics
  unset : ∀ run ∈ pp.tables, run.phase = .ready → run.st ≠ .opened
  ready : pp.pc = .created → ∀ run ∈ pp.tables, run.phase = .ready
  back : ∀ exit, pp.pc = .returned exit → ∀ run ∈ pp.tables, run.phase = .returned
  stopping : pp.pc = .stopping → ∀ run ∈ pp.tables,
    run.phase = .ready ∨ run.phase = .returned ∨ run.phase = .closed

theorem orderly_new (partition : Int) (runMode : PPRunMode)
    (groupTable : Option (String × TopicLog)) {joins : List (String × TopicLog)}
    (hnodup : (joins.map Prod.fst).Nodup) :
    Orderly ((groupTable.toList ++ joins).map Prod.fst)
      (new partition runMode groupTable joins) where
  tidy := tidy_new partition runMode groupTable hnodup
  topics_eq := topics_new partition runMode groupTable joins
  unset := by
    intro run hrun _
    obtain ⟨topic, log, held, rfl⟩ := mem_tables_new hrun
    exact StorageStatus.noConfusion
  ready := by
    intro _ run hrun
    obtain ⟨topic, log, held, rfl⟩ := mem_tables_new hrun
    rfl
  back := fun _ hpc => StartPc.noConfusion hpc
  stopping := fun hpc => StartPc.noConfusion hpc

/-- While `Start` is going on there is nothing to say about the tables. -/
theorem Orderly.of_recovering (htidy : pp.Tidy) (htopics : pp.topics = topics)
    (hunset : ∀ run ∈ pp.tables, run.phase = .ready → run.st ≠ .opened)
    (hpc : pp.pc = .recovering) :
    Orderly topics pp where
  tidy := htidy
  topics_eq := htopics
  unset := hunset
  ready := fun h => StartPc.noConfusion (hpc.symm.trans h)
  back := fun _ h => StartPc.noConfusion (hpc.symm.trans h)
  stopping := fun h => StartPc.noConfusion (hpc.symm.trans h)

theorem Orderly.of_stopping (htidy : pp.Tidy) (htopics : pp.topics = topics)
    (hunset : ∀ run ∈ pp.tables, run.phase = .ready → run.st ≠ .opened) (hpc : pp.pc = .stopping)
    (hphases : ∀ run ∈ pp.tables, run.phase = .ready ∨ run.phase = .returned ∨
      run.phase = .closed) :
    Orderly topics pp where
  tidy := htidy
  topics_eq := htopics
  unset := hunset
  ready := fun h => StartPc.noConfusion (hpc.symm.trans h)
  back := fun _ h => StartPc.noConfusion (hpc.symm.trans h)
  stopping := fun _ => hphases

theorem Orderly.cancel (h : Orderly topics pp) : Orderly topics pp.cancel where
  tidy := h.tidy.cancel
  topics_eq := (topics_cancel _).trans h.topics_eq
  unset := List.forall_mem_map.mpr h.unset
  ready := fun hpc => List.forall_mem_map.mpr (h.ready hpc)
  back := fun exit hpc => List.forall_mem_map.mpr (h.back exit hpc)
  stopping := fun hpc => List.forall_mem_map.mpr (h.stopping hpc)

/-- `Start` and `Stop` take each table through its phases. -/
theorem orderly_step {action : Action} (h : Orderly topics pp) (hstep : pp.step action = some pp') :
    Orderly topics pp' := by
  have htidy := tidy_step h.tidy hstep
  have htopics := (topics_step hstep).trans h.topics_eq
  have hreturned : ∀ (i : Nat) (run : TableRun),
      ∀ run' ∈ pp.tables.set i { run with phase := .returned },
      run'.phase = .ready → run'.st ≠ .opened := fun i run =>
    Threads.forall_mem_set h.unset fun hready => TablePhase.noConfusion hready
  have hclosed : ∀ (i : Nat) (run : TableRun), run.phase = .closed →
      ∀ run' ∈ pp.tables.set i run, run'.phase = .ready → run'.st ≠ .opened := fun i run hphase =>
    Threads.forall_mem_set h.unset fun hready => TablePhase.noConfusion (hphase.symm.trans hready)
  cases step_cases hstep with
  | starts => exact .of_recovering htidy htopics h.unset rfl
  | table hpc hrun htable =>
      refine .of_recovering htidy htopics (Threads.forall_mem_set h.unset fun hready => ?_) hpc
      exact absurd hready (TableRun.phase_step htable)
  | returns hpc => exact .of_recovering htidy htopics (hreturned _ _) hpc
  | fails hpc => exact .of_recovering htidy htopics (List.forall_mem_map.mpr (hreturned _ _)) hpc
  | waits hpc hback =>
      exact ⟨htidy, htopics, h.unset, fun hpc => StartPc.noConfusion hpc, fun _ _ => hback,
        fun hpc => StartPc.noConfusion hpc⟩
  | stops hpc =>
      refine .of_stopping htidy htopics (List.forall_mem_map.mpr h.unset) rfl
        (List.forall_mem_map.mpr fun run hrun => ?_)
      exact .inr (.inl (h.back _ hpc run hrun))
  | closes hpc | closesNothing hpc =>
      refine .of_stopping htidy htopics (hclosed _ _ rfl) hpc
        (Threads.forall_mem_set (h.stopping hpc) ?_)
      exact .inr (.inr rfl)
  | stopReturns hpc =>
      exact ⟨htidy, htopics, h.unset, fun hpc => StartPc.noConfusion hpc,
        fun _ hpc => StartPc.noConfusion hpc, fun hpc => StartPc.noConfusion hpc⟩
  | cancels => exact h.cancel

theorem beginStop_cases (hstep : pp.beginStop = some pp') :
    (pp.pc = .created ∨ ∃ exit, pp.pc = .returned exit) ∧
      pp' = { pp.cancel with state := .stopping, pc := .stopping } := by
  unfold beginStop at hstep
  split at hstep
  · next hpc => exact ⟨.inl hpc, (Option.some.inj hstep).symm⟩
  · next exit hpc => exact ⟨.inr ⟨exit, hpc⟩, (Option.some.inj hstep).symm⟩
  · cases hstep

theorem orderly_beginStop (h : Orderly topics pp) (hstep : pp.beginStop = some pp') :
    Orderly topics pp' := by
  obtain ⟨hpc, rfl⟩ := beginStop_cases hstep
  refine .of_stopping ⟨h.tidy.cancel.held, h.tidy.cancel.closed,
    fun _ hpc => StartPc.noConfusion hpc⟩ ?_
    (List.forall_mem_map.mpr h.unset) rfl (List.forall_mem_map.mpr fun run hrun => ?_)
  · exact (topics_cancel _).trans h.topics_eq
  · rcases hpc with hpc | ⟨exit, hpc⟩
    · exact .inl (h.ready hpc run hrun)
    · exact .inr (.inl (h.back exit hpc run hrun))

/-- One table is closed, and nothing else changes. -/
theorem closeAny_cases {j : Nat} {err : Option String} (hstep : pp.closeAny j err = some pp') :
    pp.pc = .stopping ∧ ∃ run run', pp.tables[j]? = some run ∧ run'.table = run.table ∧
      run.phase ≠ .closed ∧ run'.phase = .closed ∧ run'.held = run.held ∧
      (run'.st = .closed ∨ run'.st = run.st ∧ (run.phase = .ready ∨ run.st ≠ .opened)) ∧
      ∃ closeErrs, pp' = { pp with tables := pp.tables.set j run', closeErrs := closeErrs } := by
  unfold closeAny at hstep
  split at hstep
  · cases hstep
  · next run hrun =>
      split at hstep
      · next hready =>
          obtain ⟨hpc, rfl⟩ := guard_eq_some.mp hstep
          refine ⟨hpc, run, { run with phase := .closed }, hrun, rfl, ?_, rfl, rfl,
            .inr ⟨rfl, .inl hready⟩, _, rfl⟩
          rw [hready]
          exact TablePhase.noConfusion
      · have hclose : pp.step (.closeTable j err) = some pp' := hstep
        cases step_cases hclose with
        | @closes _ run' hpc hrun' hback =>
            refine ⟨hpc, run', { run' with phase := .closed, st := .closed }, hrun', rfl, ?_, rfl,
              rfl, .inl rfl, _, rfl⟩
            rw [hback]
            exact TablePhase.noConfusion
        | @closesNothing _ run' hpc hrun' hback hst =>
            refine ⟨hpc, run', { run' with phase := .closed }, hrun', rfl, ?_, rfl, rfl,
              .inr ⟨rfl, .inr hst⟩, _, rfl⟩
            rw [hback]
            exact TablePhase.noConfusion

theorem orderly_closeAny {j : Nat} {err : Option String} (h : Orderly topics pp)
    (hstep : pp.closeAny j err = some pp') : Orderly topics pp' := by
  obtain ⟨hpc, run, run', hrun, htable, -, hclosed, hheld, hst, closeErrs, rfl⟩ :=
    closeAny_cases hstep
  have hstopped : ∀ err, pp.pc ≠ .stopped err :=
    fun err hstopped => StartPc.noConfusion (hpc.symm.trans hstopped)
  have hst' : run'.st ≠ .opened := by
    rcases hst with hst | ⟨hst, hready | hunopened⟩
    · rw [hst]
      exact StorageStatus.noConfusion
    · rw [hst]
      exact h.unset run (List.mem_of_getElem? hrun) hready
    · rw [hst]
      exact hunopened
  refine .of_stopping ?_ ?_ ?_ hpc ?_
  · exact h.tidy.move hstopped hrun hheld (fun _ => hst') _ _
  · refine Eq.trans ?_ h.topics_eq
    exact Threads.map_set_of_eq hrun (congrArg _ htable)
  · exact Threads.forall_mem_set h.unset fun _ => hst'
  · exact Threads.forall_mem_set (h.stopping hpc) (.inr (.inr hclosed))

/-- Within `Start` the processor recovers. -/
theorem pc_of_inStart {action : Action} (hstart : SessionSetup.inStart action = true)
    (hstep : pp.step action = some pp') : pp'.pc = .recovering := by
  cases step_cases hstep with
  | starts => rfl
  | table hpc | returns hpc | fails hpc => exact hpc
  | waits | stops | closes | closesNothing | stopReturns | cancels => cases hstart

theorem runMode_step {action : Action} (hstep : pp.step action = some pp') :
    pp'.runMode = pp.runMode := by
  cases step_cases hstep <;> rfl

end PartProc

/-! ### What a session registers -/

namespace SessionSetup

variable {Codec Callback : Type} {cfg : GroupConfig Codec Callback} {session : Session}

structure Adds (cfg : GroupConfig Codec Callback) (session : Session) (runMode : PPRunMode)
    (wanted : List Int) (before : List PartProc) (added : List Int)
    (result : List PartProc × Option String) : Prop where
  eq : result.1 = before ++
    added.map fun partition => newPartitionProcessor cfg session.log partition runMode
  sub : added ⊆ wanted
  nodup : (before.map PartProc.partition ++ added).Nodup
  all : result.2 = none → ∀ partition ∈ wanted, partition ∈ before.map PartProc.partition ++ added

/-- A partition that is registered already is skipped, so none is added twice. -/
theorem createAll_adds (cfg : GroupConfig Codec Callback) (session : Session) (runMode : PPRunMode)
    (wanted : List Int) (before : List PartProc) (hnodup : (before.map PartProc.partition).Nodup) :
    ∃ added, Adds cfg session runMode wanted before added
      (createAll cfg session runMode wanted before) := by
  induction wanted generalizing before with
  | nil =>
      refine ⟨[], by simp [createAll], fun _ h => h, by simpa using hnodup, fun _ partition h => ?_⟩
      exact absurd h List.not_mem_nil
  | cons partition rest ih =>
      rw [createAll]
      split
      · next hskip =>
          obtain ⟨added, heq, hsub, hdistinct, hall⟩ := ih before hnodup
          refine ⟨added, heq, fun p hp => List.mem_cons_of_mem _ (hsub hp), hdistinct,
            fun hok => ?_⟩
          refine List.forall_mem_cons.mpr ⟨?_, hall hok⟩
          exact List.mem_append_left _ (hasPartProc_iff.mp hskip.2)
      · split
        · refine ⟨[], by simp, List.nil_subset _, by simpa using hnodup, fun herr => ?_⟩
          exact absurd herr (Option.some_ne_none _)
        · next pproc hcreate =>
            have habsent : partition ∉ before.map PartProc.partition := by
              intro hmem
              unfold createPartitionProcessor at hcreate
              rw [if_pos (hasPartProc_iff.mpr hmem)] at hcreate
              cases hcreate
            obtain rfl := createPartitionProcessor_eq_ok hcreate
            have hmap : (before ++
              [newPartitionProcessor cfg session.log partition runMode]).map PartProc.partition
                = before.map PartProc.partition ++ [partition] := by
              rw [List.map_append]
              rfl
            have hnodup' : ((before ++
              [newPartitionProcessor cfg session.log partition runMode]).map
                PartProc.partition).Nodup := by
              rw [hmap]
              exact hnodup.append (List.nodup_singleton _) (by simpa using habsent)
            obtain ⟨added, heq, hsub, hdistinct, hall⟩ := ih _ hnodup'
            rw [hmap, List.append_assoc, List.singleton_append] at hdistinct hall
            refine ⟨partition :: added, ?_, ?_, hdistinct, fun hok => ?_⟩
            · rw [heq, List.append_assoc, List.map_cons, List.singleton_append]
            · exact List.cons_subset_cons _ hsub
            · refine List.forall_mem_cons.mpr ⟨?_, hall hok⟩
              exact List.mem_append_right _ List.mem_cons_self

def modes (partitions : List PartProc) : List (Int × PPRunMode) :=
  partitions.map fun pproc => (pproc.partition, pproc.runMode)

theorem modes_new (added : List Int) (runMode : PPRunMode) :
    modes (added.map fun partition => newPartitionProcessor cfg session.log partition runMode)
      = added.map fun partition => (partition, runMode) := by
  rw [modes, List.map_map]
  rfl

theorem map_fst_modes (partitions : List PartProc) :
    (modes partitions).map Prod.fst = partitions.map PartProc.partition := by
  rw [modes, List.map_map]
  rfl

/-- The partitions of a session, each once: those assigned are active, and with hot standbys the
other stateful ones are passive. -/
structure Registered (cfg : GroupConfig Codec Callback) (session : Session)
    (modes : List (Int × PPRunMode)) : Prop where
  once : (modes.map Prod.fst).Nodup
  active : ∃ assignment, assignmentFromSession session.claims = .ok assignment ∧
    ∀ partition, (partition, PPRunMode.active) ∈ modes ↔
      partition ∈ Assignment.assignedPartitions assignment
  passive : ∀ partition, (partition, PPRunMode.passive) ∈ modes ↔
    cfg.hotStandby = true ∧ (partition, PPRunMode.active) ∉ modes ∧
      ∃ all, findStatefulPartitions cfg.graph session.partitions = .ok all ∧ partition ∈ all
  recoverOnly : ∀ partition, (partition, PPRunMode.recoverOnly) ∉ modes

theorem registered_of_added {assignment : Option Assignment} (active passive : List Int)
    (hassignment : assignmentFromSession session.claims = .ok assignment)
    (hnodup : (active ++ passive).Nodup)
    (hactive : ∀ partition, partition ∈ active ↔
      partition ∈ Assignment.assignedPartitions assignment)
    (hpassive : ∀ partition, partition ∈ passive ↔ cfg.hotStandby = true ∧ partition ∉ active ∧
      ∃ all, findStatefulPartitions cfg.graph session.partitions = .ok all ∧ partition ∈ all) :
    Registered cfg session ((active.map fun partition => (partition, PPRunMode.active)) ++
      passive.map fun partition => (partition, PPRunMode.passive)) where
  once := by simpa [Function.comp_def] using hnodup
  active := ⟨assignment, hassignment, by simpa using hactive⟩
  passive := by simpa using hpassive
  recoverOnly := by simp

structure CreatedFor (cfg : GroupConfig Codec Callback) (session : Session)
    (result : List PartProc × Option String) : Prop where
  new : ∀ pproc ∈ result.1, ∃ partition runMode,
    pproc = newPartitionProcessor cfg session.log partition runMode
  distinct : (result.1.map PartProc.partition).Nodup
  registered : result.2 = none → Registered cfg session (modes result.1)

/-- Even where one cannot be created, those before it stay registered. -/
theorem createProcessors_created (cfg : GroupConfig Codec Callback) (session : Session) :
    CreatedFor cfg session (createProcessors cfg session []) := by
  have hnew : ∀ {added : List Int} {runMode : PPRunMode},
      ∀ pproc ∈ added.map fun partition => newPartitionProcessor cfg session.log partition runMode,
        ∃ partition runMode, pproc = newPartitionProcessor cfg session.log partition runMode :=
    fun {_ runMode} => List.forall_mem_map.mpr fun partition _ => ⟨partition, runMode, rfl⟩
  have hmap : ∀ (added : List Int) (runMode : PPRunMode),
      (added.map fun partition => newPartitionProcessor cfg session.log partition runMode).map
        PartProc.partition = added := by
    intro added runMode
    rw [List.map_map]
    exact List.map_id _
  rw [createProcessors]
  split
  · exact ⟨fun _ h => absurd h List.not_mem_nil, List.nodup_nil,
      fun h => absurd h (Option.some_ne_none _)⟩
  · next assignment hassignment =>
      obtain ⟨active, heq, hsub, hdistinct, hall⟩ := createAll_adds cfg session .active
        (Assignment.assignedPartitions assignment) [] List.nodup_nil
      rw [List.nil_append] at heq
      rw [List.map_nil, List.nil_append] at hdistinct hall
      split
      · next partitions err hcreate =>
          rw [hcreate] at heq
          obtain rfl : partitions = _ := heq
          exact ⟨hnew, by rwa [hmap], fun h => absurd h (Option.some_ne_none _)⟩
      · next partitions hcreate =>
          rw [hcreate] at heq hall
          obtain rfl : partitions = _ := heq
          have hactive : ∀ partition, partition ∈ active ↔
              partition ∈ Assignment.assignedPartitions assignment :=
            fun partition => ⟨fun h => hsub h, hall rfl partition⟩
          split
          · next hstandby =>
              split
              · exact ⟨hnew, by rwa [hmap], fun h => absurd h (Option.some_ne_none _)⟩
              · next all hfind =>
                  obtain ⟨passive, heq', hsub', hdistinct', hall'⟩ :=
                    createAll_adds cfg session .passive all
                    (active.map fun partition =>
                      newPartitionProcessor cfg session.log partition .active) (by rwa [hmap])
                  rw [hmap] at hdistinct' hall'
                  refine ⟨?_, ?_, fun hok => ?_⟩
                  · rw [heq']
                    exact List.forall_mem_append.mpr ⟨hnew, hnew⟩
                  · rw [heq', List.map_append, hmap, hmap]
                    exact hdistinct'
                  · rw [heq', modes, List.map_append]
                    rw [← modes, ← modes, modes_new, modes_new]
                    refine registered_of_added _ _ hassignment hdistinct' hactive fun partition =>
                      ⟨fun h => ?_, ?_⟩
                    · refine ⟨hstandby, fun hmem => ?_, all, hfind, hsub' h⟩
                      exact (List.nodup_append.mp hdistinct').2.2 partition hmem partition h rfl
                    · rintro ⟨-, hnot, all', hfind', hmem⟩
                      obtain rfl := Except.ok.inj (hfind.symm.trans hfind')
                      exact (List.mem_append.mp (hall' hok partition hmem)).resolve_left hnot
          · next hstandby =>
              refine ⟨hnew, by rwa [hmap], fun _ => ?_⟩
              rw [modes_new, ← List.append_nil (active.map _)]
              refine registered_of_added active [] hassignment ?_ hactive fun partition => ?_
              · rwa [List.append_nil]
              · exact ⟨fun h => absurd h List.not_mem_nil, fun h => absurd h.1 hstandby⟩

end SessionSetup

/-! ### What a step can do -/

namespace Sessions

open SessionSetup (modes Registered tableTopics)

variable {Codec Callback : Type} {cfg : GroupConfig Codec Callback} {s s' : Sessions}

inductive Step (cfg : GroupConfig Codec Callback) (s : Sessions) : Action → Sessions → Prop where
  | begins {session : Session} (hphase : s.phase = .idle) :
      Step cfg s (.beginSession session) { s with
        phase := .setup session
        setup := { s.setup with pc := .idle, sessionDone := false, errs := [] } }
  | createFails {session : Session} {partitions : List PartProc} {err : String}
      (hphase : s.phase = .setup session) (hpc : s.setup.pc = .idle)
      (hcreate : SessionSetup.createProcessors cfg session s.setup.partitions
        = (partitions, some err)) :
      Step cfg s (.inSetup .setup) { s with
        setup := { s.setup with
          partitions := partitions, state := .running, pc := .returned (some err) }
        runners := List.replicate partitions.length .none }
  | creates {session : Session} {partitions : List PartProc} (hphase : s.phase = .setup session)
      (hpc : s.setup.pc = .idle)
      (hcreate : SessionSetup.createProcessors cfg session s.setup.partitions
        = (partitions, none)) :
      Step cfg s (.inSetup .setup) { s with
        setup := { s.setup with
          partitions := if s.setup.sessionDone then partitions.map PartProc.cancel else partitions
          state := .setup
          pc := .starting }
        runners := List.replicate partitions.length .none }
  | starts {session : Session} {i : Nat} {pproc pproc' : PartProc} {action : PartProc.Action}
      (hphase : s.phase = .setup session) (hpc : s.setup.pc = .starting)
      (hstart : SessionSetup.inStart action = true) (hpproc : s.setup.partitions[i]? = some pproc)
      (hstep : pproc.step action = some pproc') :
      Step cfg s (.inSetup (.partProc i action)) (s.setProc i pproc')
  | startReturns {session : Session} {i : Nat} {pproc pproc' : PartProc}
      (hphase : s.phase = .setup session) (hpc : s.setup.pc = .starting)
      (hpproc : s.setup.partitions[i]? = some pproc) (hstep : pproc.step .wait = some pproc') :
      Step cfg s (.inSetup (.startReturns i)) { s with
        setup := { s.setup with
          partitions := s.setup.partitions.set i pproc'
          errs := s.setup.errs ++ pproc.exit.err.toList }
        runners := if pproc.exit = .started then s.runners.set i (startedRunners cfg pproc)
          else s.runners }
  | waits {session : Session} (hphase : s.phase = .setup session) (hpc : s.setup.pc = .starting)
      (hreturned : ∀ pproc ∈ s.setup.partitions, SessionSetup.hasReturned pproc = true) :
      Step cfg s (.inSetup .wait) { s with
        setup := { s.setup with
          state := .running
          pc := .returned (if s.setup.errs = [] then none else some (errorsText s.setup.errs)) } }
  | cancelsSetup {session : Session} (hphase : s.phase = .setup session) :
      Step cfg s (.inSetup .cancel) s.cancel
  | consumes {session : Session} (hphase : s.phase = .setup session)
      (hpc : s.setup.pc = .returned none) :
      Step cfg s .setupReturns { s with phase := .consuming session }
  | setupFails {session : Session} {err : String} (hphase : s.phase = .setup session)
      (hpc : s.setup.pc = .returned (some err)) :
      Step cfg s .setupReturns { s with
        phase := .cleanup, setup := { s.setup with state := .stopping } }
  | runnerReturns {i : Nat} {group : RunnerGroup} {err : Option String}
      (hgroup : s.runners[i]? = some group) (hleft : 0 < group.left) :
      Step cfg s (.runnerReturns i err) { s with
        runners := s.runners.set i { group with
          left := group.left - 1, errs := group.errs ++ err.toList } }
  | claimTakes {session : Session} {i : Nat} {group : RunnerGroup}
      (hphase : s.phase = .consuming session) (hgroup : s.runners[i]? = some group)
      (hready : group.left = 0 ∧ group.errs ≠ [] ∧ group.taken = false ∧ group.received = none) :
      Step cfg s (.claimTakes i) { s with runners := s.runners.set i { group with taken := true } }
  | cancels : Step cfg s .cancel s.cancel
  | claimsReturn {session : Session} (hphase : s.phase = .consuming session) :
      Step cfg s .claimsReturn { s with
        phase := .cleanup, setup := { s.setup with state := .stopping } }
  | stops {i : Nat} {pproc pproc' : PartProc} (hphase : s.phase = .cleanup)
      (hpproc : s.setup.partitions[i]? = some pproc) (hstep : pproc.beginStop = some pproc') :
      Step cfg s (.beginStop i) (s.setProc i pproc')
  | receives {i : Nat} {pproc : PartProc} {group : RunnerGroup} (hphase : s.phase = .cleanup)
      (hpproc : s.setup.partitions[i]? = some pproc) (hpc : pproc.pc = .stopping)
      (hgroup : s.runners[i]? = some group) (hready : group.left = 0 ∧ group.received = none) :
      Step cfg s (.stopReceives i) { s with
        runners := s.runners.set i
          { group with received := some (if group.taken then none else nilOrError group.errs) } }
  | closes {i j : Nat} {err : Option String} {pproc pproc' : PartProc} {group : RunnerGroup}
      (hphase : s.phase = .cleanup) (hpproc : s.setup.partitions[i]? = some pproc)
      (hgroup : s.runners[i]? = some group) (hreceived : group.received.isSome = true)
      (hstep : pproc.closeAny j err = some pproc') :
      Step cfg s (.closeTable i j err) (s.setProc i pproc')
  | stopReturns {i : Nat} {pproc pproc' : PartProc} {group : RunnerGroup} (stopErrs : List String)
      (hphase : s.phase = .cleanup) (hpproc : s.setup.partitions[i]? = some pproc)
      (hgroup : s.runners[i]? = some group) (hreceived : group.received.isSome = true)
      (hstep : pproc.step .stopReturns = some pproc') :
      Step cfg s (.stopReturns i) { s.setProc i pproc' with stopErrs := stopErrs }
  | cleanupReturns (hphase : s.phase = .cleanup)
      (hstopped : ∀ pproc ∈ s.setup.partitions, hasStopped pproc = true) :
      Step cfg s .cleanupReturns { s with
        phase := .idle
        setup := { s.setup with partitions := [], state := .idle }
        runners := []
        stopErrs := []
        cleanupErr := nilOrError s.stopErrs
        gone := s.gone ++ s.setup.partitions.zip s.runners }

theorem onRunners_cases {i : Nat} {move : RunnerGroup → Option RunnerGroup}
    (hstep : s.onRunners i move = some s') :
    ∃ group group', s.runners[i]? = some group ∧ move group = some group' ∧
      s' = { s with runners := s.runners.set i group' } := by
  unfold onRunners at hstep
  split at hstep
  · cases hstep
  · next group hgroup =>
      obtain ⟨group', hmove, rfl⟩ := Option.map_eq_some_iff.mp hstep
      exact ⟨group, group', hgroup, hmove, rfl⟩

theorem inCleanup_cases {i : Nat} {move : PartProc → RunnerGroup → Option PartProc}
    (hstep : s.inCleanup i move = some s') :
    ∃ pproc group pproc', s.phase = .cleanup ∧ s.setup.partitions[i]? = some pproc ∧
      s.runners[i]? = some group ∧ move pproc group = some pproc' ∧ s' = s.setProc i pproc' := by
  unfold inCleanup at hstep
  split at hstep
  · next pproc group hphase hpproc hgroup =>
      obtain ⟨pproc', hmove, rfl⟩ := Option.map_eq_some_iff.mp hstep
      exact ⟨pproc, group, pproc', hphase, hpproc, hgroup, hmove, rfl⟩
  · cases hstep

theorem inSetup_cases {action : SessionSetup.Action} (hstep : s.inSetup cfg action = some s') :
    Step cfg s (.inSetup action) s' := by
  unfold inSetup at hstep
  split at hstep
  · next session hphase =>
      obtain ⟨setup', hsetup, rfl⟩ := Option.map_eq_some_iff.mp hstep
      cases action with
      | setup =>
          obtain ⟨hpc, hsetup⟩ := Option.ite_none_right_eq_some.mp hsetup
          split at hsetup
          · next partitions err hcreate =>
              obtain rfl := Option.some.inj hsetup
              exact .createFails hphase hpc hcreate
          · next partitions hcreate =>
              obtain rfl := Option.some.inj hsetup
              have hlength : (if s.setup.sessionDone then partitions.map PartProc.cancel else
                partitions).length
                  = partitions.length := by
                split
                · exact List.length_map _
                · rfl
              dsimp only [runnersAfter]
              rw [hlength]
              exact .creates hphase hpc hcreate
      | partProc i action =>
          obtain ⟨⟨hpc, hstart⟩, hsetup⟩ := Option.ite_none_right_eq_some.mp hsetup
          split at hsetup
          · cases hsetup
          · next pproc hpproc =>
              obtain ⟨pproc', hpproc', rfl⟩ := Option.map_eq_some_iff.mp hsetup
              exact .starts hphase hpc hstart hpproc hpproc'
      | startReturns i =>
          obtain ⟨hpc, hsetup⟩ := Option.ite_none_right_eq_some.mp hsetup
          split at hsetup
          · cases hsetup
          · next pproc hpproc =>
              obtain ⟨pproc', hpproc', rfl⟩ := Option.map_eq_some_iff.mp hsetup
              dsimp only [runnersAfter]
              rw [hpproc]
              exact .startReturns hphase hpc hpproc hpproc'
      | wait =>
          obtain ⟨⟨hpc, hreturned⟩, rfl⟩ := guard_eq_some.mp hsetup
          exact .waits hphase hpc hreturned
      | cancel =>
          obtain rfl := Option.some.inj hsetup
          exact .cancelsSetup hphase
  · cases hstep

/-- What a session can do, with `Setup` taken apart by `inSetup_cases`. -/
theorem step_cases {action : Action} (hstep : s.step cfg action = some s') :
    Step cfg s action s' := by
  cases action with
  | beginSession session =>
      change s.beginSession session = some s' at hstep
      unfold beginSession at hstep
      split at hstep
      · next hphase =>
          obtain rfl := Option.some.inj hstep
          exact .begins hphase
      · cases hstep
  | inSetup action => exact inSetup_cases hstep
  | setupReturns =>
      change s.setupReturns = some s' at hstep
      unfold setupReturns at hstep
      split at hstep
      · next session hphase hpc =>
          obtain rfl := Option.some.inj hstep
          exact .consumes hphase hpc
      · next session err hphase hpc =>
          obtain rfl := Option.some.inj hstep
          exact .setupFails hphase hpc
      · cases hstep
  | runnerReturns i err =>
      obtain ⟨group, group', hgroup, hmove, rfl⟩ := onRunners_cases hstep
      obtain ⟨hleft, rfl⟩ := guard_eq_some.mp hmove
      exact .runnerReturns hgroup hleft
  | claimTakes i =>
      change s.claimTakes i = some s' at hstep
      unfold claimTakes at hstep
      split at hstep
      · next session hphase =>
          obtain ⟨group, group', hgroup, hmove, rfl⟩ := onRunners_cases hstep
          obtain ⟨hready, rfl⟩ := guard_eq_some.mp hmove
          exact .claimTakes hphase hgroup hready
      · cases hstep
  | cancel =>
      obtain rfl := Option.some.inj hstep
      exact .cancels
  | claimsReturn =>
      change s.claimsReturn = some s' at hstep
      unfold claimsReturn at hstep
      split at hstep
      · next session hphase =>
          obtain rfl := Option.some.inj hstep
          exact .claimsReturn hphase
      · cases hstep
  | beginStop i =>
      obtain ⟨pproc, group, pproc', hphase, hpproc, -, hmove, rfl⟩ := inCleanup_cases hstep
      exact .stops hphase hpproc hmove
  | stopReceives i =>
      change s.stopReceives i = some s' at hstep
      unfold stopReceives at hstep
      split at hstep
      · next pproc hphase hpproc =>
          obtain ⟨hpc, hstep⟩ := Option.ite_none_right_eq_some.mp hstep
          obtain ⟨group, group', hgroup, hmove, rfl⟩ := onRunners_cases hstep
          obtain ⟨hready, rfl⟩ := guard_eq_some.mp hmove
          exact .receives hphase hpproc hpc hgroup hready
      · cases hstep
  | closeTable i j err =>
      obtain ⟨pproc, group, pproc', hphase, hpproc, hgroup, hmove, rfl⟩ := inCleanup_cases hstep
      obtain ⟨hreceived, hclose⟩ := Option.ite_none_right_eq_some.mp hmove
      exact .closes hphase hpproc hgroup hreceived hclose
  | stopReturns i =>
      change s.stopReturns i = some s' at hstep
      unfold stopReturns at hstep
      split at hstep
      · next pproc group hphase hpproc hgroup =>
          obtain ⟨hreceived, hstep⟩ := Option.ite_none_right_eq_some.mp hstep
          obtain ⟨pproc', hpproc', rfl⟩ := Option.map_eq_some_iff.mp hstep
          exact .stopReturns _ hphase hpproc hgroup hreceived hpproc'
      · cases hstep
  | cleanupReturns =>
      change s.cleanupReturns = some s' at hstep
      unfold cleanupReturns at hstep
      split at hstep
      · next hphase =>
          obtain ⟨hstopped, rfl⟩ := guard_eq_some.mp hstep
          exact .cleanupReturns hphase hstopped
      · cases hstep

theorem idle_step {action : Action} (hstep : Step cfg s action s')
    (hbegins : ∀ session, action ≠ .beginSession session) (hidle : s.phase = .idle) :
    s'.phase = .idle := by
  cases hstep with
  | begins => exact absurd rfl (hbegins _)
  | consumes hphase | setupFails hphase | claimsReturn hphase =>
      exact SessionPhase.noConfusion (hidle.symm.trans hphase)
  | cleanupReturns => rfl
  | _ => exact hidle

/-! ### The invariant of the sessions -/

def JoinsOnce (cfg : GroupConfig Codec Callback) : Prop :=
  (cfg.graph.inputTables.map fun e => e.name).Nodup

instance decidableJoinsOnce (cfg : GroupConfig Codec Callback) : Decidable (JoinsOnce cfg) :=
  inferInstanceAs (Decidable (List.Nodup _))

/-- A processor and its runners. `Stop` receives only when all runners have returned. -/
structure Paired (cfg : GroupConfig Codec Callback) (pproc : PartProc) (group : RunnerGroup) :
    Prop where
  orderly : JoinsOnce cfg → pproc.Orderly (tableTopics cfg)
  received : group.received.isSome = true → group.left = 0
  stopped : hasStopped pproc = true → group.received.isSome = true

structure Inv (cfg : GroupConfig Codec Callback) (s : Sessions) : Prop where
  lengths : s.runners.length = s.setup.partitions.length
  paired : ∀ (i : Nat) (pproc : PartProc), s.setup.partitions[i]? = some pproc →
    ∀ group, s.runners[i]? = some group → Paired cfg pproc group
  distinct : ((modes s.setup.partitions).map Prod.fst).Nodup
  fresh : s.setup.pc = .idle → s.setup.partitions = []
  empty : s.phase = .idle → s.setup.partitions = []
  started : s.setup.pc = .starting → ∃ session, s.phase = .setup session
  settled : s.setup.pc ≠ .starting → ∀ pproc ∈ s.setup.partitions, pproc.pc ≠ .recovering
  registered : ∀ session, s.phase = .setup session ∧
    (s.setup.pc = .starting ∨ s.setup.pc = .returned none) ∨
    s.phase = .consuming session → Registered cfg session (modes s.setup.partitions)
  gone : ∀ entry ∈ s.gone, entry.2.left = 0 ∧ (JoinsOnce cfg → openStorages entry.1 = [])

theorem inv_new (cfg : GroupConfig Codec Callback) : Inv cfg new where
  lengths := rfl
  paired := fun _ _ hpproc => absurd hpproc.symm (Option.some_ne_none _)
  distinct := List.nodup_nil
  fresh := fun _ => rfl
  empty := fun _ => rfl
  started := fun hpc => SetupPc.noConfusion hpc
  settled := fun _ _ hpproc => absurd hpproc List.not_mem_nil
  registered := by
    rintro session (⟨hphase, -⟩ | hphase)
    · exact SessionPhase.noConfusion hphase
    · exact SessionPhase.noConfusion hphase
  gone := fun _ hentry => absurd hentry List.not_mem_nil

theorem exists_of_hasStopped {pproc : PartProc} (h : hasStopped pproc = true) :
    ∃ err, pproc.pc = .stopped err := by
  unfold hasStopped at h
  split at h
  · next err hpc => exact ⟨err, hpc⟩
  · cases h

theorem hasStopped_eq_false {pproc : PartProc} (h : ∀ err, pproc.pc ≠ .stopped err) :
    ¬ hasStopped pproc = true := fun hstopped => by
  obtain ⟨err, hpc⟩ := exists_of_hasStopped hstopped
  exact h err hpc

/-- A processor and its runners move on. -/
theorem Inv.move (h : Inv cfg s) {i : Nat} {pproc pproc' : PartProc} {group : RunnerGroup}
    (hpproc : s.setup.partitions[i]? = some pproc)
    (hmode : (pproc'.partition, pproc'.runMode) = (pproc.partition, pproc.runMode))
    (hpaired : Paired cfg pproc' group)
    (hsettled : s.setup.pc = .starting ∨ pproc'.pc ≠ .recovering) (errs stopErrs : List String) :
    Inv cfg { s with
      setup := { s.setup with partitions := s.setup.partitions.set i pproc', errs := errs }
      runners := s.runners.set i group
      stopErrs := stopErrs } := by
  have hmodes : modes (s.setup.partitions.set i pproc') = modes s.setup.partitions :=
    Threads.map_set_of_eq hpproc hmode
  have hnonempty : s.setup.partitions ≠ [] := List.ne_nil_of_mem (List.mem_of_getElem? hpproc)
  refine ⟨?_, ?_, ?_, fun hpc => absurd (h.fresh hpc) hnonempty,
    fun hphase => absurd (h.empty hphase) hnonempty, h.started, fun hpc => ?_, ?_, h.gone⟩
  · rw [List.length_set, List.length_set]
    exact h.lengths
  · refine Threads.forall_getElem?_set
      (fun group' hgroup' => ?_) fun j other hne hother group' hgroup' => ?_
    · rw [List.getElem?_set_self'] at hgroup'
      obtain ⟨_, -, rfl⟩ := Option.map_eq_some_iff.mp hgroup'
      exact hpaired
    · rw [List.getElem?_set_ne hne.symm] at hgroup'
      exact h.paired j other hother group' hgroup'
  · rw [hmodes]
    exact h.distinct
  · exact Threads.forall_mem_set (h.settled hpc) (hsettled.resolve_left hpc)
  · rw [hmodes]
    exact h.registered

theorem Inv.group (h : Inv cfg s) {i : Nat} {pproc : PartProc}
    (hpproc : s.setup.partitions[i]? = some pproc) : ∃ group, s.runners[i]? = some group := by
  obtain ⟨hlt, -⟩ := List.getElem?_eq_some_iff.mp hpproc
  rw [← h.lengths] at hlt
  exact ⟨s.runners[i], List.getElem?_eq_getElem hlt⟩

theorem Inv.proc (h : Inv cfg s) {i : Nat} {group : RunnerGroup}
    (hgroup : s.runners[i]? = some group) :
    ∃ pproc, s.setup.partitions[i]? = some pproc := by
  obtain ⟨hlt, -⟩ := List.getElem?_eq_some_iff.mp hgroup
  rw [h.lengths] at hlt
  exact ⟨s.setup.partitions[i], List.getElem?_eq_getElem hlt⟩

/-- Only the processor moves on. -/
theorem Inv.move_proc (h : Inv cfg s) {i : Nat} {pproc pproc' : PartProc}
    (hpproc : s.setup.partitions[i]? = some pproc)
    (horderly : JoinsOnce cfg → pproc'.Orderly (tableTopics cfg))
    (hmode : (pproc'.partition, pproc'.runMode) = (pproc.partition, pproc.runMode))
    (hstopped : hasStopped pproc' = true → ∀ group, s.runners[i]? = some group →
      group.received.isSome = true)
    (hsettled : s.setup.pc = .starting ∨ pproc'.pc ≠ .recovering) (errs stopErrs : List String) :
    Inv cfg { s with
      setup := { s.setup with partitions := s.setup.partitions.set i pproc', errs := errs }
      stopErrs := stopErrs } := by
  obtain ⟨group, hgroup⟩ := h.group hpproc
  have hpaired : Paired cfg pproc' group :=
    ⟨horderly, (h.paired i pproc hpproc group hgroup).received, fun hs => hstopped hs group hgroup⟩
  have hmoved := h.move hpproc hmode hpaired hsettled errs stopErrs
  rwa [Threads.set_eq_self hgroup] at hmoved

/-- A step of a `Stop` that goes on. -/
theorem Inv.move_stopping (h : Inv cfg s) {i : Nat} {pproc pproc' : PartProc}
    (hpproc : s.setup.partitions[i]? = some pproc)
    (horderly : JoinsOnce cfg → pproc'.Orderly (tableTopics cfg))
    (hmode : (pproc'.partition, pproc'.runMode) = (pproc.partition, pproc.runMode))
    (hpc : pproc'.pc = .stopping) : Inv cfg (s.setProc i pproc') := by
  refine h.move_proc hpproc horderly hmode (fun hstopped => ?_) (.inr ?_) _ _
  · exact absurd hstopped
      (hasStopped_eq_false fun _ hstopped => StartPc.noConfusion (hpc.symm.trans hstopped))
  · rw [hpc]
    exact StartPc.noConfusion

/-- Only the runners move on. -/
theorem Inv.move_runners (h : Inv cfg s) {i : Nat} {group group' : RunnerGroup}
    (hgroup : s.runners[i]? = some group)
    (hreceived : group'.received.isSome = true → group'.left = 0)
    (hkeeps : group.received.isSome = true → group'.received.isSome = true) :
    Inv cfg { s with runners := s.runners.set i group' } := by
  obtain ⟨pproc, hpproc⟩ := h.proc hgroup
  have hpair := h.paired i pproc hpproc group hgroup
  have hsettled : s.setup.pc = .starting ∨ pproc.pc ≠ .recovering := by
    by_cases hpc : s.setup.pc = .starting
    · exact .inl hpc
    · exact .inr (h.settled hpc pproc (List.mem_of_getElem? hpproc))
  have hmoved := h.move hpproc rfl ⟨hpair.orderly, hreceived,
    fun hs => hkeeps (hpair.stopped hs)⟩ hsettled
    s.setup.errs s.stopErrs
  rwa [Threads.set_eq_self hpproc] at hmoved

theorem modes_cancel (partitions : List PartProc) :
    modes (partitions.map PartProc.cancel) = modes partitions := by
  rw [modes, List.map_map]
  rfl

theorem Paired.cancel {pproc : PartProc} {group : RunnerGroup} (h : Paired cfg pproc group) :
    Paired cfg pproc.cancel group :=
  ⟨fun hjoins => (h.orderly hjoins).cancel, h.received, h.stopped⟩

theorem Inv.cancel (h : Inv cfg s) : Inv cfg s.cancel where
  lengths := h.lengths.trans (List.length_map _).symm
  paired := by
    intro i pproc hpproc group hgroup
    rw [Sessions.cancel, SessionSetup.cancel, List.getElem?_map] at hpproc
    obtain ⟨before, hbefore, rfl⟩ := Option.map_eq_some_iff.mp hpproc
    exact (h.paired i before hbefore group hgroup).cancel
  distinct := by
    rw [Sessions.cancel, SessionSetup.cancel, modes_cancel]
    exact h.distinct
  fresh := fun hpc => List.map_eq_nil_iff.mpr (h.fresh hpc)
  empty := fun hphase => List.map_eq_nil_iff.mpr (h.empty hphase)
  started := h.started
  settled := fun hpc => List.forall_mem_map.mpr (h.settled hpc)
  registered := by
    rw [Sessions.cancel, SessionSetup.cancel, modes_cancel]
    exact h.registered
  gone := h.gone

theorem orderly_newPartitionProcessor (hjoins : JoinsOnce cfg) (log : String → Int → TopicLog)
    (partition : Int) (runMode : PPRunMode) :
    (newPartitionProcessor cfg log partition runMode).Orderly (tableTopics cfg) := by
  rw [← SessionSetup.topics_newPartitionProcessor log partition runMode]
  have hnodup : ((cfg.graph.inputTables.map fun e => (e.name, log e.name partition)).map
    Prod.fst).Nodup := by
    rwa [List.map_map]
  exact { PartProc.orderly_new partition runMode _ hnodup with topics_eq := rfl }

/-- The processors of a session are created. -/
theorem Inv.create (h : Inv cfg s) {session : Session} (hphase : s.phase = .setup session)
    {result : List PartProc × Option String} (hcreated : SessionSetup.CreatedFor cfg session result)
    {state : ProcState} {pc : SetupPc}
    (hpc : pc = .starting ∧ result.2 = none ∨ ∃ err, pc = .returned (some err)) :
    Inv cfg { s with
      setup := { s.setup with partitions := result.1, state := state, pc := pc }
      runners := List.replicate result.1.length .none } where
  lengths := List.length_replicate
  paired := by
    intro i pproc hpproc group hgroup
    obtain ⟨partition, runMode, rfl⟩ := hcreated.new pproc (List.mem_of_getElem? hpproc)
    obtain rfl := List.eq_of_mem_replicate (List.mem_of_getElem? hgroup)
    exact ⟨fun hjoins => orderly_newPartitionProcessor hjoins session.log partition runMode,
      fun _ => rfl, fun h => Bool.noConfusion h⟩
  distinct := by
    rw [SessionSetup.map_fst_modes]
    exact hcreated.distinct
  fresh := by
    rintro rfl
    rcases hpc with ⟨hpc, -⟩ | ⟨err, hpc⟩ <;> cases hpc
  empty := fun hidle => SessionPhase.noConfusion (hphase.symm.trans hidle)
  started := fun _ => ⟨session, hphase⟩
  settled := by
    intro _ pproc hpproc
    obtain ⟨partition, runMode, rfl⟩ := hcreated.new pproc hpproc
    exact StartPc.noConfusion
  registered := by
    rintro session' (⟨hphase', hpc'⟩ | hphase')
    · obtain rfl := SessionPhase.setup.inj (hphase.symm.trans hphase')
      rcases hpc with ⟨-, hnone⟩ | ⟨err, rfl⟩
      · exact hcreated.registered hnone
      · rcases hpc' with hpc' | hpc' <;> cases hpc'
    · exact SessionPhase.noConfusion (hphase.symm.trans hphase')
  gone := h.gone

/-- `Setup` and the claims go on without touching the processors. -/
theorem Inv.phase (h : Inv cfg s) {phase : SessionPhase} {state : ProcState} {pc : SetupPc}
    (hfresh : pc = .idle → s.setup.partitions = []) (hstarting : pc ≠ .starting)
    (hphase : phase ≠ .idle)
    (hsettled : ∀ pproc ∈ s.setup.partitions, pproc.pc ≠ .recovering)
    (hregistered : ∀ session,
      phase = .setup session ∧ pc = .returned none ∨ phase = .consuming session →
      Registered cfg session (modes s.setup.partitions)) :
    Inv cfg { s with phase := phase, setup := { s.setup with state := state, pc := pc } } where
  lengths := h.lengths
  paired := h.paired
  distinct := h.distinct
  fresh := hfresh
  empty := fun hidle => absurd hidle hphase
  started := fun hpc => absurd hpc hstarting
  settled := fun _ => hsettled
  registered := by
    rintro session (⟨hphase, hpc⟩ | hphase)
    · exact hregistered session (.inl ⟨hphase, hpc.resolve_left hstarting⟩)
    · exact hregistered session (.inr hphase)
  gone := h.gone

theorem Inv.not_starting (h : Inv cfg s) (hphase : ∀ session, s.phase ≠ .setup session) :
    s.setup.pc ≠ .starting := fun hpc => by
  obtain ⟨session, hsetup⟩ := h.started hpc
  exact hphase session hsetup

/-- `Cleanup` begins. -/
theorem Inv.cleanup (h : Inv cfg s) (hpc : s.setup.pc ≠ .starting) :
    Inv cfg { s with phase := .cleanup, setup := { s.setup with state := .stopping } } := by
  refine h.phase h.fresh hpc SessionPhase.noConfusion (h.settled hpc) ?_
  rintro session (⟨hphase, -⟩ | hphase)
  · exact SessionPhase.noConfusion hphase
  · exact SessionPhase.noConfusion hphase

theorem openStorages_eq_nil {pproc : PartProc} (h : ∀ run ∈ pproc.tables, run.st ≠ .opened) :
    openStorages pproc = [] := by
  rw [openStorages, List.filter_eq_nil_iff.mpr, List.map_nil]
  simpa using h

/-- A processor that has stopped has no runner left and no storage open. -/
theorem Paired.stopped_leaves {pproc : PartProc} {group : RunnerGroup} (h : Paired cfg pproc group)
    (hstopped : hasStopped pproc = true) :
    group.left = 0 ∧ (JoinsOnce cfg → openStorages pproc = []) := by
  obtain ⟨err, hpc⟩ := exists_of_hasStopped hstopped
  exact ⟨h.received (h.stopped hstopped), fun hjoins =>
    openStorages_eq_nil ((h.orderly hjoins).tidy.no_storage_open hpc)⟩

/-- All processors have stopped, so nothing is left to the next session. -/
theorem Inv.cleanupReturns (h : Inv cfg s) (hphase : s.phase = .cleanup)
    (hstopped : ∀ pproc ∈ s.setup.partitions, hasStopped pproc = true)
    (cleanupErr : Option String) :
    Inv cfg { s with
      phase := .idle
      setup := { s.setup with partitions := [], state := .idle }
      runners := []
      stopErrs := []
      cleanupErr := cleanupErr
      gone := s.gone ++ s.setup.partitions.zip s.runners } where
  lengths := rfl
  paired := fun _ _ hpproc => absurd hpproc.symm (Option.some_ne_none _)
  distinct := List.nodup_nil
  fresh := fun _ => rfl
  empty := fun _ => rfl
  started := by
    intro hpc
    obtain ⟨session, hsetup⟩ := h.started hpc
    exact SessionPhase.noConfusion (hphase.symm.trans hsetup)
  settled := fun _ _ hpproc => absurd hpproc List.not_mem_nil
  registered := by
    rintro session (⟨hphase, -⟩ | hphase)
    · exact SessionPhase.noConfusion hphase
    · exact SessionPhase.noConfusion hphase
  gone := by
    refine List.forall_mem_append.mpr ⟨h.gone, fun entry hentry => ?_⟩
    obtain ⟨i, hi⟩ := List.mem_iff_getElem?.mp hentry
    obtain ⟨hpproc, hgroup⟩ := List.getElem?_zip_eq_some.mp hi
    exact (h.paired i _ hpproc _ hgroup).stopped_leaves (hstopped _ (List.mem_of_getElem? hpproc))

/-- One case for each constructor of `Step`; the processors keep their own invariants. -/
theorem inv_step {action : Action} (h : Inv cfg s) (hstep : s.step cfg action = some s') :
    Inv cfg s' := by
  cases step_cases hstep with
  | begins hphase =>
      have hempty := h.empty hphase
      refine ⟨h.lengths, h.paired, h.distinct, fun _ => hempty, fun _ => hempty,
        fun hpc => SetupPc.noConfusion hpc, fun _ pproc hpproc => ?_, ?_, h.gone⟩
      · exact absurd (hempty ▸ hpproc) List.not_mem_nil
      · rintro session (⟨-, hpc | hpc⟩ | hphase)
        · exact SetupPc.noConfusion hpc
        · exact SetupPc.noConfusion hpc
        · exact SessionPhase.noConfusion hphase
  | @createFails session partitions err hphase hpc hcreate =>
      have hcreated := SessionSetup.createProcessors_created cfg session
      rw [← h.fresh hpc, hcreate] at hcreated
      exact h.create hphase hcreated (.inr ⟨err, rfl⟩)
  | @creates session partitions hphase hpc hcreate =>
      have hcreated := SessionSetup.createProcessors_created cfg session
      rw [← h.fresh hpc, hcreate] at hcreated
      have hinv : Inv cfg { s with
          setup := { s.setup with partitions := partitions, state := .setup, pc := .starting }
          runners := List.replicate partitions.length .none } :=
        h.create hphase hcreated (.inl ⟨rfl, rfl⟩)
      cases hdone : s.setup.sessionDone with
      | false => exact hinv
      | true =>
          have hcancelled := hinv.cancel
          rw [Sessions.cancel, SessionSetup.cancel, ← hdone] at hcancelled
          exact hcancelled
  | @starts session i pproc pproc' action hphase hpc hstart hpproc hmove =>
      obtain ⟨group, hgroup⟩ := h.group hpproc
      refine h.move_proc hpproc (fun hjoins => ?_) ?_ (fun hstopped => ?_) (.inl hpc) _ _
      · exact PartProc.orderly_step ((h.paired _ _ hpproc _ hgroup).orderly hjoins) hmove
      · exact Prod.ext (PartProc.partition_step hmove) (PartProc.runMode_step hmove)
      · have hrecovering := PartProc.pc_of_inStart hstart hmove
        exact absurd hstopped
          (hasStopped_eq_false fun _ hpc => StartPc.noConfusion (hrecovering.symm.trans hpc))
  | @startReturns session i pproc pproc' hphase hpc hpproc hwait =>
      obtain ⟨group, hgroup⟩ := h.group hpproc
      have horderly : JoinsOnce cfg → pproc'.Orderly (tableTopics cfg) := fun hjoins =>
        PartProc.orderly_step ((h.paired _ _ hpproc _ hgroup).orderly hjoins) hwait
      have hmode : (pproc'.partition, pproc'.runMode) = (pproc.partition, pproc.runMode) :=
        Prod.ext (PartProc.partition_step hwait) (PartProc.runMode_step hwait)
      have hstopped : ¬ hasStopped pproc' = true := by
        obtain ⟨-, rfl⟩ := guard_eq_some.mp hwait
        exact Bool.false_ne_true
      split
      · exact h.move hpproc hmode ⟨horderly, fun hreceived => Bool.noConfusion hreceived,
          fun hs => absurd hs hstopped⟩ (.inl hpc) _ _
      · exact h.move_proc hpproc horderly hmode (fun hs => absurd hs hstopped) (.inl hpc) _ _
  | @waits session hphase hpc hreturned =>
      refine h.phase (fun hpc => SetupPc.noConfusion hpc) SetupPc.noConfusion
        (by rw [hphase]; exact SessionPhase.noConfusion)
        (fun pproc hpproc => ?_) ?_
      · obtain ⟨exit, hexit⟩ := SessionSetup.returned_of_hasReturned (hreturned pproc hpproc)
        rw [hexit]
        exact StartPc.noConfusion
      · rintro session' (⟨hphase', -⟩ | hphase')
        · exact h.registered session' (.inl ⟨hphase', .inl hpc⟩)
        · exact h.registered session' (.inr hphase')
  | cancelsSetup => exact h.cancel
  | @consumes session hphase hpc =>
      have hstarting : s.setup.pc ≠ .starting :=
        fun hstarting => SetupPc.noConfusion (hpc.symm.trans hstarting)
      refine h.phase h.fresh hstarting SessionPhase.noConfusion (h.settled hstarting) ?_
      rintro session' (⟨hphase', -⟩ | hphase')
      · exact SessionPhase.noConfusion hphase'
      · obtain rfl := SessionPhase.consuming.inj hphase'
        exact h.registered session (.inl ⟨hphase, .inr hpc⟩)
  | setupFails hphase hpc =>
      exact h.cleanup fun hstarting => SetupPc.noConfusion (hpc.symm.trans hstarting)
  | @runnerReturns i group err hgroup hleft =>
      obtain ⟨pproc, hpproc⟩ := h.proc hgroup
      refine h.move_runners hgroup (fun hreceived => ?_) id
      have hzero := (h.paired i pproc hpproc group hgroup).received hreceived
      exact absurd hzero (Nat.ne_of_gt hleft)
  | claimTakes hphase hgroup hready => exact h.move_runners hgroup (fun _ => hready.1) id
  | cancels => exact h.cancel
  | claimsReturn hphase =>
      exact h.cleanup (h.not_starting fun session hsetup =>
        SessionPhase.noConfusion (hphase.symm.trans hsetup))
  | stops hphase hpproc hstop =>
      obtain ⟨group, hgroup⟩ := h.group hpproc
      have horderly := fun hjoins =>
        PartProc.orderly_beginStop ((h.paired _ _ hpproc _ hgroup).orderly hjoins) hstop
      obtain ⟨-, rfl⟩ := PartProc.beginStop_cases hstop
      exact h.move_stopping hpproc horderly rfl rfl
  | receives hphase hpproc hpc hgroup hready =>
      exact h.move_runners hgroup (fun _ => hready.1) fun _ => rfl
  | closes hphase hpproc hgroup hreceived hclose =>
      have horderly := fun hjoins =>
        PartProc.orderly_closeAny ((h.paired _ _ hpproc _ hgroup).orderly hjoins) hclose
      obtain ⟨hpc, _, _, -, -, -, -, -, -, _, rfl⟩ := PartProc.closeAny_cases hclose
      exact h.move_stopping hpproc horderly rfl hpc
  | @stopReturns i pproc pproc' group stopErrs hphase hpproc hgroup hreceived hreturns =>
      refine h.move_proc hpproc (fun hjoins => ?_) ?_ (fun _ group' hgroup' => ?_) (.inr ?_) _ _
      · exact PartProc.orderly_step ((h.paired _ _ hpproc _ hgroup).orderly hjoins) hreturns
      · exact Prod.ext (PartProc.partition_step hreturns) (PartProc.runMode_step hreturns)
      · obtain rfl := Option.some.inj (hgroup.symm.trans hgroup')
        exact hreceived
      · obtain ⟨-, rfl⟩ := guard_eq_some.mp hreturns
        exact StartPc.noConfusion
  | cleanupReturns hphase hstopped => exact h.cleanupReturns hphase hstopped _

/-! ### What holds in every session -/

theorem inv_run (cfg : GroupConfig Codec Callback) (actions : List Action) :
    Inv cfg (run (step cfg) new actions) :=
  run_invariant (fun _ _ _ => inv_step) (inv_new cfg) actions

theorem Inv.orderly (h : Inv cfg s) (hjoins : JoinsOnce cfg) :
    ∀ pproc ∈ s.setup.partitions, pproc.Orderly (tableTopics cfg) := by
  intro pproc hpproc
  obtain ⟨i, hi⟩ := List.mem_iff_getElem?.mp hpproc
  obtain ⟨group, hgroup⟩ := h.group hi
  exact (h.paired i pproc hi group hgroup).orderly hjoins

theorem Inv.allOpen_eq (h : Inv cfg s) (hjoins : JoinsOnce cfg) :
    s.allOpen = s.setup.partitions.flatMap openStorages := by
  have hgone : (s.gone.map Prod.fst).flatMap openStorages = [] :=
    List.flatMap_eq_nil_iff.mpr (List.forall_mem_map.mpr fun entry hentry =>
      (h.gone entry hentry).2 hjoins)
  rw [allOpen, List.flatMap_append, hgone, List.nil_append]

def oneSession : List Action :=
  .beginSession SessionSetup.oneClaim ::
    (SessionSetup.setupWith SessionSetup.recoverOne).map .inSetup ++ [.setupReturns]

def endSession : List Action :=
  [.claimsReturn, .runnerReturns 0 none, .beginStop 0, .stopReceives 0, .closeTable 0 0 none,
    .stopReturns 0, .cleanupReturns]

def twoSessions : List Action := oneSession ++ endSession ++ oneSession

theorem Inv.consumeClaim_eq (h : Inv cfg s) {pproc : PartProc} (hpproc : pproc ∈ s.setup.partitions)
    (topic : String) : s.consumeClaim topic pproc.partition = .ok pproc := by
  have hdistinct := h.distinct
  rw [SessionSetup.map_fst_modes] at hdistinct
  unfold consumeClaim
  split
  · next hfind => exact absurd (decide_eq_true rfl) (List.find?_eq_none.mp hfind pproc hpproc)
  · next found hfind =>
      have hsame := List.find?_some hfind
      rw [List.inj_on_of_nodup_map hdistinct (List.mem_of_find?_eq_some hfind) hpproc
        (of_decide_eq_true hsame)]

/-- **Every claim finds its processor.** While a session consumes, the partitions that are assigned
have an active processor each and with hot standbys the other stateful ones have a passive one, and
there is no other: nothing of a session before is left. -/
theorem session_registers (cfg : GroupConfig Codec Callback) (actions : List Action)
    (session : Session) (hconsuming : (run (step cfg) new actions).phase = .consuming session) :
    Registered cfg session (modes (run (step cfg) new actions).setup.partitions) ∧
      ∀ entry ∈ session.claims.entries, ∀ partition ∈ entry.2, ∃ pproc,
        (run (step cfg) new actions).consumeClaim entry.1 partition = .ok pproc ∧
          pproc.partition = partition ∧ pproc.runMode = .active := by
  have hinv : Inv cfg (run (step cfg) new actions) := inv_run cfg actions
  have hregistered := hinv.registered session (.inr hconsuming)
  refine ⟨hregistered, fun entry hentry partition hpartition => ?_⟩
  obtain ⟨assignment, hassignment, hactive⟩ := hregistered.active
  have hmode := (hactive partition).mpr (mem_assigned hassignment entry hentry partition hpartition)
  obtain ⟨pproc, hpproc, hpair⟩ := List.mem_map.mp hmode
  obtain ⟨rfl, hrunMode⟩ := Prod.mk.inj hpair
  exact ⟨pproc, hinv.consumeClaim_eq hpproc entry.1, rfl, hrunMode⟩

theorem session_registers_second_session :
    Registered (tableConfig []) SessionSetup.oneClaim
      (modes (run (step (tableConfig [])) new twoSessions).setup.partitions) :=
  (session_registers (tableConfig []) twoSessions SessionSetup.oneClaim (by rfl)).1

/-! ### `Cleanup` comes to an end -/

def pcWork : StartPc → Nat
  | .created | .recovering | .returned _ => 2
  | .stopping => 1
  | .stopped _ => 0

def procWork (pproc : PartProc) : Nat :=
  pcWork pproc.pc + pproc.tables.countP fun run => run.phase ≠ .closed

def groupWork (group : RunnerGroup) : Nat := group.left + if group.received = none then 1 else 0

def phaseWork : SessionPhase → Nat
  | .cleanup => 1
  | _ => 0

def cancelWork : Bool → Nat
  | true => 0
  | false => 1

/-- What `Cleanup` still has to do. The context of the session can be cancelled while it goes on. -/
def work (s : Sessions) : Nat :=
  phaseWork s.phase + cancelWork s.setup.sessionDone + (s.setup.partitions.map procWork).sum +
    (s.runners.map groupWork).sum

theorem procWork_cancel (pproc : PartProc) : procWork pproc.cancel = procWork pproc := by
  rw [procWork, procWork, PartProc.cancel, PartProc.cancelTables, List.countP_map]
  rfl

theorem procWork_beginStop {pproc pproc' : PartProc} (h : pproc.beginStop = some pproc') :
    procWork pproc' < procWork pproc := by
  obtain ⟨hpc, rfl⟩ := PartProc.beginStop_cases h
  have hwork : pcWork pproc.pc = 2 := by
    rcases hpc with hpc | ⟨exit, hpc⟩
    · rw [hpc]
      rfl
    · rw [hpc]
      rfl
  rw [← procWork_cancel pproc]
  change 1 + pproc.cancel.tables.countP _ < pcWork pproc.pc + pproc.cancel.tables.countP _
  omega

/-- One table less is to be closed. -/
theorem countP_close {tables : List TableRun} {j : Nat} {run run' : TableRun}
    (hrun : tables[j]? = some run) (hopen : run.phase ≠ .closed) (hclosed : run'.phase = .closed) :
    (tables.set j run').countP (fun run => run.phase ≠ .closed) + 1
      = tables.countP fun run => run.phase ≠ .closed := by
  have hcount := Threads.countP_set_add (a := run')
    (fun run : TableRun => decide (run.phase ≠ .closed)) hrun
  rw [if_pos (decide_eq_true hopen), if_neg (by simpa using hclosed)] at hcount
  exact hcount

theorem procWork_closeAny {pproc pproc' : PartProc} {j : Nat} {err : Option String}
    (h : pproc.closeAny j err = some pproc') : procWork pproc' < procWork pproc := by
  obtain ⟨-, run, run', hrun, -, hopen, hclosed, -, -, closeErrs, rfl⟩ := PartProc.closeAny_cases h
  have hcount := countP_close hrun hopen hclosed
  rw [procWork, procWork]
  dsimp only
  omega

theorem procWork_stopReturns {pproc pproc' : PartProc} (h : pproc.step .stopReturns = some pproc') :
    procWork pproc' < procWork pproc := by
  obtain ⟨⟨hpc, -⟩, rfl⟩ := guard_eq_some.mp h
  rw [procWork, procWork, hpc]
  exact Nat.add_lt_add_right Nat.one_pos _

theorem work_setProc {i : Nat} {pproc pproc' : PartProc}
    (hpproc : s.setup.partitions[i]? = some pproc) (hlt : procWork pproc' < procWork pproc) :
    work (s.setProc i pproc') < work s := by
  have hsum := Threads.sum_map_set_add (a := pproc') procWork hpproc
  rw [work, work]
  dsimp only [setProc]
  omega

theorem work_runners {i : Nat} {group group' : RunnerGroup} (hgroup : s.runners[i]? = some group)
    (hlt : groupWork group' < groupWork group) :
    work { s with runners := s.runners.set i group' } < work s := by
  have hsum := Threads.sum_map_set_add (a := group') groupWork hgroup
  rw [work, work]
  dsimp only
  omega

theorem work_cancel (hdone : s.setup.sessionDone = false) : work s.cancel < work s := by
  have hsum : ((s.setup.partitions.map PartProc.cancel).map procWork).sum
      = (s.setup.partitions.map procWork).sum := by
    rw [List.map_map]
    exact congrArg List.sum (List.map_congr_left fun pproc _ => procWork_cancel pproc)
  rw [work, work, hdone]
  dsimp only [Sessions.cancel, SessionSetup.cancel]
  rw [hsum, cancelWork, cancelWork]
  omega

/-- A context is cancelled once. -/
def CancelsOnce (s : Sessions) (action : Action) : Prop :=
  action = .cancel → s.setup.sessionDone = false

/-- Every step of `Cleanup` but a cancellation brings some processor nearer to its end. -/
theorem work_step {action : Action} (hphase : s.phase = .cleanup) (honce : CancelsOnce s action)
    (hstep : s.step cfg action = some s') :
    (s'.phase = .cleanup ∨ s'.phase = .idle) ∧ work s' < work s := by
  cases step_cases hstep with
  | begins h => cases hphase.symm.trans h
  | createFails h | creates h | starts h | startReturns h | waits h | cancelsSetup h | consumes h
  | setupFails h =>
      cases hphase.symm.trans h
  | claimTakes h | claimsReturn h => cases hphase.symm.trans h
  | @runnerReturns i group err hgroup hleft =>
      refine ⟨.inl hphase, work_runners hgroup ?_⟩
      rw [groupWork, groupWork]
      dsimp only
      omega
  | cancels => exact ⟨.inl hphase, work_cancel (honce rfl)⟩
  | stops _ hpproc hstop => exact ⟨.inl hphase, work_setProc hpproc (procWork_beginStop hstop)⟩
  | receives _ hpproc hpc hgroup hready =>
      refine ⟨.inl hphase, work_runners hgroup ?_⟩
      rw [groupWork, groupWork, if_neg (Option.some_ne_none _), if_pos hready.2]
      exact Nat.lt_succ_self _
  | closes _ hpproc _ _ hclose =>
      exact ⟨.inl hphase, work_setProc hpproc (procWork_closeAny hclose)⟩
  | stopReturns stopErrs _ hpproc hgroup hreceived hreturns =>
      exact ⟨.inl hphase, work_setProc hpproc (procWork_stopReturns hreturns)⟩
  | cleanupReturns =>
      refine ⟨.inr rfl, ?_⟩
      rw [work, work, hphase]
      dsimp only [phaseWork]
      rw [List.map_nil, List.map_nil, List.sum_nil]
      omega

theorem closeAny_isSome {pproc : PartProc} {topics : List String} (h : pproc.Orderly topics)
    (hpc : pproc.pc = .stopping) {j : Nat} {run : TableRun} (hrun : pproc.tables[j]? = some run)
    (hopen : run.phase ≠ .closed) : (pproc.closeAny j none).isSome = true := by
  have hmem := List.mem_of_getElem? hrun
  rw [PartProc.closeAny, hrun]
  rcases h.stopping hpc run hmem with hready | hback | hclosed
  · simp [hready, hpc]
  · simp only [hback, reduceCtorEq, if_false, PartProc.closeTable, hpc, if_true, hrun,
      h.tidy.held run hmem, and_self]
    split <;> rfl
  · exact absurd hclosed hopen

/-- A `Stop` that has begun waits for nothing but the runners. -/
theorem Inv.stop_goes_on (h : Inv cfg s) (hjoins : JoinsOnce cfg) (hphase : s.phase = .cleanup)
    {i : Nat} {pproc : PartProc} (hpproc : s.setup.partitions[i]? = some pproc)
    (hpc : pproc.pc = .stopping) :
    ∃ action, action ≠ .cancel ∧ (s.step cfg action).isSome = true := by
  obtain ⟨group, hgroup⟩ := h.group hpproc
  have horderly := (h.paired i pproc hpproc group hgroup).orderly hjoins
  cases hreceived : group.received with
  | none =>
      rcases Nat.eq_zero_or_pos group.left with hleft | hleft
      · refine ⟨.stopReceives i, Action.noConfusion, ?_⟩
        simp [step, stopReceives, hphase, hpproc, hpc, onRunners, hgroup, RunnerGroup.stopReceives,
          hleft, hreceived]
      · refine ⟨.runnerReturns i none, Action.noConfusion, ?_⟩
        simp [step, onRunners, hgroup, RunnerGroup.returns, hleft]
  | some err =>
      by_cases hclosed : ∀ run ∈ pproc.tables, run.phase = .closed
      · refine ⟨.stopReturns i, Action.noConfusion, ?_⟩
        have hheld : ∀ run ∈ pproc.tables, run.held = true → run.phase = .closed :=
          fun run hrun _ => hclosed run hrun
        simpa [step, stopReturns, hphase, hpproc, hgroup, hreceived, PartProc.stopReturns,
          hpc] using hheld
      · push Not at hclosed
        obtain ⟨run, hmem, hopen⟩ := hclosed
        obtain ⟨j, hrun⟩ := List.mem_iff_getElem?.mp hmem
        refine ⟨.closeTable i j none, Action.noConfusion, ?_⟩
        simp [step, inCleanup, hphase, hpproc, hgroup, hreceived,
          closeAny_isSome horderly hpc hrun hopen]

/-- Some processor can go on, or all have stopped and `Cleanup` returns. -/
theorem Inv.progress (h : Inv cfg s) (hjoins : JoinsOnce cfg) (hphase : s.phase = .cleanup) :
    ∃ action, action ≠ .cancel ∧ (s.step cfg action).isSome = true := by
  by_cases hstopped : ∀ pproc ∈ s.setup.partitions, hasStopped pproc = true
  · refine ⟨.cleanupReturns, Action.noConfusion, ?_⟩
    simpa [step, Sessions.cleanupReturns, hphase] using hstopped
  · push Not at hstopped
    obtain ⟨pproc, hmem, hgoing⟩ := hstopped
    obtain ⟨i, hpproc⟩ := List.mem_iff_getElem?.mp hmem
    obtain ⟨group, hgroup⟩ := h.group hpproc
    cases hpc : pproc.pc with
    | created | returned exit =>
        refine ⟨.beginStop i, Action.noConfusion, ?_⟩
        simp [step, inCleanup, hphase, hpproc, hgroup, PartProc.beginStop, hpc]
    | recovering =>
        have hstarting := h.not_starting fun session hsetup =>
          SessionPhase.noConfusion (hphase.symm.trans hsetup)
        exact absurd hpc (h.settled hstarting pproc hmem)
    | stopping => exact h.stop_goes_on hjoins hphase hpproc hpc
    | stopped err => exact absurd (by rw [hasStopped, hpc]) hgoing

/-- Nothing of the session is left. -/
structure Clean (s : Sessions) : Prop where
  idle : s.phase = .idle
  unregistered : s.setup.partitions = []
  closed : s.allOpen = []

theorem Inv.clean (h : Inv cfg s) (hjoins : JoinsOnce cfg) (hphase : s.phase = .idle) :
    Clean s := by
  refine ⟨hphase, h.empty hphase, ?_⟩
  rw [h.allOpen_eq hjoins, h.empty hphase]
  rfl

structure Ending (cfg : GroupConfig Codec Callback) (s : Sessions) : Prop where
  inv : Inv cfg s
  phase : s.phase = .cleanup ∨ s.phase = .idle

theorem Ending.cleanup (h : Ending cfg s) (hjoins : JoinsOnce cfg) (hgoing : ¬ Clean s) :
    s.phase = .cleanup :=
  h.phase.resolve_right fun hphase => hgoing (h.inv.clean hjoins hphase)

end Sessions

end Goka

import Goka.Proof.PartitionStart
import Goka.Proof.ProcessorSetup
import Goka.RecoverAhead

/-!
# What recovering ahead leaves behind

A goroutine that has stopped its processor has closed the storages and taken back the registration.
As long as nothing fails and nobody cancels, the context of the group is done only when the group
is, and then every goroutine has come that far.
-/

namespace Goka

open Schedule Processor

/-! ### A processor that has been stopped -/

theorem TableRun.held_step {run run' : TableRun} {action : TableRun.Action}
    (h : run.step action = some run') : run'.held = run.held ∧ run'.phase ≠ .closed := by
  cases TableRun.step_cases h with
  | createFails | creates | enters => exact ⟨rfl, TablePhase.noConfusion⟩
  | event hphase => exact ⟨rfl, by dsimp only; rw [hphase]; exact TablePhase.noConfusion⟩

namespace PartProc

variable {pp pp' : PartProc}

/-- `Stop` reaches every table, and has closed the storage of those it is done with. -/
structure Tidy (pp : PartProc) : Prop where
  held : ∀ run ∈ pp.tables, run.held = true
  closed : ∀ run ∈ pp.tables, run.phase = .closed → run.st ≠ .opened
  stopped : ∀ err, pp.pc = .stopped err → ∀ run ∈ pp.tables, run.phase = .closed

theorem held_joinTables (partition : Int) {joins : List (String × TopicLog)}
    (hnodup : (joins.map Prod.fst).Nodup) :
    ∀ run ∈ joinTables partition joins, run.held = true := by
  induction joins with
  | nil => exact fun _ h => absurd h List.not_mem_nil
  | cons entry rest ih =>
      obtain ⟨hnew, hnodup⟩ := List.nodup_cons.mp hnodup
      refine List.forall_mem_cons.mpr ⟨?_, ih hnodup⟩
      rw [TableRun.new, List.all_eq_true]
      exact fun other hother => decide_eq_true fun heq =>
        hnew (List.mem_map.mpr ⟨other, hother, heq⟩)

theorem tidy_new (partition : Int) (runMode : PPRunMode) (groupTable : Option (String × TopicLog))
    {joins : List (String × TopicLog)} (hnodup : (joins.map Prod.fst).Nodup) :
    Tidy (new partition runMode groupTable joins) where
  held := by
    refine List.forall_mem_append.mpr ⟨?_, held_joinTables partition hnodup⟩
    exact List.forall_mem_map.mpr fun _ _ => rfl
  closed := by
    intro run hrun hphase
    obtain ⟨topic, log, held, rfl⟩ := mem_tables_new hrun
    exact TablePhase.noConfusion hphase
  stopped := fun _ hpc => StartPc.noConfusion hpc

theorem Tidy.cancel (h : Tidy pp) : Tidy pp.cancel where
  held := List.forall_mem_map.mpr h.held
  closed := List.forall_mem_map.mpr h.closed
  stopped := fun err hpc => List.forall_mem_map.mpr (h.stopped err hpc)

/-- A table moves on while the processor has not been stopped. -/
theorem Tidy.move (h : Tidy pp) (hpc : ∀ err, pp.pc ≠ .stopped err) {i : Nat} {run run' : TableRun}
    (hrun : pp.tables[i]? = some run) (hheld : run'.held = run.held)
    (hclosed : run'.phase = .closed → run'.st ≠ .opened) (setupErrs closeErrs : List String) :
    Tidy { pp with
      tables := pp.tables.set i run', setupErrs := setupErrs, closeErrs := closeErrs } where
  held := Threads.forall_mem_set h.held (hheld.trans (h.held run (List.mem_of_getElem? hrun)))
  closed := Threads.forall_mem_set h.closed hclosed
  stopped := fun err hstopped => absurd hstopped (hpc err)

theorem Tidy.returns (h : Tidy pp) (hpc : ∀ err, pp.pc ≠ .stopped err) {i : Nat} {run : TableRun}
    (hrun : pp.tables[i]? = some run) (setupErrs : List String) :
    Tidy { pp with
      tables := pp.tables.set i { run with phase := .returned }, setupErrs := setupErrs } := by
  refine h.move hpc hrun ?_ ?_ _ _
  · rfl
  · exact fun hclosed => TablePhase.noConfusion hclosed

/-- No step takes a table out of the reach of `Stop`. -/
theorem tidy_step {action : Action} (h : Tidy pp) (hstep : pp.step action = some pp') :
    Tidy pp' := by
  have hrecovering : pp.pc = .recovering → ∀ err, pp.pc ≠ .stopped err :=
    fun hpc err hstopped => StartPc.noConfusion (hpc.symm.trans hstopped)
  have hstopping : pp.pc = .stopping → ∀ err, pp.pc ≠ .stopped err :=
    fun hpc err hstopped => StartPc.noConfusion (hpc.symm.trans hstopped)
  cases step_cases hstep with
  | starts | waits => exact ⟨h.held, h.closed, fun _ hpc => StartPc.noConfusion hpc⟩
  | table hpc hrun htable =>
      obtain ⟨hheld, hphase⟩ := TableRun.held_step htable
      exact h.move (hrecovering hpc) hrun hheld (fun hclosed => absurd hclosed hphase) _ _
  | returns hpc hrun => exact h.returns (hrecovering hpc) hrun _
  | fails hpc hrun hphase herrs text =>
      have hmoved := (h.returns (hrecovering hpc) hrun (pp.setupErrs ++ [text])).cancel
      exact ⟨hmoved.held, hmoved.closed, hmoved.stopped⟩
  | stops => exact ⟨h.cancel.held, h.cancel.closed, fun _ hpc => StartPc.noConfusion hpc⟩
  | closes hpc hrun =>
      refine h.move (hstopping hpc) hrun ?_ ?_ _ _
      · rfl
      · exact fun _ => StorageStatus.noConfusion
  | closesNothing hpc hrun hphase hst =>
      refine h.move (hstopping hpc) hrun ?_ ?_ _ _
      · rfl
      · exact fun _ => hst
  | stopReturns hpc hclosed =>
      exact ⟨h.held, h.closed, fun _ _ run hrun => hclosed run hrun (h.held run hrun)⟩
  | cancels => exact h.cancel

theorem Tidy.no_storage_open (h : Tidy pp) {err : Option String} (hpc : pp.pc = .stopped err) :
    ∀ run ∈ pp.tables, run.st ≠ .opened :=
  fun run hrun => h.closed run hrun (h.stopped err hpc run hrun)

end PartProc

/-! ### The startup -/

def StartupPc.entered : StartupPc → Bool
  | .rebalancing _ => true
  | _ => false

def AheadPc.hasLeft : AheadPc → Bool
  | .left _ | .done => true
  | _ => false

namespace Startup

variable {Codec Callback : Type} {cfg : GroupConfig Codec Callback} {s s' : Startup}

inductive Step (cfg : GroupConfig Codec Callback) (s : Startup) : Action → Startup → Prop where
  | findFails {topicPartitions : String → Except String (List Int)} {err : String}
      (hpc : s.pc = .finding)
      (hfind : findStatefulPartitions cfg.graph topicPartitions = .error err) :
      Step cfg s (.find topicPartitions)
        { s with pc := .rebalancing ("error finding dependent partitions: " ++ err) }
  | finds {topicPartitions : String → Except String (List Int)} {partitions : List Int}
      (hpc : s.pc = .finding)
      (hfind : findStatefulPartitions cfg.graph topicPartitions = .ok partitions) :
      Step cfg s (.find topicPartitions) { s with pc := .creating partitions }
  | createFails {log : String → Int → TopicLog} {backoffErr : Option String} {part : Int}
      {rest : List Int} {err : String} (text : String) (hpc : s.pc = .creating (part :: rest))
      (hcreate : createPartitionProcessor cfg log (s.partitions.lookup part).isSome backoffErr part
        .recoverOnly = .error err) :
      Step cfg s (.create log backoffErr) { s with pc := .rebalancing text }
  | begins {log : String → Int → TopicLog} {backoffErr : Option String} {part : Int}
      {rest : List Int} {pproc : PartProc} (hpc : s.pc = .creating (part :: rest))
      (hcreate : createPartitionProcessor cfg log (s.partitions.lookup part).isSome backoffErr part
        .recoverOnly = .ok pproc) :
      Step cfg s (.create log backoffErr) { s with
        pc := .creating rest
        procs := s.procs ++ [⟨if s.ctxDone then pproc.cancel else pproc, .begun⟩] }
  | created {log : String → Int → TopicLog} {backoffErr : Option String}
      (hpc : s.pc = .creating []) : Step cfg s (.create log backoffErr) { s with pc := .waiting }
  | registers {i : Nat} {pproc : PartProc} (hproc : s.procs[i]? = some ⟨pproc, .begun⟩) :
      Step cfg s (.register i) { s with
        partitions := s.partitions.insert pproc.partition i
        procs := s.procs.set i ⟨pproc, .registered⟩ }
  | partProc {i : Nat} {action : PartProc.Action} {pproc pproc' : PartProc}
      (hproc : s.procs[i]? = some ⟨pproc, .registered⟩) (hstep : pproc.step action = some pproc') :
      Step cfg s (.partProc i action) { s with procs := s.procs.set i ⟨pproc', .registered⟩ }
  | leaves {i : Nat} {pproc : PartProc} {err : Option String}
      (hproc : s.procs[i]? = some ⟨pproc, .registered⟩) (hresult : result pproc = some err) :
      Step cfg s (.leave i) { s with
        partitions := s.partitions.erase pproc.partition
        procs := s.procs.set i ⟨pproc, .left err⟩ }
  | collects {i : Nat} {pproc : PartProc} (hproc : s.procs[i]? = some ⟨pproc, .left none⟩) :
      Step cfg s (.collect i) { s with procs := s.procs.set i ⟨pproc, .done⟩ }
  | fails {i : Nat} {pproc : PartProc} {err : String}
      (hproc : s.procs[i]? = some ⟨pproc, .left (some err)⟩) :
      Step cfg s (.collect i)
        { ({ s with procs := s.procs.set i ⟨pproc, .done⟩ } : Startup).cancel with
        errs := s.errs ++ [err] }
  | lookupReturns {i : Nat} :
      Step cfg s (.lookupReturns i) { s with lookups := s.lookups.set i true }
  | groupEnds (hcreating : ∀ rest, s.pc ≠ .creating rest) (hfinding : s.pc ≠ .finding)
      (hall : ∀ proc ∈ s.procs, proc.pc = .done) :
      Step cfg s .groupWait { s.cancel with groupDone := true }
  | contextDone (hpc : s.pc = .waiting) (hdone : s.ctxDone = true) (err : String) :
      Step cfg s .waitContextDone { s with pc := .rebalancing err }
  | groupDone (hpc : s.pc = .waiting) (hdone : s.groupDone = true) (err : String) :
      Step cfg s .waitGroupDone { s with pc := .rebalancing err }
  | cancels : Step cfg s .cancel s.cancel

theorem create_cases {log : String → Int → TopicLog} {backoffErr : Option String}
    (hstep : s.create cfg log backoffErr = some s') : Step cfg s (.create log backoffErr) s' := by
  unfold create at hstep
  split at hstep
  · next hpc =>
      dsimp only at hstep
      split at hstep
      · next hcreate =>
          obtain rfl := Option.some.inj hstep
          exact .createFails _ hpc hcreate
      · next hcreate =>
          obtain rfl := Option.some.inj hstep
          exact .begins hpc hcreate
  · next hpc =>
      obtain rfl := Option.some.inj hstep
      exact .created hpc
  · cases hstep

theorem collect_cases {i : Nat} (hstep : s.collect i = some s') : Step cfg s (.collect i) s' := by
  unfold collect at hstep
  split at hstep
  · next err hproc =>
      cases err with
      | none =>
          obtain rfl := Option.some.inj hstep
          exact .collects hproc
      | some err =>
          obtain rfl := Option.some.inj hstep
          exact .fails hproc
  · cases hstep

theorem groupWait_cases (hstep : s.groupWait = some s') : Step cfg s .groupWait s' := by
  unfold groupWait at hstep
  split at hstep
  · next hpc =>
      obtain ⟨⟨-, hall, -⟩, rfl⟩ := guard_eq_some.mp hstep
      refine .groupEnds (fun rest => ?_) ?_ hall
      · rw [hpc]
        exact StartupPc.noConfusion
      · rw [hpc]
        exact StartupPc.noConfusion
  · next hpc =>
      obtain ⟨⟨-, hall, -⟩, rfl⟩ := guard_eq_some.mp hstep
      refine .groupEnds (fun rest => ?_) ?_ hall
      · rw [hpc]
        exact StartupPc.noConfusion
      · rw [hpc]
        exact StartupPc.noConfusion
  · cases hstep

theorem step_cases {action : Action} (hstep : s.step cfg action = some s') :
    Step cfg s action s' := by
  cases action with
  | find topicPartitions =>
      obtain ⟨hpc, hstep⟩ := Option.ite_none_right_eq_some.mp hstep
      split at hstep
      · next hfind =>
          obtain rfl := Option.some.inj hstep
          exact .findFails hpc hfind
      · next hfind =>
          obtain rfl := Option.some.inj hstep
          exact .finds hpc hfind
  | create log backoffErr => exact create_cases hstep
  | register i =>
      dsimp only [step, register] at hstep
      split at hstep
      · next hproc =>
          obtain rfl := Option.some.inj hstep
          exact .registers hproc
      · cases hstep
  | partProc i action =>
      dsimp only [step, partProc] at hstep
      split at hstep
      · next hproc =>
          obtain ⟨-, hstep⟩ := Option.ite_none_right_eq_some.mp hstep
          obtain ⟨pproc', hpproc, rfl⟩ := Option.map_eq_some_iff.mp hstep
          exact .partProc hproc hpproc
      · cases hstep
  | leave i =>
      dsimp only [step, leave] at hstep
      split at hstep
      · next hproc =>
          obtain ⟨err, hresult, rfl⟩ := Option.map_eq_some_iff.mp hstep
          exact .leaves hproc hresult
      · cases hstep
  | collect i => exact collect_cases hstep
  | lookupReturns i =>
      obtain ⟨-, rfl⟩ := guard_eq_some.mp hstep
      exact .lookupReturns
  | groupWait => exact groupWait_cases hstep
  | waitContextDone =>
      obtain ⟨⟨hpc, hdone⟩, rfl⟩ := guard_eq_some.mp hstep
      exact .contextDone hpc hdone _
  | waitGroupDone =>
      obtain ⟨⟨hpc, hdone⟩, rfl⟩ := guard_eq_some.mp hstep
      exact .groupDone hpc hdone _
  | cancel =>
      obtain rfl := Option.some.inj hstep
      exact .cancels

/-! ### What is registered -/

/-- Every registration has a goroutine that will take it back. -/
def Owned (s : Startup) : Prop :=
  ∀ part ∈ s.partitions, ∃ (i : Nat) (proc : AheadProc), s.procs[i]? = some proc ∧
    proc.pproc.partition = part ∧ proc.pc = .registered

/-- A goroutine moves on, and may change its registration. -/
theorem Owned.move (h : Owned s) {i : Nat} {proc : AheadProc} (hproc : s.procs[i]? = some proc)
    (proc' : AheadProc) {partitions : GoMap Int Nat}
    (hregistered : ∀ part ∈ partitions, proc'.pproc.partition = part ∧ proc'.pc = .registered ∨
      part ∈ s.partitions ∧ ¬ (proc.pproc.partition = part ∧ proc.pc = .registered)) :
    Owned { s with partitions := partitions, procs := s.procs.set i proc' } := by
  intro part hpart
  rcases hregistered part hpart with hown | ⟨hpart, hother⟩
  · exact ⟨i, proc', List.getElem?_set_self (List.getElem?_eq_some_iff.mp hproc).1, hown⟩
  · obtain ⟨j, proc'', hproc'', hheld⟩ := h part hpart
    have hne : i ≠ j := by
      rintro rfl
      obtain rfl := Option.some.inj (hproc.symm.trans hproc'')
      exact hother hheld
    exact ⟨j, proc'', (List.getElem?_set_ne hne).trans hproc'', hheld⟩

theorem Owned.cancel (h : Owned s) : Owned s.cancel := by
  intro part hpart
  obtain ⟨i, proc, hproc, hheld⟩ := h part hpart
  refine ⟨i, { proc with pproc := proc.pproc.cancel }, ?_, hheld⟩
  rw [Startup.cancel, List.getElem?_map, hproc, Option.map_some]

theorem owned_new (recoverAhead : Bool) (lookups : Nat) : Owned (new recoverAhead lookups) :=
  fun part h => absurd h (AList.notMem_empty part)

/-- The deferred `setPartProc` belongs to the goroutine that has registered the processor. -/
theorem owned_step {action : Action} (h : Owned s) (hstep : Step cfg s action s') : Owned s' := by
  -- the result of a goroutine is collected after it has left
  have hcollects : ∀ {i : Nat} {pproc : PartProc} {err : Option String},
      s.procs[i]? = some ⟨pproc, .left err⟩ →
      Owned { s with procs := s.procs.set i ⟨pproc, .done⟩ } := fun hproc =>
    h.move hproc _ fun part hpart => .inr ⟨hpart, fun hheld => AheadPc.noConfusion hheld.2⟩
  cases hstep with
  | findFails | finds | createFails | created | lookupReturns | contextDone | groupDone => exact h
  | begins hpc =>
      intro part hpart
      obtain ⟨i, proc, hproc, hheld⟩ := h part hpart
      exact ⟨i, proc, (List.getElem?_append_left (List.getElem?_eq_some_iff.mp hproc).1).trans
        hproc, hheld⟩
  | registers hproc =>
      refine h.move hproc _ fun part hpart => ?_
      rcases (AList.mem_insert _).mp hpart with rfl | hpart
      · exact .inl ⟨rfl, rfl⟩
      · exact .inr ⟨hpart, fun hheld => AheadPc.noConfusion hheld.2⟩
  | @partProc i action pproc pproc' hproc hpproc =>
      refine h.move hproc _ fun part hpart => ?_
      rcases eq_or_ne pproc.partition part with heq | hne
      · exact .inl ⟨(PartProc.partition_step hpproc).trans heq, rfl⟩
      · exact .inr ⟨hpart, fun hheld => hne hheld.1⟩
  | leaves hproc =>
      refine h.move hproc _ fun part hpart => ?_
      obtain ⟨hne, hpart⟩ := AList.mem_erase.mp hpart
      exact .inr ⟨hpart, fun hheld => hne hheld.1.symm⟩
  | collects hproc => exact hcollects hproc
  | fails hproc => exact (hcollects hproc).cancel
  | groupEnds | cancels => exact h.cancel

structure Finished (s : Startup) : Prop where
  entered : s.pc.entered = true
  left : ∀ proc ∈ s.procs, proc.pc.hasLeft = true

theorem entered_step {action : Action} (h : s.pc.entered = true) (hstep : Step cfg s action s') :
    s'.pc.entered = true := by
  cases hstep with
  | findFails hpc | finds hpc | createFails _ hpc | begins hpc | created hpc | contextDone hpc
  | groupDone hpc =>
      rw [hpc] at h
      cases h
  | _ => exact h

/-- Behind the startup nothing registers a processor for recovering ahead. -/
theorem finished_step {action : Action} (h : Finished s) (hstep : Step cfg s action s') :
    Finished s' := by
  have hbusy : ∀ {i : Nat} {proc : AheadProc}, s.procs[i]? = some proc → proc.pc.hasLeft ≠ false :=
    fun hproc hleft => Bool.false_ne_true (hleft.symm.trans (h.left _ (List.mem_of_getElem? hproc)))
  refine ⟨entered_step h.entered hstep, ?_⟩
  cases hstep with
  | begins hpc =>
      have hentered := h.entered
      rw [hpc] at hentered
      cases hentered
  | registers hproc | partProc hproc | leaves hproc => exact absurd rfl (hbusy hproc)
  | collects => exact Threads.forall_mem_set h.left rfl
  | fails => exact List.forall_mem_map.mpr (Threads.forall_mem_set h.left rfl)
  | groupEnds | cancels => exact List.forall_mem_map.mpr h.left
  | _ => exact h.left

theorem Owned.nothing_registered (h : Owned s) (hleft : ∀ proc ∈ s.procs, proc.pc.hasLeft = true)
    (part : Int) : part ∉ s.partitions := by
  intro hpart
  obtain ⟨i, proc, hproc, -, hregistered⟩ := h part hpart
  have hleft := hleft proc (List.mem_of_getElem? hproc)
  rw [hregistered] at hleft
  cases hleft

/-! ### Recovery without a disturbance -/

/-- The stateful partitions are found and their processors can be created; no start and no stop of
them fails; and the context is not cancelled from outside before the rebalance loop. -/
def Undisturbed (cfg : GroupConfig Codec Callback) (s : Startup) : Action → Prop
  | .find topicPartitions =>
      ∃ partitions ∈ (findStatefulPartitions cfg.graph topicPartitions).toOption, partitions.Nodup
  | .create _ backoffErr => backoffErr = none
  | .leave i => ∀ proc ∈ s.procs[i]?, (result proc.pproc).join = none
  | .cancel => s.pc.entered = true
  | _ => True

instance decidableUndisturbed (cfg : GroupConfig Codec Callback) (s : Startup) :
    DecidablePred (Undisturbed cfg s)
  | .find topicPartitions =>
      inferInstanceAs (Decidable (∃ partitions ∈
        (findStatefulPartitions cfg.graph topicPartitions).toOption, partitions.Nodup))
  | .create _ backoffErr => inferInstanceAs (Decidable (backoffErr = none))
  | .leave i => inferInstanceAs (Decidable (∀ proc ∈ s.procs[i]?, (result proc.pproc).join = none))
  | .cancel => inferInstanceAs (Decidable (s.pc.entered = true))
  | .register _ | .partProc _ _ | .collect _ | .lookupReturns _ | .groupWait | .waitContextDone
  | .waitGroupDone => inferInstanceAs (Decidable True)

def Behind (proc : AheadProc) : Prop :=
  match proc.pc with
  | .left err => err = none ∧ ∃ err, proc.pproc.pc = .stopped err
  | .done => ∃ err, proc.pproc.pc = .stopped err
  | _ => True

structure Inv (s : Startup) : Prop where
  tidy : ∀ proc ∈ s.procs, proc.pproc.Tidy
  behind : ∀ proc ∈ s.procs, Behind proc
  owned : Owned s
  unbegun : s.pc = .finding → s.procs = []
  fresh : ∀ rest, s.pc = .creating rest →
    (s.procs.map (fun proc => proc.pproc.partition) ++ rest).Nodup
  context : s.ctxDone = true → s.groupDone = true
  entered : s.pc.entered = true → s.groupDone = true
  group : s.groupDone = true → (∀ rest, s.pc ≠ .creating rest) ∧ s.pc ≠ .finding ∧
    ∀ proc ∈ s.procs, proc.pc = .done

theorem inv_new (recoverAhead : Bool) (lookups : Nat) : Inv (new recoverAhead lookups) where
  tidy := fun _ h => absurd h List.not_mem_nil
  behind := fun _ h => absurd h List.not_mem_nil
  owned := owned_new recoverAhead lookups
  unbegun := fun _ => rfl
  fresh := by
    intro rest hpc
    cases recoverAhead <;> exact StartupPc.noConfusion hpc
  context := fun h => Bool.noConfusion h
  entered := by
    intro hpc
    cases recoverAhead <;> exact Bool.noConfusion hpc
  group := fun h => Bool.noConfusion h

theorem Inv.not_groupDone (h : Inv s) {i : Nat} {proc : AheadProc} (hproc : s.procs[i]? = some proc)
    (hbusy : proc.pc ≠ .done) : s.groupDone = false := by
  rw [Bool.eq_false_iff]
  exact fun hdone => hbusy ((h.group hdone).2.2 proc (List.mem_of_getElem? hproc))

/-- A goroutine moves on, and may change its registration. -/
theorem Inv.move (h : Inv s) {i : Nat} {proc : AheadProc} (hproc : s.procs[i]? = some proc)
    (hbusy : proc.pc ≠ .done) (proc' : AheadProc) (htidy : proc'.pproc.Tidy)
    (hbehind : Behind proc') (hpartition : proc'.pproc.partition = proc.pproc.partition)
    {partitions : GoMap Int Nat}
    (howned : Owned { s with partitions := partitions, procs := s.procs.set i proc' }) :
    Inv { s with partitions := partitions, procs := s.procs.set i proc' } where
  tidy := Threads.forall_mem_set h.tidy htidy
  behind := Threads.forall_mem_set h.behind hbehind
  owned := howned
  unbegun := by
    intro hpc
    rw [h.unbegun hpc, List.getElem?_nil] at hproc
    exact absurd hproc.symm (Option.some_ne_none proc)
  fresh := by
    have hsame : (s.procs.set i proc').map (fun proc => proc.pproc.partition)
        = s.procs.map fun proc => proc.pproc.partition := Threads.map_set_of_eq hproc hpartition
    dsimp only
    rw [hsame]
    exact h.fresh
  context := h.context
  entered := h.entered
  group := fun hdone => Bool.noConfusion ((h.not_groupDone hproc hbusy).symm.trans hdone)

theorem Inv.cancel (h : Inv s) (hdone : s.groupDone = true) : Inv s.cancel where
  tidy := List.forall_mem_map.mpr fun proc hproc => (h.tidy proc hproc).cancel
  behind := List.forall_mem_map.mpr h.behind
  owned := h.owned.cancel
  unbegun := fun hpc => by rw [Startup.cancel, h.unbegun hpc]; rfl
  fresh := by
    have hsame : ((s.procs.map fun proc => { proc with pproc := proc.pproc.cancel }).map
        fun proc => proc.pproc.partition) = s.procs.map fun proc => proc.pproc.partition := by
      rw [List.map_map]
      rfl
    rw [Startup.cancel, hsame]
    exact h.fresh
  context := fun _ => hdone
  entered := h.entered
  group := by
    intro _
    obtain ⟨hcreating, hfinding, hall⟩ := h.group hdone
    exact ⟨hcreating, hfinding, List.forall_mem_map.mpr hall⟩

theorem tidy_newPartitionProcessor (hjoins : (cfg.graph.inputTables.map fun e => e.name).Nodup)
    (log : String → Int → TopicLog) (partition : Int) (runMode : PPRunMode) :
    (newPartitionProcessor cfg log partition runMode).Tidy := by
  apply PartProc.tidy_new
  rwa [List.map_map]

/-- A goroutine is begun for the next partition. -/
theorem Inv.begin (h : Inv s) {part : Int} {rest : List Int} (hpc : s.pc = .creating (part :: rest))
    {pproc : PartProc} (htidy : pproc.Tidy) (hpart : pproc.partition = part)
    (howned : Owned { s with pc := .creating rest, procs := s.procs ++ [⟨pproc, .begun⟩] }) :
    Inv { s with pc := .creating rest, procs := s.procs ++ [⟨pproc, .begun⟩] } where
  tidy := List.forall_mem_append.mpr ⟨h.tidy, List.forall_mem_singleton.mpr htidy⟩
  behind := List.forall_mem_append.mpr ⟨h.behind, List.forall_mem_singleton.mpr trivial⟩
  owned := howned
  unbegun := fun hfinding => StartupPc.noConfusion hfinding
  fresh := by
    intro rest' hcreating
    obtain rfl := StartupPc.creating.inj hcreating
    have hnodup := h.fresh _ hpc
    rw [← hpart] at hnodup
    rwa [List.map_append, List.append_assoc]
  context := h.context
  entered := fun hentered => Bool.noConfusion hentered
  group := fun hdone => absurd hpc ((h.group hdone).1 _)

/-- The processor of the next partition can be created, as its partition is not registered. -/
theorem Inv.create_eq (h : Inv s) {part : Int} {rest : List Int}
    (hpc : s.pc = .creating (part :: rest)) (log : String → Int → TopicLog) :
    createPartitionProcessor cfg log (s.partitions.lookup part).isSome none part .recoverOnly
      = .ok (newPartitionProcessor cfg log part .recoverOnly) := by
  have habsent : s.partitions.lookup part = none := by
    rw [AList.lookup_eq_none]
    intro hpart
    obtain ⟨i, proc, hproc, hpartition, -⟩ := h.owned part hpart
    have hmem : part ∈ s.procs.map fun proc => proc.pproc.partition :=
      List.mem_map.mpr ⟨proc, List.mem_of_getElem? hproc, hpartition⟩
    exact List.disjoint_of_nodup_append (h.fresh _ hpc) hmem List.mem_cons_self
  rw [habsent]
  rfl

theorem result_eq_some_none {pproc : PartProc} (h : result pproc = some none) :
    pproc.pc = .stopped none := by
  unfold result at h
  split at h
  · next exit hpc =>
      obtain ⟨err, -, herr⟩ := Option.map_eq_some_iff.mp h
      exact absurd herr (Option.some_ne_none err)
  · next err hpc => rw [hpc, Option.some.inj h]
  · cases h

/-- The waiting ends when the group has. -/
theorem Inv.enter (h : Inv s) (hdone : s.groupDone = true) (err : String) :
    Inv { s with pc := .rebalancing err } where
  tidy := h.tidy
  behind := h.behind
  owned := h.owned
  unbegun := fun hfinding => StartupPc.noConfusion hfinding
  fresh := fun _ hcreating => StartupPc.noConfusion hcreating
  context := h.context
  entered := fun _ => hdone
  group := fun _ => ⟨fun _ => StartupPc.noConfusion, StartupPc.noConfusion, (h.group hdone).2.2⟩

/-- The group is done when its last goroutine has returned, and nobody cancels it before. -/
theorem inv_step {action : Action} (hjoins : (cfg.graph.inputTables.map fun e => e.name).Nodup)
    (h : Inv s) (hundisturbed : Undisturbed cfg s action) (hstep : s.step cfg action = some s') :
    Inv s' := by
  have hon := step_cases hstep
  have howned := owned_step h.owned hon
  cases hon with
  | findFails hpc hfind =>
      obtain ⟨partitions, hfound, -⟩ := hundisturbed
      rw [hfind] at hfound
      exact absurd hfound.symm (Option.some_ne_none partitions)
  | finds hpc hfind =>
      obtain ⟨partitions, hfound, hnodup⟩ := hundisturbed
      rw [hfind] at hfound
      obtain rfl := Option.some.inj hfound
      refine ⟨h.tidy, h.behind, howned, fun hfinding => StartupPc.noConfusion hfinding, ?_,
        h.context, fun hentered => Bool.noConfusion hentered,
        fun hdone => absurd hpc (h.group hdone).2.1⟩
      intro rest hcreating
      obtain rfl := StartupPc.creating.inj hcreating
      rwa [h.unbegun hpc]
  | @createFails log _ _ _ _ _ hpc hcreate =>
      obtain rfl := hundisturbed
      rw [h.create_eq hpc log] at hcreate
      cases hcreate
  | @begins log _ part _ _ hpc hcreate =>
      obtain rfl := hundisturbed
      rw [h.create_eq hpc log] at hcreate
      obtain rfl := Except.ok.inj hcreate
      have hopen : ¬ s.ctxDone = true := fun hctx => (h.group (h.context hctx)).1 _ hpc
      rw [if_neg hopen] at howned ⊢
      exact h.begin hpc (tidy_newPartitionProcessor hjoins log part .recoverOnly) rfl howned
  | created hpc =>
      exact ⟨h.tidy, h.behind, howned, fun hfinding => StartupPc.noConfusion hfinding,
        fun _ hcreating => StartupPc.noConfusion hcreating, h.context,
        fun hentered => Bool.noConfusion hentered, fun hdone => absurd hpc ((h.group hdone).1 _)⟩
  | @registers i pproc hproc =>
      have htidy := h.tidy _ (List.mem_of_getElem? hproc)
      exact h.move hproc AheadPc.noConfusion ⟨pproc, .registered⟩ htidy trivial rfl howned
  | @partProc i action pproc pproc' hproc hpproc =>
      have htidy := PartProc.tidy_step (h.tidy _ (List.mem_of_getElem? hproc)) hpproc
      have hpartition := PartProc.partition_step hpproc
      exact h.move hproc AheadPc.noConfusion ⟨pproc', .registered⟩ htidy trivial hpartition howned
  | @leaves i pproc err hproc hresult =>
      have hnone := hundisturbed _ hproc
      rw [hresult] at hnone
      obtain rfl : err = none := hnone
      have hstopped := result_eq_some_none hresult
      have htidy := h.tidy _ (List.mem_of_getElem? hproc)
      exact h.move hproc AheadPc.noConfusion ⟨pproc, .left none⟩ htidy ⟨rfl, none,
        hstopped⟩ rfl howned
  | @collects i pproc hproc =>
      obtain ⟨-, hstopped⟩ := h.behind _ (List.mem_of_getElem? hproc)
      have htidy := h.tidy _ (List.mem_of_getElem? hproc)
      exact h.move hproc AheadPc.noConfusion ⟨pproc, .done⟩ htidy hstopped rfl howned
  | fails hproc =>
      obtain ⟨hnone, -⟩ := h.behind _ (List.mem_of_getElem? hproc)
      exact absurd hnone (Option.some_ne_none _)
  | lookupReturns =>
      exact ⟨h.tidy, h.behind, howned, h.unbegun, h.fresh, h.context, h.entered, h.group⟩
  | groupEnds hcreating hfinding hall =>
      have hdone : Inv { s with groupDone := true } :=
        ⟨h.tidy, h.behind, h.owned, h.unbegun, h.fresh, fun _ => rfl, fun _ => rfl,
          fun _ => ⟨hcreating, hfinding, hall⟩⟩
      exact hdone.cancel rfl
  | contextDone hpc hctx => exact h.enter (h.context hctx) _
  | groupDone hpc hdone => exact h.enter hdone _
  | cancels => exact h.cancel (h.entered hundisturbed)

theorem Inv.nothing_registered (h : Inv s) (hdone : s.groupDone = true) (part : Int) :
    part ∉ s.partitions := by
  refine h.owned.nothing_registered (fun proc hproc => ?_) part
  rw [(h.group hdone).2.2 proc hproc]
  rfl

theorem Inv.nothing_open (h : Inv s) (hdone : s.groupDone = true) :
    ∀ proc ∈ s.procs, ∀ run ∈ proc.pproc.tables, run.st ≠ .opened := by
  intro proc hproc
  have hbehind := h.behind proc hproc
  rw [Behind, (h.group hdone).2.2 proc hproc] at hbehind
  obtain ⟨err, hstopped⟩ := hbehind
  exact (h.tidy proc hproc).no_storage_open hstopped

/-- **Recovering ahead leaves nothing behind**, in every run that finds its partitions and creates
their processors, in which no start and no stop fails, and that is not cancelled before the
rebalance loop: there no partition is registered, every storage is closed, and `Setup` can create
its processors. -/
theorem nothing_left_behind (cfg : GroupConfig Codec Callback) (recoverAhead : Bool) (lookups : Nat)
    (actions : List Action) (hjoins : (cfg.graph.inputTables.map fun e => e.name).Nodup)
    (hundisturbed : ∀ t ∈ transitions (step cfg) (new recoverAhead lookups) actions,
      Undisturbed cfg t.1 t.2.1) (s : Startup)
    (hs : run (step cfg) (new recoverAhead lookups) actions = s) (hentered : s.pc.entered = true) :
    (∀ part, part ∉ s.partitions) ∧
      (∀ proc ∈ s.procs, ∀ run ∈ proc.pproc.tables, run.st ≠ .opened) ∧
      ∀ log part runMode,
        createPartitionProcessor cfg log (s.partitions.lookup part).isSome none part runMode
          = .ok (newPartitionProcessor cfg log part runMode) := by
  have hinv : Inv s := by
    rw [← hs]
    exact run_invariant_of_allowed (Undisturbed cfg)
      (fun _ _ _ h ha hstep => inv_step hjoins h ha hstep)
      (inv_new recoverAhead lookups) hundisturbed
  have hdone := hinv.entered hentered
  have hregistered := hinv.nothing_registered hdone
  refine ⟨hregistered, hinv.nothing_open hdone, fun log part runMode => ?_⟩
  rw [AList.lookup_eq_none.mpr (hregistered part)]
  rfl

def createAhead (partitions : List Int) : List Action :=
  .find (fun _ => .ok partitions) ::
  List.replicate (partitions.length + 1) (.create (fun _ _ => .empty) none)

def startAndStop (tables closed : List Nat) : List PartProc.Action :=
  .start :: tables.flatMap SessionSetup.recoverEmpty ++ [.wait, .stop] ++
    (closed.map fun j => .closeTable j none) ++ [.stopReturns]

def recoverAndStop (i : Nat) (tables closed : List Nat) : List Action :=
  .register i :: (startAndStop tables closed).map (.partProc i) ++ [.leave i, .collect i]

def recoverTwo : List Action :=
  createAhead [0, 1] ++ recoverAndStop 0 [0, 1] [1, 0] ++ recoverAndStop 1 [1, 0] [0, 1] ++
    [.groupWait, .waitGroupDone]

theorem nothing_left_behind_two_partitions :
    (run (step (tableConfig ["join"])) (new true 0) recoverTwo).pc.entered = true ∧
      (run (step (tableConfig ["join"])) (new true 0) recoverTwo).procs.length = 2 ∧
      ∀ proc ∈ (run (step (tableConfig ["join"])) (new true 0) recoverTwo).procs,
        ∀ run ∈ proc.pproc.tables, run.st ≠ .opened := by
  have hentered : (run (step (tableConfig ["join"])) (new true 0) recoverTwo).pc.entered
      = true := by
    decide +kernel
  refine ⟨hentered, by decide +kernel, ?_⟩
  exact (nothing_left_behind (tableConfig ["join"]) true 0 recoverTwo (by decide)
    (by decide +kernel) _ rfl
    hentered).2.1

def openStorage (i : Nat) : List Action :=
  [.register i, .partProc i .start, .partProc i (.table 0 (.create none none none)),
    .partProc i (.table 0 .enter)]

def failStart (i : Nat) : List Action :=
  [.partProc i (.table 0 (.event (.gotOffset (.error "corrupted")))), .partProc i (.returns 0),
    .partProc i .wait, .leave i, .collect i]

def oneFails : List Action :=
  createAhead [0] ++ openStorage 0 ++ failStart 0 ++ [.waitContextDone]

def oneOfTwoFails : List Action :=
  createAhead [0, 1] ++ openStorage 0 ++ openStorage 1 ++ failStart 0 ++ [.waitContextDone]

def joinedTwice : GroupConfig Unit Unit :=
  { tableConfig [] with
    graph := { GroupGraph.empty "g" with inputTables := [⟨"a", some ()⟩, ⟨"a", some ()⟩] } }

/-- The rebalance loop is entered with an open storage after a failed start, and also after an
undisturbed one where a table is joined twice; and with a partition that is still registered. -/
theorem storage_and_registration_left :
    (∃ s, run (step (tableConfig [])) (new true 0) oneFails = s ∧ s.pc.entered = true ∧
      ∃ proc ∈ s.procs, ∃ run ∈ proc.pproc.tables, run.st = .opened) ∧
    (∃ s, run (step joinedTwice) (new true 0) (createAhead [0] ++
        recoverAndStop 0 [0, 1] [1] ++ [.groupWait, .waitGroupDone]) = s ∧
      s.pc.entered = true ∧ ∃ proc ∈ s.procs, ∃ run ∈ proc.pproc.tables, run.st = .opened) ∧
    ∃ s, run (step (tableConfig [])) (new true 0) oneOfTwoFails = s ∧ s.pc.entered = true ∧
      1 ∈ s.partitions ∧ createPartitionProcessor (tableConfig []) (fun _ _ => .empty)
        (s.partitions.lookup 1).isSome none 1 .active
          = .error "processor [g]: partition 1 already exists" := by
  refine ⟨⟨_, rfl, ?_, ?_⟩, ⟨_, rfl, ?_, ?_⟩, _, rfl, ?_, ?_, ?_⟩
  · decide +kernel
  · decide +kernel
  · decide +kernel
  · decide +kernel
  · decide +kernel
  · decide +kernel
  · rfl

end Startup

end Goka

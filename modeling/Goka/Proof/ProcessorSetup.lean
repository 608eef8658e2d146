import Goka.ProcessorSetup
import Goka.Proof.Assignment
import Goka.Proof.PartitionStart

/-!
# A processor that is running has recovered

`Setup` starts every processor it has registered, and waits for all of them. When it can create them
all and no start is disturbed, the tables of every claimed partition have recovered by the time it
returns.
-/

namespace Goka

open Schedule Processor

namespace Processor

def tableConfig (joins : List String) : GroupConfig Unit Unit where
  graph := { GroupGraph.empty "g" with
    groupTable := [⟨"g-table", some ()⟩]
    inputTables := joins.map fun name => ⟨name, some ()⟩ }
  hotStandby := false

/-- Every partition that is claimed for some topic is assigned. -/
theorem mem_of_verifyClaims {assignment : Assignment} {result : Option Assignment}
    {entries : List (Sigma fun _ : String => List Int)}
    (h : verifyClaims entries (some assignment) = .ok result) :
    result = some assignment ∧ ∀ entry ∈ entries, ∀ part ∈ entry.2, part ∈ assignment := by
  induction entries with
  | nil => exact ⟨(Except.ok.inj h).symm, fun _ hentry => absurd hentry List.not_mem_nil⟩
  | cons entry rest ih =>
      obtain ⟨topic, claim⟩ := entry
      rw [verifyClaims] at h
      split at h
      · cases h
      · split at h
        · cases h
        · next hall =>
            obtain ⟨hresult, hrest⟩ := ih h
            refine ⟨hresult, List.forall_mem_cons.mpr ⟨fun part hpart => ?_, hrest⟩⟩
            by_contra hmissing
            apply hall
            rw [List.any_eq_true]
            exact ⟨part, hpart, by rw [AList.lookup_eq_none.mpr hmissing]; rfl⟩

theorem mem_assigned {claims : GoMap String (List Int)} {assignment : Option Assignment}
    (h : assignmentFromSession claims = .ok assignment) :
    ∀ entry ∈ claims.entries, ∀ part ∈ entry.2,
      part ∈ Assignment.assignedPartitions assignment := by
  rw [assignmentFromSession] at h
  cases hentries : claims.entries with
  | nil => exact fun _ hentry => absurd hentry List.not_mem_nil
  | cons first rest =>
      obtain ⟨topic, claim⟩ := first
      rw [hentries, verifyClaims] at h
      obtain ⟨rfl, hrest⟩ := mem_of_verifyClaims h
      refine List.forall_mem_cons.mpr ⟨fun part hpart => ?_, fun entry hentry part hpart => ?_⟩
      · exact AList.mem_keys.mp (Assignment.mem_ofClaim.mpr hpart)
      · exact AList.mem_keys.mp (hrest entry hentry part hpart)

theorem nodup_assignedPartitions (assignment : Option Assignment) :
    (Assignment.assignedPartitions assignment).Nodup := by
  cases assignment with
  | none => exact List.nodup_nil
  | some assignment => exact assignment.keys_nodup

end Processor

namespace SessionSetup

variable {Codec Callback : Type} {cfg : GroupConfig Codec Callback} {session : Session}
  {s s' : SessionSetup}

/-! ### Creating the processors -/

theorem hasPartProc_iff {partitions : List PartProc} {partition : Int} :
    hasPartProc partitions partition = true ↔ partition ∈ partitions.map PartProc.partition := by
  simp [hasPartProc]

structure Registers (cfg : GroupConfig Codec Callback) (session : Session) (wanted : List Int)
    (before : List PartProc) (result : List PartProc × Option String) : Prop where
  keeps : before ⊆ result.1
  new : ∀ pproc ∈ result.1, pproc ∈ before ∨ ∃ partition runMode,
    pproc = newPartitionProcessor cfg session.log partition runMode
  all : result.2 = none → ∀ partition ∈ wanted, hasPartProc result.1 partition = true

theorem hasPartProc_of_subset {before after : List PartProc} (h : before ⊆ after) {partition : Int}
    (hhas : hasPartProc before partition = true) : hasPartProc after partition = true := by
  exact hasPartProc_iff.mpr (List.map_subset _ h (hasPartProc_iff.mp hhas))

theorem createPartitionProcessor_eq_ok {log : String → Int → TopicLog} {has : Bool}
    {backoffErr : Option String} {partition : Int} {runMode : PPRunMode} {pproc : PartProc}
    (h : createPartitionProcessor cfg log has backoffErr partition runMode = .ok pproc) :
    pproc = newPartitionProcessor cfg log partition runMode := by
  unfold createPartitionProcessor at h
  split at h
  · cases h
  · split at h
    · cases h
    · exact (Except.ok.inj h).symm

/-- What is registered already is left alone. -/
theorem createAll_registers (cfg : GroupConfig Codec Callback) (session : Session)
    (runMode : PPRunMode) (wanted : List Int) (before : List PartProc) :
    Registers cfg session wanted before (createAll cfg session runMode wanted before) := by
  induction wanted generalizing before with
  | nil => exact ⟨fun _ h => h, fun _ h => .inl h, fun _ _ h => absurd h List.not_mem_nil⟩
  | cons partition rest ih =>
      rw [createAll]
      split
      · next hskip =>
          obtain ⟨hkeeps, hnew, hall⟩ := ih before
          refine ⟨hkeeps, hnew, fun hok => List.forall_mem_cons.mpr ⟨?_, hall hok⟩⟩
          exact hasPartProc_of_subset hkeeps hskip.2
      · split
        · exact ⟨fun _ h => h, fun _ h => .inl h, fun herr => absurd herr (Option.some_ne_none _)⟩
        · next pproc hcreate =>
            obtain rfl := createPartitionProcessor_eq_ok hcreate
            obtain ⟨hkeeps, hnew, hall⟩ :=
              ih (before ++ [newPartitionProcessor cfg session.log partition runMode])
            refine ⟨fun _ h => hkeeps (List.mem_append_left _ h), fun pproc hpproc => ?_,
              fun hok => ?_⟩
            · rcases hnew pproc hpproc with hold | hfresh
              · rcases List.mem_append.mp hold with hold | hlast
                · exact .inl hold
                · exact .inr ⟨partition, runMode, List.mem_singleton.mp hlast⟩
              · exact .inr hfresh
            · refine List.forall_mem_cons.mpr ⟨?_, hall hok⟩
              have hlast := hkeeps (List.mem_append_right before (List.mem_singleton_self _))
              exact hasPartProc_iff.mpr (List.mem_map.mpr ⟨_, hlast, rfl⟩)

/-- Where the backoff builder does not fail, only a partition that exists stops the loop. -/
theorem createAll_succeeds (hbackoff : ∀ partition, session.backoff partition = none)
    {runMode : PPRunMode}
    {wanted : List Int} {before : List PartProc}
    (hfresh : runMode = .passive ∨
      wanted.Nodup ∧ ∀ partition ∈ wanted, hasPartProc before partition = false) :
    (createAll cfg session runMode wanted before).2 = none := by
  induction wanted generalizing before with
  | nil => rfl
  | cons partition rest ih =>
      rw [createAll]
      split
      · next hskip => exact ih (.inl hskip.1)
      · next hcreates =>
          have habsent : hasPartProc before partition = false := by
            rw [Bool.eq_false_iff]
            intro hhas
            rcases hfresh with hpassive | ⟨-, hfresh⟩
            · exact hcreates ⟨hpassive, hhas⟩
            · exact Bool.noConfusion ((hfresh partition List.mem_cons_self).symm.trans hhas)
          rw [habsent, hbackoff, createPartitionProcessor, if_neg Bool.false_ne_true]
          apply ih
          refine hfresh.imp id fun ⟨hnodup, hfresh⟩ => ?_
          obtain ⟨hnew, hnodup⟩ := List.nodup_cons.mp hnodup
          refine ⟨hnodup, fun other hother => ?_⟩
          have hne : partition ≠ other := fun heq => hnew (heq ▸ hother)
          have hother := hfresh other (List.mem_cons_of_mem _ hother)
          simpa [hasPartProc, newPartitionProcessor, PartProc.new, hne] using hother

/-- The claims are accepted, the backoff builder does not fail, and the stateful partitions are
known if there are standbys. -/
structure Accepted (cfg : GroupConfig Codec Callback) (session : Session) : Prop where
  claims : ∃ assignment, assignmentFromSession session.claims = .ok assignment
  backoff : ∀ partition, session.backoff partition = none
  standby : cfg.hotStandby = true → ∃ all,
    findStatefulPartitions cfg.graph session.partitions = .ok all

structure Created (cfg : GroupConfig Codec Callback) (session : Session)
    (partitions : List PartProc) : Prop where
  new : ∀ pproc ∈ partitions, ∃ partition runMode,
    pproc = newPartitionProcessor cfg session.log partition runMode
  claimed : ∀ entry ∈ session.claims.entries, ∀ part ∈ entry.2,
    part ∈ partitions.map PartProc.partition

/-- The claimed partitions first, and with standbys the other ones. -/
theorem createProcessors_eq (h : Accepted cfg session) :
    ∃ partitions, createProcessors cfg session [] = (partitions, none) ∧
      Created cfg session partitions := by
  obtain ⟨assignment, hassignment⟩ := h.claims
  have hactive := createAll_registers cfg session .active (Assignment.assignedPartitions assignment)
    []
  obtain ⟨active, heq⟩ : ∃ active,
      createAll cfg session .active (Assignment.assignedPartitions assignment) []
        = (active, none) :=
    ⟨_, Prod.ext rfl (createAll_succeeds h.backoff
      (.inr ⟨nodup_assignedPartitions assignment, fun _ _ => rfl⟩))⟩
  rw [heq] at hactive
  have hnew : ∀ pproc ∈ active, ∃ partition runMode,
      pproc = newPartitionProcessor cfg session.log partition runMode :=
    fun pproc hpproc => (hactive.new pproc hpproc).resolve_left List.not_mem_nil
  have hclaimed : ∀ entry ∈ session.claims.entries, ∀ part ∈ entry.2,
      part ∈ active.map PartProc.partition := fun entry hentry part hpart =>
    hasPartProc_iff.mp (hactive.all rfl part (mem_assigned hassignment entry hentry part hpart))
  simp only [createProcessors, hassignment, heq]
  cases hstandby : cfg.hotStandby with
  | false => exact ⟨active, if_neg Bool.false_ne_true, hnew, hclaimed⟩
  | true =>
      obtain ⟨all, hall⟩ := h.standby hstandby
      have hpassive := createAll_registers cfg session .passive all active
      obtain ⟨partitions, heq'⟩ : ∃ partitions,
          createAll cfg session .passive all active = (partitions, none) :=
        ⟨_, Prod.ext rfl (createAll_succeeds h.backoff (.inl rfl))⟩
      rw [heq'] at hpassive
      refine ⟨partitions, by rw [if_pos rfl, hall]; exact heq', fun pproc hpproc => ?_, ?_⟩
      · exact (hpassive.new pproc hpproc).elim (hnew pproc) id
      · intro entry hentry part hpart
        exact List.map_subset _ hpassive.keeps (hclaimed entry hentry part hpart)

/-! ### The invariant -/

def tableTopics (cfg : GroupConfig Codec Callback) : List String :=
  (cfg.graph.theGroupTable.toList ++ cfg.graph.inputTables).map fun e => e.name

theorem topics_newPartitionProcessor (log : String → Int → TopicLog) (partition : Int)
    (runMode : PPRunMode) :
    (newPartitionProcessor cfg log partition runMode).topics = tableTopics cfg := by
  rw [newPartitionProcessor, PartProc.topics_new, tableTopics]
  cases cfg.graph.theGroupTable <;> simp

/-- The context of the session is not cancelled before all tables are back, and no table fails. -/
def Undisturbed (s : SessionSetup) : Action → Prop
  | .setup => s.sessionDone = false
  | .partProc i action => ∀ pproc ∈ s.partitions[i]?, pproc.Undisturbed action
  | .cancel => ∀ pproc ∈ s.partitions, pproc.Undisturbed .cancel
  | _ => True

instance decidableUndisturbed (s : SessionSetup) : DecidablePred s.Undisturbed
  | .setup => inferInstanceAs (Decidable (s.sessionDone = false))
  | .partProc i action =>
      inferInstanceAs (Decidable (∀ pproc ∈ s.partitions[i]?, pproc.Undisturbed action))
  | .cancel => inferInstanceAs (Decidable (∀ pproc ∈ s.partitions, pproc.Undisturbed .cancel))
  | .startReturns _ | .wait => inferInstanceAs (Decidable True)

structure Inv (cfg : GroupConfig Codec Callback) (session : Session) (s : SessionSetup) : Prop where
  idle : s.pc = .idle → s.partitions = []
  running : s.state = .running →
    (∃ err, s.pc = .returned err) ∧ ∀ pproc ∈ s.partitions, hasReturned pproc = true
  procs : ∀ pproc ∈ s.partitions, pproc.Inv ∧ pproc.topics = tableTopics cfg
  claimed : s.pc ≠ .idle → ∀ entry ∈ session.claims.entries, ∀ part ∈ entry.2,
    part ∈ s.partitions.map PartProc.partition

theorem inv_new (cfg : GroupConfig Codec Callback) (session : Session) : Inv cfg session new where
  idle := fun _ => rfl
  running := fun hrunning => ProcState.noConfusion hrunning
  procs := fun _ hpproc => absurd hpproc List.not_mem_nil
  claimed := fun hpc => absurd rfl hpc

theorem Inv.setup (h : Inv cfg session s) (haccepted : Accepted cfg session)
    (hopen : s.sessionDone = false) (hstep : s.setup cfg session = some s') :
    Inv cfg session s' := by
  obtain ⟨hidle, hstep⟩ := Option.ite_none_right_eq_some.mp hstep
  obtain ⟨partitions, heq, hnew, hclaimed⟩ := createProcessors_eq haccepted
  rw [h.idle hidle, heq] at hstep
  dsimp only at hstep
  rw [hopen] at hstep
  obtain rfl := Option.some.inj hstep
  refine ⟨fun hpc => SetupPc.noConfusion hpc, fun hstate => ProcState.noConfusion hstate, ?_,
    fun _ => hclaimed⟩
  intro pproc hpproc
  obtain ⟨partition, runMode, rfl⟩ := hnew pproc hpproc
  exact ⟨PartProc.inv_new _ _ _ _, topics_newPartitionProcessor session.log partition runMode⟩

/-- One processor moves on while `Setup` waits. -/
theorem Inv.move (h : Inv cfg session s) (hpc : s.pc = .starting) {i : Nat}
    {pproc pproc' : PartProc} (hpproc : s.partitions[i]? = some pproc) {action : PartProc.Action}
    (hundisturbed : pproc.Undisturbed action) (hstep : pproc.step action = some pproc')
    (errs : List String) :
    Inv cfg session { s with partitions := s.partitions.set i pproc', errs := errs } where
  idle := fun hidle => SetupPc.noConfusion (hpc.symm.trans hidle)
  running := by
    intro hrunning
    obtain ⟨⟨err, hreturned⟩, -⟩ := h.running hrunning
    exact SetupPc.noConfusion (hpc.symm.trans hreturned)
  procs := by
    obtain ⟨hinv, htopics⟩ := h.procs pproc (List.mem_of_getElem? hpproc)
    apply Threads.forall_mem_set h.procs
    exact ⟨PartProc.inv_step hinv hundisturbed hstep, (PartProc.topics_step hstep).trans htopics⟩
  claimed := by
    have hsame : (s.partitions.set i pproc').map PartProc.partition
        = s.partitions.map PartProc.partition :=
      Threads.map_set_of_eq hpproc (PartProc.partition_step hstep)
    dsimp only
    rw [hsame]
    exact h.claimed

theorem Inv.cancel (h : Inv cfg session s)
    (hback : ∀ pproc ∈ s.partitions, pproc.Undisturbed .cancel) : Inv cfg session s.cancel where
  idle := fun hidle => by rw [SessionSetup.cancel, h.idle hidle]; rfl
  running := by
    intro hrunning
    obtain ⟨hpc, hreturned⟩ := h.running hrunning
    exact ⟨hpc, List.forall_mem_map.mpr hreturned⟩
  procs := by
    refine List.forall_mem_map.mpr fun pproc hpproc => ?_
    obtain ⟨hinv, htopics⟩ := h.procs pproc hpproc
    exact ⟨hinv.cancel (hback pproc hpproc), (PartProc.topics_cancel _).trans htopics⟩
  claimed := by
    have hsame : (s.partitions.map PartProc.cancel).map PartProc.partition
        = s.partitions.map PartProc.partition := by
      rw [List.map_map]
      rfl
    rw [SessionSetup.cancel, hsame]
    exact h.claimed

theorem returned_of_hasReturned {pproc : PartProc} (h : hasReturned pproc = true) :
    ∃ exit, pproc.pc = .returned exit := by
  unfold hasReturned at h
  split at h
  · next exit hpc => exact ⟨exit, hpc⟩
  · cases h

/-- `Setup` waits for every processor it has started. -/
theorem inv_step {action : Action} (haccepted : Accepted cfg session) (h : Inv cfg session s)
    (hundisturbed : Undisturbed s action) (hstep : s.step cfg session action = some s') :
    Inv cfg session s' := by
  cases action with
  | setup => exact h.setup haccepted hundisturbed hstep
  | partProc i action =>
      obtain ⟨⟨hpc, -⟩, hstep⟩ := Option.ite_none_right_eq_some.mp hstep
      split at hstep
      · cases hstep
      · next pproc hpproc =>
          obtain ⟨pproc', hpproc', rfl⟩ := Option.map_eq_some_iff.mp hstep
          exact h.move hpc hpproc (hundisturbed pproc hpproc) hpproc' s.errs
  | startReturns i =>
      obtain ⟨hpc, hstep⟩ := Option.ite_none_right_eq_some.mp hstep
      split at hstep
      · cases hstep
      · next pproc hpproc =>
          obtain ⟨pproc', hpproc', rfl⟩ := Option.map_eq_some_iff.mp hstep
          have hwait : pproc.step .wait = some pproc' := hpproc'
          have hundisturbed : pproc.Undisturbed .wait := trivial
          exact h.move hpc hpproc hundisturbed hwait _
  | wait =>
      obtain ⟨⟨hpc, hreturned⟩, rfl⟩ := guard_eq_some.mp hstep
      refine ⟨fun hidle => SetupPc.noConfusion hidle, fun _ => ⟨⟨_, rfl⟩, hreturned⟩, h.procs, ?_⟩
      exact fun _ => h.claimed (by rw [hpc]; exact SetupPc.noConfusion)
  | cancel =>
      obtain rfl := Option.some.inj hstep
      exact h.cancel hundisturbed

theorem Inv.recovered (h : Inv cfg session s) (hrunning : s.state = .running) :
    ∀ pproc ∈ s.partitions, pproc.state = .running ∧ pproc.Recovered (tableTopics cfg) := by
  intro pproc hpproc
  obtain ⟨hinv, htopics⟩ := h.procs pproc hpproc
  have hreturned := (h.running hrunning).2 pproc hpproc
  have hstate : pproc.state = .running := hinv.running.mpr (returned_of_hasReturned hreturned)
  refine ⟨hstate, ?_⟩
  rw [← htopics]
  exact hinv.recovered hstate

/-- **Running means recovered**, at both levels. When no table fails and the context is not
cancelled before all tables are back, a partition processor reports that it is running only when its
group table and all its joins have recovered; and when a session can create its processors, the
processor reports it only when this holds of all of them, and of every claimed partition. -/
theorem running_only_recovered :
    (∀ (partition : Int) (runMode : PPRunMode) (groupTable : Option (String × TopicLog))
        (joins : List (String × TopicLog)) (actions : List PartProc.Action),
      let start := PartProc.new partition runMode groupTable joins
      (∀ t ∈ transitions PartProc.step start actions, t.1.Undisturbed t.2.1) →
        (run PartProc.step start actions).state = .running →
          (run PartProc.step start actions).Recovered ((groupTable.toList ++ joins).map Prod.fst)) ∧
    ∀ (cfg : GroupConfig Codec Callback) (session : Session) (actions : List Action),
      Accepted cfg session →
      (∀ t ∈ transitions (step cfg session) new actions, t.1.Undisturbed t.2.1) →
        (run (step cfg session) new actions).state = .running →
          (∀ entry ∈ session.claims.entries, ∀ part ∈ entry.2,
            part ∈ (run (step cfg session) new actions).partitions.map PartProc.partition) ∧
          ∀ pproc ∈ (run (step cfg session) new actions).partitions,
            pproc.state = .running ∧ pproc.Recovered (tableTopics cfg) := by
  constructor
  · intro partition runMode groupTable joins actions start hundisturbed hrunning
    have hinv : (run PartProc.step start actions).Inv :=
      run_invariant_of_allowed PartProc.Undisturbed
        (fun _ _ _ h ha hstep => PartProc.inv_step h ha hstep)
        (PartProc.inv_new _ _ _ _) hundisturbed
    have htopics : (run PartProc.step start actions).topics = (groupTable.toList ++
      joins).map Prod.fst :=
      run_invariant (fun _ _ _ h hstep => (PartProc.topics_step hstep).trans h)
        (PartProc.topics_new partition runMode groupTable joins) actions
    rw [← htopics]
    exact hinv.recovered hrunning
  · intro cfg session actions haccepted hundisturbed hrunning
    have hinv : Inv cfg session (run (step cfg session) new actions) :=
      run_invariant_of_allowed Undisturbed (fun _ _ _ h ha hstep => inv_step haccepted h ha hstep)
        (inv_new cfg session) hundisturbed
    obtain ⟨err, hpc⟩ := (hinv.running hrunning).1
    refine ⟨hinv.claimed ?_, hinv.recovered hrunning⟩
    rw [hpc]
    exact SetupPc.noConfusion

def claimsOf (partitions : List Int) (log : String → Int → TopicLog) : Session where
  claims := AList.singleton "in" partitions
  backoff := fun _ => none
  partitions := fun _ => .ok partitions
  log := log

def oneClaim : Session := claimsOf [0] fun _ _ => .empty

def recoverEmpty (i : Nat) : List PartProc.Action :=
  [.table i (.create none none none), .table i .enter, .table i (.event (.gotOffset (.ok (-3)))),
    .table i (.event (.gotWatermarks none none)), .table i (.event (.markedRecovered (.ok ()))),
    .returns i]

def recoverRecord (i : Nat) : List PartProc.Action :=
  [.table i (.create none none none), .table i .enter, .table i (.event (.gotOffset (.ok (-3)))),
    .table i (.event (.gotWatermarks none none)), .table i (.event (.consumePartition none)),
    .table i (.event .message), .table i (.event (.updated none)),
    .table i (.event (.offsetSet none)), .table i (.event (.markedRecovered (.ok ()))),
    .table i (.event .drained), .returns i]

def recoverOne : List PartProc.Action := .start :: recoverEmpty 0

def setupWith (actions : List PartProc.Action) : List Action :=
  .setup :: actions.map (.partProc 0) ++ [.startReturns 0, .wait]

def oneRecord : TopicLog := (TopicLog.empty.append ⟨0, [97], some [1]⟩).getD .empty

/-- Two partitions, with a group table that has a record and a join that has none. -/
def twoClaims : Session :=
  claimsOf [0, 1] fun topic _ => if topic = "g-table" then oneRecord else .empty

def setupTwo : List Action :=
  .setup :: ([0, 1].flatMap fun i =>
    (.start :: recoverRecord 0 ++ recoverEmpty 1).map (.partProc i) ++ [.startReturns i]) ++ [.wait]

theorem running_only_recovered_two_partitions :
    (run (step (tableConfig ["join"]) twoClaims) new setupTwo).state = .running ∧
      (run (step (tableConfig ["join"]) twoClaims) new setupTwo).partitions.map PartProc.partition
        = [1, 0] ∧
      ∀ pproc ∈ (run (step (tableConfig ["join"]) twoClaims) new setupTwo).partitions,
        pproc.state = .running ∧ pproc.Recovered ["g-table", "join"] := by
  have haccepted : Accepted (tableConfig ["join"]) twoClaims :=
    ⟨⟨_, rfl⟩, fun _ => rfl, fun hstandby => Bool.noConfusion hstandby⟩
  have hrunning : (run (step (tableConfig ["join"]) twoClaims) new setupTwo).state = .running := by
    decide +kernel
  refine ⟨hrunning, by decide +kernel, ?_⟩
  exact (running_only_recovered.2 (tableConfig ["join"]) twoClaims setupTwo haccepted
    (by decide +kernel)
    hrunning).2

def failOne : List PartProc.Action :=
  [.start, .table 0 (.create (some "disk full") none none), .returns 0]

def cancelOne : List PartProc.Action :=
  [.start, .cancel, .table 0 (.create none none none), .table 0 .enter, .returns 0]

def onePartition : PartProc := .new 0 .active (some ("g-table", .empty)) []

/-- A failed and a cancelled `Start` end as running, and so does the `Setup` that has called it. -/
theorem running_without_recovery :
    (∀ actions ∈ [failOne ++ [.wait], cancelOne ++ [.wait]],
      (run PartProc.step onePartition actions).state = .running ∧
        ¬ (run PartProc.step onePartition actions).Recovered ["g-table"]) ∧
    (run (step (tableConfig []) oneClaim) new (setupWith failOne)).state = .running ∧
      ∃ pproc ∈ (run (step (tableConfig []) oneClaim) new (setupWith failOne)).partitions,
        ¬ pproc.Recovered ["g-table"] := by
  have hnot : ∀ pproc : PartProc, (∃ run ∈ pproc.tables, run.table.state ≠ .running) →
      ¬ pproc.Recovered ["g-table"] :=
    fun pproc ⟨run, hmem, hstate⟩ hrecovered => hstate (hrecovered.2 run hmem).running
  refine ⟨List.forall_mem_cons.mpr ⟨⟨by decide, hnot _ (by decide)⟩,
    List.forall_mem_singleton.mpr ⟨by decide, hnot _ (by decide)⟩⟩, by decide +kernel, ?_⟩
  have hfailed :
      ∃ pproc ∈ (run (step (tableConfig []) oneClaim) new (setupWith failOne)).partitions,
      ∃ run ∈ pproc.tables, run.table.state ≠ .running := by
    decide +kernel
  obtain ⟨pproc, hmem, hstate⟩ := hfailed
  exact ⟨pproc, hmem, hnot pproc hstate⟩

end SessionSetup

end Goka

import Goka.Proof.ViewRecovery

/-!
# When a view that reconnects ends

With automatic reconnects an error of a load never leaves `loadRestarting`: it is waited for some
time, and loaded again. So `Run` comes back only after its context was cancelled, provided that the
storages can be created and that no consumer closes its channel without an error; a channel that is
closed quietly ends the partition.
-/

namespace Goka

open Schedule

namespace ViewTable

variable {autoreconnect : Bool} {s s' : ViewTable} {stored : Option Int}

section TableStep

variable {p p' : PartitionTable} {e : PartitionTable.Event}

theorem restart_step (hstep : p.step e = some p') (hkind : ofLoad e = true) :
    p'.restartOnError = p.restartOnError := by
  cases PartitionTable.step_cases hstep with
  | append | cancel | createFails | setupCancelled | setup | catchup => cases hkind
  | closed | cancelled | reached =>
      unfold PartitionTable.leaveLoadMessages
      split <;> rfl
  | @markCancelled consuming | @recovered consuming | @markFails consuming =>
      cases consuming <;> rfl
  | _ => rfl

/-- `load` that has returned with an error is not left by `loadRestarting`. -/
theorem returned_idle (hrestart : p.restartOnError = true) (hidle : p.returned.pc = .idle) :
    p.errs = [] := by
  by_contra herrs
  rw [PartitionTable.returned] at hidle
  dsimp only at hidle
  rw [if_pos ⟨herrs, hrestart⟩] at hidle
  cases hidle

theorem collect_not_idle {err : String} (hrestart : p.restartOnError = true) :
    (p.collect err).returned.pc ≠ .idle := fun hidle =>
  List.append_ne_nil_of_right_ne_nil _ (List.cons_ne_nil _ _)
    (returned_idle (p := p.collect err) hrestart hidle)

/-- How a call that reconnects comes back. -/
theorem idle_step (hstep : p.step e = some p') (hkind : ofLoad e = true)
    (hrestart : p.restartOnError = true) (hidle : p'.pc = .idle) :
    p'.errs = [] ∧ (p'.cancelled = true ∨ p.pc = .draining ∧ p.errs = [] ∨
      p.pc.marking = true) := by
  have hbusy := ne_idle_of_step hstep hkind
  cases PartitionTable.step_cases hstep with
  | append | cancel | createFails | setupCancelled | setup | catchup => cases hkind
  | offsetFails | watermarksFail | consumeFails => exact absurd hidle (collect_not_idle hrestart)
  | drained hpc =>
      have herrs := returned_idle hrestart hidle
      exact ⟨herrs, .inr (.inl ⟨hpc, herrs⟩)⟩
  | nilMessage | stallTick | consumerError | ignored => exact absurd hidle hbusy
  | closed | cancelled | reached =>
      unfold PartitionTable.leaveLoadMessages at hidle
      split at hidle <;> cases hidle
  | @markCancelled consuming hpc | @recovered consuming hpc =>
      cases consuming with
      | true => cases hidle
      | false => exact ⟨returned_idle (by exact hrestart) hidle, .inr (.inr (by rw [hpc]; rfl))⟩
  | @markFails consuming hpc =>
      cases consuming with
      | true => cases hidle
      | false => exact absurd hidle (collect_not_idle hrestart)
  | backoffCancelled => exact ⟨rfl, .inl (cancelled_of_contextDone hstep :)⟩
  | _ => cases hidle

/-- A load that goes on forever does not stop at the high watermark. -/
theorem selecting_of_offsetSet {record : TableRecord} (hpc : p.pc = .settingOffset record)
    (hstop : p.stopAfterCatchup = false) (hstep : p.step (.offsetSet none) = some p') :
    p'.pc = .selecting := by
  change p.offsetSet none = some p' at hstep
  simp only [PartitionTable.offsetSet, hpc, hstop] at hstep
  obtain rfl := Option.some.inj hstep
  rfl

/-- Why the consumer of a load that goes on forever is drained. -/
theorem draining_step (hstep : p.step e = some p') (hkind : ofLoad e = true)
    (hstop : p.stopAfterCatchup = false) (hdraining : p'.pc = .draining) :
    p'.errs ≠ [] ∨ p'.cancelled = true ∨ e = .messagesClosed ∧ p'.errs = p.errs ∨
      p.pc = .draining ∧ p'.errs = p.errs ∨ p.pc.marking = true := by
  have hcollect : ∀ text : String, p.errs ++ [text] ≠ [] := fun text =>
    List.append_ne_nil_of_right_ne_nil _ (List.cons_ne_nil _ _)
  have hreturned : ∀ q : PartitionTable, q.returned.pc ≠ .draining := by
    intro q
    unfold PartitionTable.returned
    dsimp only
    split <;> exact Pc.noConfusion
  have hleave : p.leaveLoadMessages.errs = p.errs ∧
      p.leaveLoadMessages.cancelled = p.cancelled := by
    unfold PartitionTable.leaveLoadMessages
    split <;> exact ⟨rfl, rfl⟩
  cases PartitionTable.step_cases hstep with
  | append | cancel | createFails | setupCancelled | setup | catchup => cases hkind
  | offsetFails | watermarksFail | consumeFails | drained => exact absurd hdraining (hreturned _)
  | nilMessage | stallTick => exact .inr (.inr (.inr (.inl ⟨hdraining, rfl⟩)))
  | consumerError | updateFails | setFails => exact .inl (hcollect _)
  | closed => exact .inr (.inr (.inl ⟨rfl, hleave.1⟩))
  | cancelled =>
      refine .inr (.inl ?_)
      rw [hleave.2]
      exact cancelled_of_contextDone hstep
  | reached hpc => cases (selecting_of_offsetSet hpc hstop hstep).symm.trans hdraining
  | markCancelled hpc | recovered hpc | markFails hpc =>
      exact .inr (.inr (.inr (.inr (by rw [hpc]; rfl))))
  | ignored hpc => cases hpc.symm.trans hdraining
  | _ => cases hdraining

theorem selecting_of_messagesClosed (hstep : p.step .messagesClosed = some p') :
    p.pc = .selecting := by
  cases PartitionTable.step_cases hstep with
  | closed hpc => exact hpc

theorem catchup_step (hstep : p.step (.catchupForever autoreconnect) = some p') :
    p'.pc = .gettingOffset ∧ p'.stopAfterCatchup = false := by
  cases PartitionTable.step_cases hstep with
  | catchup => exact ⟨rfl, rfl⟩

/-- A call with `restartOnError`, on a storage that could be created. -/
theorem reconnecting_call (hstep : p.step e = some p')
    (hcall : e = .setupAndRecover true (.ok ()) ∨ e = .catchupForever true) :
    (p'.pc ≠ .idle → p'.restartOnError = true) ∧ (p'.pc = .idle → p'.errs = []) := by
  cases PartitionTable.step_cases hstep with
  | setupCancelled hpc => exact ⟨fun hbusy => absurd hpc hbusy, fun _ => rfl⟩
  | setup =>
      rcases hcall with hcall | hcall <;> cases hcall
      exact ⟨fun _ => rfl, fun _ => rfl⟩
  | catchup =>
      rcases hcall with hcall | hcall <;> cases hcall
      exact ⟨fun _ => rfl, fun _ => rfl⟩
  | _ => rcases hcall with hcall | hcall <;> cases hcall

end TableStep

/-- The storage can be created, and the consumer of a load that goes on forever reports an error
before it closes its channel. -/
def Healthy (s : ViewTable) : Action → Prop
  | .create builderErr openErr closeErr =>
      (createStorage builderErr openErr closeErr s.table.cancelled).2 = .ok ()
  | .outside .messagesClosed => s.table.stopAfterCatchup = true ∨ s.table.errs ≠ []
  | _ => True

/-- A partition that reconnects: it never returns an error, and ends to catch up only if it is
cancelled. -/
structure Persists (s : ViewTable) : Prop where
  restarts : s.table.pc ≠ .idle → s.table.restartOnError = true
  clean : s.table.pc = .idle → s.table.errs = []
  going : s.phase = .catching → s.table.pc ≠ .idle → s.table.stopAfterCatchup = false
  drains : s.phase = .catching → s.table.pc = .draining → s.table.errs ≠ [] ∨
    s.table.cancelled = true
  ends : s.phase = .catching → s.table.pc = .idle → s.table.cancelled = true
  returned : s.phase = .returned → s.table.cancelled = true

theorem persists_new (topic : String) (partition : Nat) : Persists (new topic partition) where
  restarts := fun hpc => absurd rfl hpc
  clean := fun _ => rfl
  going := fun hphase => ViewTablePhase.noConfusion hphase
  drains := fun hphase => ViewTablePhase.noConfusion hphase
  ends := fun hphase => ViewTablePhase.noConfusion hphase
  returned := fun hphase => ViewTablePhase.noConfusion hphase

theorem persists_reopen (s : ViewTable) : Persists s.reopen where
  restarts := fun hpc => absurd rfl hpc
  clean := fun _ => rfl
  going := fun hphase => ViewTablePhase.noConfusion hphase
  drains := fun hphase => ViewTablePhase.noConfusion hphase
  ends := fun hphase => ViewTablePhase.noConfusion hphase
  returned := fun hphase => ViewTablePhase.noConfusion hphase

theorem Persists.cancel (h : Persists s) : Persists s.cancel :=
  { h with
    drains := fun _ _ => .inr rfl
    ends := fun _ _ => rfl
    returned := fun _ => rfl }

theorem Persists.append {record : TableRecord} (h : Persists s)
    (hstep : s.append record = some s') : Persists s' := by
  obtain ⟨-, hstep⟩ := Option.ite_none_left_eq_some.mp hstep
  obtain ⟨table, htable, rfl⟩ := Option.map_eq_some_iff.mp hstep
  cases PartitionTable.step_cases htable with
  | append => exact ⟨h.restarts, h.clean, h.going, h.drains, h.ends, h.returned⟩

/-- A load goes on. -/
theorem Persists.loads (h : Persists s) (hsound : Sound s) {e : PartitionTable.Event}
    (hstep : s.table.step e = some s'.table) (hphase : s'.phase = s.phase) (hkind : ofLoad e = true)
    (hclosed : e = .messagesClosed → s.table.stopAfterCatchup = true ∨ s.table.errs ≠ []) :
    Persists s' := by
  have hbusy := ne_idle_of_step hstep hkind
  have hcancelled : s'.table.cancelled = s.table.cancelled := by
    refine cancelled_step hstep ?_
    rintro rfl
    cases hkind
  have hgoing : s'.phase = .catching → s.table.stopAfterCatchup = false :=
    fun hcatching => h.going (hphase ▸ hcatching) hbusy
  -- only a recovery calls `markRecovered`
  have hmarking : s'.phase = .catching → ¬ s.table.pc.marking = true := by
    intro hcatching hmarking
    cases hpc : s.table.pc with
    | markingRecovered consuming =>
        exact Bool.noConfusion ((hgoing hcatching).symm.trans (hsound.load.at_eq hpc))
    | _ =>
        rw [hpc] at hmarking
        cases hmarking
  refine ⟨fun _ => ?_, fun hidle => (idle_step hstep hkind (h.restarts hbusy) hidle).1,
    fun hcatching _ => ?_, fun hcatching hdraining => ?_, fun hcatching hidle => ?_,
    fun hreturned => ?_⟩
  · rw [restart_step hstep hkind]
    exact h.restarts hbusy
  · rw [(stop_step hstep hkind).1]
    exact hgoing hcatching
  · rcases draining_step hstep hkind (hgoing hcatching) hdraining with
      herrs | hdone | ⟨hexit, herrs⟩ | ⟨hbefore, herrs⟩ | hmarks
    · exact .inl herrs
    · exact .inr hdone
    · rw [herrs]
      exact .inl ((hclosed hexit).resolve_left fun hstop =>
        Bool.noConfusion ((hgoing hcatching).symm.trans hstop))
    · rw [herrs, hcancelled]
      exact h.drains (hphase ▸ hcatching) hbefore
    · exact absurd hmarks (hmarking hcatching)
  · rcases (idle_step hstep hkind (h.restarts hbusy) hidle).2 with
      hdone | ⟨hdraining, herrs⟩ | hmarks
    · exact hdone
    · rw [hcancelled]
      exact (h.drains (hphase ▸ hcatching) hdraining).resolve_left fun hne => hne herrs
    · exact absurd hmarks (hmarking hcatching)
  · rw [hcancelled]
    exact h.returned (hphase ▸ hreturned)

/-- The table stays as it is. -/
theorem Persists.of_phase (h : Persists s) (htable : s'.table = s.table)
    (hcatching : s'.phase ≠ .catching)
    (hreturned : s'.phase = .returned → s.table.cancelled = true) : Persists s' := by
  refine ⟨?_, ?_, fun hphase => absurd hphase hcatching, fun hphase => absurd hphase hcatching,
    fun hphase => absurd hphase hcatching, ?_⟩ <;> rw [htable]
  · exact h.restarts
  · exact h.clean
  · exact hreturned

/-- A load that fails is restarted, and only a cancelled context ends it. -/
theorem persists_step {action : Action} (h : Persists s) (hsound : Sound s)
    (hhealthy : s.Healthy action) (hstep : s.step true action = some s') : Persists s' := by
  cases effect_step hstep with
  | loads htable hphase hkind hselects =>
      refine h.loads hsound htable hphase hkind ?_
      rintro rfl
      rw [hselects (selecting_of_messagesClosed htable)] at hhealthy
      exact hhealthy
  | crashes hpc htable hphase =>
      have hbusy : s.table.pc ≠ .idle := hpc ▸ Pc.noConfusion
      refine ⟨?_, ?_, ?_, ?_, ?_, ?_⟩ <;> rw [htable]
      · exact fun _ => h.restarts hbusy
      · exact fun hidle => Pc.noConfusion hidle
      · exact fun hcatching _ => h.going (hphase ▸ hcatching) hbusy
      · exact fun _ hdraining => Pc.noConfusion hdraining
      · exact fun _ hidle => Pc.noConfusion hidle
      · exact fun hreturned => h.returned (hphase ▸ hreturned)
  | rests htable hphase =>
      refine ⟨?_, ?_, ?_, ?_, ?_, ?_⟩ <;> rw [htable] <;> try rw [hphase]
      · exact h.restarts
      · exact h.clean
      · exact h.going
      · exact h.drains
      · exact h.ends
      · exact h.returned
  | creates htable _ hphase | closes htable _ hphase =>
      refine h.of_phase htable ?_ ?_ <;> rw [hphase] <;> simp
  | fails _ _ _ hcreate => cases hcreate.symm.trans hhealthy
  | begins htable _ hphase =>
      obtain ⟨hrestarts, hclean⟩ := reconnecting_call htable (.inl rfl)
      refine ⟨hrestarts, hclean, ?_, ?_, ?_, ?_⟩ <;> rw [hphase] <;> simp
  | catches htable _ hphase =>
      obtain ⟨hrestarts, hclean⟩ := reconnecting_call htable (.inr rfl)
      obtain ⟨hpc, hstop⟩ := catchup_step htable
      refine ⟨hrestarts, hclean, fun _ _ => hstop, fun _ hdraining => ?_, fun _ hidle => ?_, ?_⟩
      · cases hpc.symm.trans hdraining
      · cases hpc.symm.trans hidle
      · rw [hphase]
        simp
  | returns hpc htable hphase =>
      rcases hphase with ⟨hbefore, hphase⟩ | ⟨hbefore, hphase⟩
      · refine h.of_phase htable ?_ ?_ <;> rw [hphase] <;> simp
      · refine h.of_phase htable ?_ fun _ => h.ends hbefore hpc
        rw [hphase]
        simp

end ViewTable

namespace ViewRun

variable {hasher : Hasher} {n : Nat} {s s' : ViewRun}

/-- The storages can be created, the consumers report their errors, and a view that follows
reconnects, too. -/
def Healthy (s : ViewRun) : Action → Prop
  | .inTable i action => ∀ table ∈ s.tables[i]?, table.Healthy action
  | .restart autoreconnect => autoreconnect = true
  | _ => True

structure Reconnects (s : ViewRun) : Prop where
  autoreconnect : s.autoreconnect = true
  errs : s.errs = []
  persists : ∀ table ∈ s.tables, table.Persists
  closing : ∀ rerr, s.phase = .closing rerr → s.ctxDone = true ∧ rerr = none
  returned : ∀ rerr, s.phase = .returned rerr → s.ctxDone = true

theorem reconnects_new (topic : String) (hasher : Hasher) (n : Nat) :
    Reconnects (new topic hasher true n) where
  autoreconnect := rfl
  errs := rfl
  persists := List.forall_mem_map.mpr fun partition _ => ViewTable.persists_new topic partition
  closing := fun _ hphase => ViewPhase.noConfusion hphase
  returned := fun _ hphase => ViewPhase.noConfusion hphase

theorem errorOf_eq_none (h : Reconnects s) (what : String) : s.errorOf what = none := if_pos h.errs

theorem Reconnects.move (h : Reconnects s) {i : Nat} {action : ViewTable.Action}
    {table table' : ViewTable} (htable : s.tables[i]? = some table) (hsound : table.Sound)
    (hstep : table.step s.autoreconnect action = some table') (hhealthy : table.Healthy action) :
    Reconnects { s with tables := s.tables.set i table' } := by
  rw [h.autoreconnect] at hstep
  have hpersists := ViewTable.persists_step (h.persists table (List.mem_of_getElem? htable)) hsound
    hhealthy hstep
  exact ⟨h.autoreconnect, h.errs, Threads.forall_mem_set h.persists hpersists, h.closing,
    h.returned⟩

/-- No goroutine returns an error, so the group cancels nobody. -/
theorem reconnects_step {action : Action} (hpos : 0 < n) (hattended : Attended n s)
    (h : Reconnects s) (hhealthy : s.Healthy action) (hstep : s.step action = some s') :
    Reconnects s' := by
  obtain ⟨hformed, hgrouped⟩ := hattended
  have hsound : ∀ {i : Nat} {table : ViewTable}, s.tables[i]? = some table → table.Sound :=
    fun htable => hformed.sound _ (List.mem_of_getElem? htable)
  cases step_cases hstep with
  | writes _ htable happend =>
      have hpersists := (h.persists _ (List.mem_of_getElem? htable)).append happend
      exact ⟨h.autoreconnect, h.errs, Threads.forall_mem_set h.persists hpersists, h.closing,
        h.returned⟩
  | runs | recovers =>
      exact ⟨h.autoreconnect, h.errs, h.persists, fun _ hphase => ViewPhase.noConfusion hphase,
        fun _ hphase => ViewPhase.noConfusion hphase⟩
  | moves _ htable hon => exact h.move htable (hsound htable) hon (hhealthy _ htable)
  | evicts htable hon | returns htable hon => exact h.move htable (hsound htable) hon trivial
  | fails htable hon herrs =>
      obtain ⟨hidle, -⟩ := Option.ite_none_right_eq_some.mp hon
      exact absurd ((h.persists _ (List.mem_of_getElem? htable)).clean hidle) herrs
  | recoveryEnds hphase hback hends =>
      have hdone : s.ctxDone = true := hends.resolve_left fun hne => hne h.errs
      refine ⟨h.autoreconnect, h.errs, h.persists, fun rerr hclosing => ⟨hdone, ?_⟩,
        fun _ hphase => ViewPhase.noConfusion hphase⟩
      rw [← ViewPhase.closing.inj hclosing]
      exact errorOf_eq_none h _
  | catchupEnds hphase hback =>
      have hdone : s.ctxDone = true := by
        obtain ⟨table, hmem⟩ := List.exists_mem_of_length_pos (hformed.length ▸ hpos)
        have hcancelled := (h.persists table hmem).returned (hback table hmem)
        exact (hgrouped.cancelled table hmem hcancelled).resolve_right fun hne => hne h.errs
      refine ⟨h.autoreconnect, h.errs, h.persists, fun rerr hclosing => ⟨hdone, ?_⟩,
        fun _ hphase => ViewPhase.noConfusion hphase⟩
      rw [← ViewPhase.closing.inj hclosing]
      exact errorOf_eq_none h _
  | drops => exact ⟨h.autoreconnect, h.errs, h.persists, h.closing, h.returned⟩
  | runReturns hphase =>
      exact ⟨h.autoreconnect, h.errs, h.persists, fun _ hphase => ViewPhase.noConfusion hphase,
        fun _ _ => (h.closing _ hphase).1⟩
  | cancels =>
      exact ⟨h.autoreconnect, h.errs,
        List.forall_mem_map.mpr fun table htable => (h.persists table htable).cancel,
        fun rerr hclosing => ⟨rfl, (h.closing rerr hclosing).2⟩, fun _ _ => rfl⟩
  | restarts =>
      exact ⟨hhealthy, rfl, List.forall_mem_map.mpr fun table _ => ViewTable.persists_reopen table,
        fun _ hphase => ViewPhase.noConfusion hphase, fun _ hphase => ViewPhase.noConfusion hphase⟩

structure Lasts (n : Nat) (s : ViewRun) : Prop where
  attended : Attended n s
  reconnects : Reconnects s

theorem lasts_step {action : Action} (hpos : 0 < n) (h : Lasts n s) (hhealthy : s.Healthy action)
    (hstep : s.step action = some s') : Lasts n s' :=
  ⟨attended_step h.attended hstep, reconnects_step hpos h.attended h.reconnects hhealthy hstep⟩

theorem lasts_run (topic : String) (hasher : Hasher) (hpos : 0 < n) {actions : List Action}
    (hhealthy : ∀ t ∈ transitions step (new topic hasher true n) actions, t.1.Healthy t.2.1) :
    Lasts n (Schedule.run step (new topic hasher true n) actions) :=
  run_invariant_of_allowed Healthy (fun _ _ _ h hhealthy hstep => lasts_step hpos h hhealthy hstep)
    ⟨attended_run topic hasher true n [], reconnects_new topic hasher n⟩ hhealthy

/-- **A view that reconnects runs until it is cancelled.** `Run` does not come back before its
context is done, however often the loads of its partitions fail, and it then has no error to report
but those of closing the storages. -/
theorem reconnecting_view_runs_until_cancelled (topic : String) (hasher : Hasher) (n : Nat)
    (hpos : 0 < n) (actions : List Action)
    (hhealthy : ∀ t ∈ transitions step (new topic hasher true n) actions, t.1.Healthy t.2.1) :
    let s := Schedule.run step (new topic hasher true n) actions
    (s.ctxDone = false → s.phase = .created ∨ s.phase = .recovering ∨ s.phase = .catching) ∧
      s.errs = [] ∧ ∀ rerr, s.phase = .closing rerr → rerr = none := by
  intro s
  have hreconnects : Reconnects s := (lasts_run topic hasher hpos hhealthy).reconnects
  refine ⟨fun hgoing => ?_, hreconnects.errs,
    fun rerr hphase => (hreconnects.closing rerr hphase).2⟩
  cases hphase : s.phase with
  | created => exact .inl rfl
  | recovering => exact .inr (.inl rfl)
  | catching => exact .inr (.inr rfl)
  | closing rerr => exact Bool.noConfusion (hgoing.symm.trans (hreconnects.closing rerr hphase).1)
  | returned rerr => exact Bool.noConfusion (hgoing.symm.trans (hreconnects.returned rerr hphase))

def calm : Action → Bool
  | .inTable _ (.create builderErr openErr closeErr) =>
      builderErr = none ∧ openErr = none ∧ closeErr = none
  | .inTable _ (.outside .messagesClosed) => false
  | .restart autoreconnect => autoreconnect
  | _ => true

theorem healthy_of_calm {action : Action} (h : calm action = true) (s : ViewRun) :
    s.Healthy action := by
  cases action with
  | restart => exact h
  | inTable i action =>
      intro table _
      cases action with
      | create builderErr openErr closeErr =>
          obtain ⟨rfl, rfl, rfl⟩ := of_decide_eq_true h
          change (createStorage none none none table.table.cancelled).2 = .ok ()
          cases table.table.cancelled <;> rfl
      | outside e =>
          cases e with
          | messagesClosed => cases h
          | _ => exact trivial
      | _ => exact trivial
  | _ => exact trivial

theorem reconnecting_view_runs_until_cancelled_failing_broker :
    let failing : List Action :=
      [.run, .inTable 0 (.create none none none), .inTable 0 .setupAndRecover,
      .inTable 0 (.getOffset none), .inTable 0 (.outside (.gotWatermarks (some "no leader") none))]
    let s := Schedule.run step (new "table" (fun _ => .ok 0) true 1) failing
    (s.tables.map fun table => table.table.errs.length) = [1] ∧ s.errs = [] := by
  refine ⟨by decide +kernel, ?_⟩
  refine (reconnecting_view_runs_until_cancelled "table" (fun _ => .ok 0) 1
    (by decide) _ fun t ht => ?_).2.1
  exact healthy_of_calm (List.all_eq_true.mp (by decide) t.2.1 (mem_actions_of_mem_transitions ht))
    t.1

end ViewRun

end Goka

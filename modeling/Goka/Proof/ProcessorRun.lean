import Goka.ProcessorRun
import Goka.Proof.Sessions

/-!
# The producer is closed last

A call of `Consume` has returned before the rebalance loop goes on, so there is at most one session,
and the consumer group is closed between two of them. The producer is closed when every goroutine of
the error group has returned. What `Run` returns is what these goroutines have returned.
-/

namespace Goka

open Schedule Processor

def ProcessorPc.early : ProcessorPc → Bool → Bool
  | .idle, done => !done
  | .building _, _ | .starting _, _ | .startup, _ => true
  | _, _ => false

def ProcessorPc.serving : ProcessorPc → Bool
  | .starting _ | .startup | .waiting | .closing _ => true
  | _ => false

/-- The loop has a call of `Consume` whose channel it has not seen the end of. -/
def RebalancePc.calls : RebalancePc → Bool
  | .selecting | .stopping => true
  | _ => false

def RebalancePc.left : RebalancePc → Bool
  | .leaving _ | .returned _ => true
  | _ => false

namespace ProcessorRun

open SessionSetup (tableTopics)

variable {Codec Callback : Type} {cfg : RunConfig Codec Callback} {s s' : ProcessorRun}

/-! ### What an action can do -/

inductive Step (cfg : RunConfig Codec Callback) (s : ProcessorRun) : Action → ProcessorRun →
    Prop where
  | refuses (hpc : s.pc = .idle) (hdone : s.done = true) (err : String) :
      Step cfg s .run { s with results := s.results ++ [some err] }
  | begins (hpc : s.pc = .idle) (hdone : s.done = false) :
      Step cfg s .run { s with pc := .building .consumerGroup }
  | buildFails {builder : Builder} (hpc : s.pc = .building builder) (err : String) :
      Step cfg s (.build (some err)) { s with
        pc := .leaving (some (builder.errorText cfg.brokers err))
        buildErr := some (builder, err) }
  | buildsGroup (hpc : s.pc = .building .consumerGroup) :
      Step cfg s (.build none) { s with
        pc := .building .consumer
        consumerGroup := .opened
        errorLoop := .selecting }
  | builds {builder next : Builder} (hpc : s.pc = .building builder)
      (hnext : next ≠ .consumerGroup) :
      Step cfg s (.build none) { s with pc := .building next }
  | buildsProducer (hpc : s.pc = .building .producer) :
      Step cfg s (.build none) { s with pc := .starting (lookupTables cfg), producer := .opened }
  | startsTable {topic : String} {tables : List String} (hpc : s.pc = .starting tables) :
      Step cfg s (.startTable topic) { s with
        pc := .starting (tables.erase topic)
        lookups := s.lookups ++ [⟨topic, none⟩] }
  | tablesStarted (hpc : s.pc = .starting []) : Step cfg s .tablesStarted { s with pc := .startup }
  | lookupReturns {i : Nat} {topic : String} {err err' : Option String}
      (hlookup : s.lookups[i]? = some ⟨topic, none⟩) :
      Step cfg s (.lookupReturns i err)
        ({ s with lookups := s.lookups.set i ⟨topic, some err'⟩ }.collect err')
  | waitsForTables {action : Startup.Action} {startup : Startup}
      (hstep : s.startup.step cfg.group action = some startup) :
      Step cfg s (.waitForStartupTables action) { s with startup := startup }
  | startupReturns (hpc : s.pc = .startup) (hentered : s.startup.pc.entered = true) :
      Step cfg s .startupReturns { s with pc := .waiting, rebalance := .calling }
  | reports {err : GroupError} (hopened : s.consumerGroup = .opened) :
      Step cfg s (.report err) { s with
        consumerErrors := s.consumerErrors ++ [err]
        reported := s.reported ++ [err] }
  | processingFailed {wrapped : String} {rest : List GroupError} (hpc : s.errorLoop = .selecting)
      (herrors : s.consumerErrors = .processing wrapped :: rest) :
      Step cfg s .readError ({ s with
        consumerErrors := rest
        errorLoop := .returned (some (errProcessing wrapped)) }.collect
          (some (errProcessing wrapped)))
  | logs {err : String} {rest : List GroupError} (herrors : s.consumerErrors = .other err :: rest) :
      Step cfg s .readError { s with consumerErrors := rest }
  | errorsEnd (hpc : s.errorLoop = .selecting) (herrors : s.consumerErrors = [])
      (hclosed : s.consumerGroup = .closed) :
      Step cfg s .readError { s with errorLoop := .returned none }
  | drains {err : GroupError} {rest : List GroupError} (hpc : s.errorLoop = .draining)
      (herrors : s.consumerErrors = err :: rest) :
      Step cfg s .readError { s with consumerErrors := rest, drained := s.drained ++ [err] }
  | drainEnds (hpc : s.errorLoop = .draining) :
      Step cfg s .readError { s with errorLoop := .selecting }
  | errorsContextDone (hpc : s.errorLoop = .selecting) :
      Step cfg s .errorsContextDone { s with errorLoop := .draining }
  | consumes (hpc : s.rebalance = .calling) :
      Step cfg s .consume { s with rebalance := .selecting, consumes := s.consumes ++ [.consuming] }
  | inConsume {action : Sessions.Action} {sessions : Sessions}
      (hconsuming : .consuming ∈ s.consumes)
      (hstep : s.sessions.step cfg.group action = some sessions) :
      Step cfg s (.inConsume action) { s with
        sessions := if s.ctxDone then sessions.cancel else sessions }
  | consumeReturns {i : Nat} {err : Option String} {consume : ConsumePc}
      (hconsuming : s.consumes[i]? = some .consuming) (hphase : s.sessions.phase = .idle)
      (hconsume : consume ≠ .consuming) :
      Step cfg s (.consumeReturns i err) { s with consumes := s.consumes.set i consume }
  | receives {err : String} (hpc : s.rebalance = .selecting ∨ s.rebalance = .stopping)
      (hlast : s.consumes.getLast? = some (.sending err)) :
      Step cfg s .receive { s with
        rebalance := .closing [err], consumes := s.consumes.dropLast ++ [.ended] }
  | pauses (hpc : s.rebalance = .selecting) (hlast : s.consumes.getLast? = some .ended) :
      Step cfg s .receive { s with rebalance := .pausing }
  | stops (hpc : s.rebalance = .stopping) (hlast : s.consumes.getLast? = some .ended) :
      Step cfg s .receive { s with rebalance := .closing [] }
  | rebalanceContextDone (hpc : s.rebalance = .selecting) (hdone : s.ctxDone = true) :
      Step cfg s .rebalanceContextDone { s with rebalance := .stopping }
  | pauseEnds (hpc : s.rebalance = .pausing) :
      Step cfg s .pauseEnds { s with rebalance := .calling }
  | closesGroup {errs : List String} {err : Option String} (hpc : s.rebalance = .closing errs) :
      Step cfg s (.closeConsumerGroup err) { s with
        consumerGroup := .closed
        rebalance := .leaving (errs ++ err.toList) }
  | rebalanceReturns {errs : List String} (hpc : s.rebalance = .leaving errs) :
      Step cfg s .rebalanceReturns
        ({ s with rebalance := .returned (nilOrError errs) }.collect (nilOrError errs))
  | waits (hpc : s.pc = .waiting) (herrors : s.errorLoopReturned = true)
      (hrebalance : s.rebalanceReturned = true)
      (hlookups : ∀ lookup ∈ s.lookups, lookup.returned.isSome = true) :
      Step cfg s .wait { s.cancelContext with pc := .closing (nilOrError s.groupErrs) }
  | closesProducer {rerr err : Option String} (hpc : s.pc = .closing rerr) :
      Step cfg s (.closeProducer err) { s with
        pc := .leaving rerr
        producer := .closed
        merrors := s.merrors ++ err.toList.map fun err => "error closing producer: " ++ err
        closeErr := err }
  | leaves {rerr : Option String} (hpc : s.pc = .leaving rerr) :
      Step cfg s .leave { s.cancelContext with
        pc := .idle
        done := true
        merrors := s.merrors ++ rerr.toList
        results := s.results ++ [nilOrError (s.merrors ++ rerr.toList)] }
  | cancels : Step cfg s .cancel { s.cancelContext with cancelled := true }
  | emits {i : Nat} (hopened : s.producer = .opened) : Step cfg s (.emit i) s
  | panics {i : Nat} {group : RunnerGroup} (hgroup : s.sessions.runners[i]? = some group)
      (hproducer : s.producer ≠ .opened) : Step cfg s (.emit i) { s with panicked := true }

theorem build_cases {err : Option String} (h : s.build cfg err = some s') :
    Step cfg s (.build err) s' := by
  unfold build at h
  split at h
  · next hpc =>
      cases h
      exact .buildFails hpc _
  · next hpc =>
      cases h
      exact .buildsGroup hpc
  · next hpc =>
      cases h
      exact .builds hpc Builder.noConfusion
  · next hpc =>
      cases h
      exact .builds hpc Builder.noConfusion
  · next hpc =>
      cases h
      exact .buildsProducer hpc
  · cases h

theorem readError_cases (h : s.readError = some s') : Step cfg s .readError s' := by
  unfold readError at h
  split at h
  · next hpc herrors =>
      cases h
      exact .processingFailed hpc herrors
  · next herrors =>
      cases h
      exact .logs herrors
  · next hpc herrors =>
      obtain ⟨hclosed, rfl⟩ := guard_eq_some.mp h
      exact .errorsEnd hpc herrors hclosed
  · next hpc herrors =>
      cases h
      exact .drains hpc herrors
  · next hpc _ =>
      obtain ⟨-, rfl⟩ := guard_eq_some.mp h
      exact .drainEnds hpc
  · cases h

theorem receive_cases (h : s.receive = some s') : Step cfg s .receive s' := by
  unfold receive at h
  split at h
  · next hpc hlast =>
      cases h
      exact .receives (.inl hpc) hlast
  · next hpc hlast =>
      cases h
      exact .receives (.inr hpc) hlast
  · next hpc hlast =>
      cases h
      exact .pauses hpc hlast
  · next hpc hlast =>
      cases h
      exact .stops hpc hlast
  · cases h

theorem run_cases (h : s.run = some s') : Step cfg s .run s' := by
  unfold run at h
  split at h
  · next hpc =>
      split at h
      · next hdone =>
          cases h
          exact .refuses hpc hdone _
      · next hdone =>
          cases h
          exact .begins hpc (Bool.eq_false_iff.mpr hdone)
  · cases h

theorem startTable_cases {topic : String} (h : s.startTable topic = some s') :
    Step cfg s (.startTable topic) s' := by
  unfold startTable at h
  split at h
  · next hpc =>
      obtain ⟨-, rfl⟩ := guard_eq_some.mp h
      exact .startsTable hpc
  · cases h

theorem lookupReturns_cases {i : Nat} {err : Option String} (h : s.lookupReturns i err = some s') :
    Step cfg s (.lookupReturns i err) s' := by
  unfold lookupReturns at h
  split at h
  · next hlookup =>
      cases h
      exact .lookupReturns hlookup
  · cases h

theorem waitForStartupTables_cases {action : Startup.Action}
    (h : s.waitForStartupTables cfg action = some s') :
    Step cfg s (.waitForStartupTables action) s' := by
  unfold waitForStartupTables at h
  split at h
  · cases h
  · split at h
    · obtain ⟨startup, hstep, rfl⟩ := Option.map_eq_some_iff.mp h
      exact .waitsForTables hstep
    · cases h

theorem startupReturns_cases (h : s.startupReturns = some s') : Step cfg s .startupReturns s' := by
  unfold startupReturns at h
  split at h
  · next hpc hstartup =>
      cases h
      exact .startupReturns hpc (by rw [hstartup]; rfl)
  · cases h

theorem inConsume_cases {action : Sessions.Action} (h : s.inConsume cfg action = some s') :
    Step cfg s (.inConsume action) s' := by
  unfold inConsume at h
  split at h
  · next hconsuming =>
      obtain ⟨sessions, hstep, rfl⟩ := Option.map_eq_some_iff.mp h
      exact .inConsume hconsuming hstep
  · cases h

theorem consumeReturns_cases {i : Nat} {err : Option String}
    (h : s.consumeReturns i err = some s') :
    Step cfg s (.consumeReturns i err) s' := by
  unfold consumeReturns at h
  split at h
  · next hconsuming hphase =>
      cases h
      refine .consumeReturns hconsuming hphase ?_
      cases err with
      | none => exact ConsumePc.noConfusion
      | some err => exact ConsumePc.noConfusion
  · cases h

theorem emit_cases {i : Nat} (h : s.emit i = some s') : Step cfg s (.emit i) s' := by
  unfold emit at h
  split at h
  · cases h
  · next group hgroup =>
      split at h
      · split at h
        · next hopened =>
            cases h
            exact .emits hopened
        · next hproducer =>
            cases h
            exact .panics hgroup hproducer
      · cases h

/-- One constructor for each branch, for all the invariants of `Run`. -/
theorem step_cases {action : Action} (h : s.step cfg action = some s') :
    s.panicked = false ∧ Step cfg s action s' := by
  unfold step at h
  split at h
  · cases h
  · next hpanicked =>
      refine ⟨Bool.eq_false_iff.mpr hpanicked, ?_⟩
      cases action with
      | run => exact run_cases h
      | build err => exact build_cases h
      | startTable topic => exact startTable_cases h
      | tablesStarted =>
          obtain ⟨hpc, rfl⟩ := guard_eq_some.mp h
          exact .tablesStarted hpc
      | lookupReturns i err => exact lookupReturns_cases h
      | waitForStartupTables action => exact waitForStartupTables_cases h
      | startupReturns => exact startupReturns_cases h
      | report err =>
          obtain ⟨hopened, rfl⟩ := guard_eq_some.mp h
          exact .reports hopened
      | readError => exact readError_cases h
      | errorsContextDone =>
          obtain ⟨⟨hpc, -⟩, rfl⟩ := guard_eq_some.mp h
          exact .errorsContextDone hpc
      | consume =>
          obtain ⟨hpc, rfl⟩ := guard_eq_some.mp h
          exact .consumes hpc
      | inConsume action => exact inConsume_cases h
      | consumeReturns i err => exact consumeReturns_cases h
      | receive => exact receive_cases h
      | rebalanceContextDone =>
          obtain ⟨⟨hpc, hdone⟩, rfl⟩ := guard_eq_some.mp h
          exact .rebalanceContextDone hpc hdone
      | pauseEnds =>
          obtain ⟨hpc, rfl⟩ := guard_eq_some.mp h
          exact .pauseEnds hpc
      | closeConsumerGroup err =>
          dsimp only [closeConsumerGroup] at h
          split at h
          · next hpc =>
              cases h
              exact .closesGroup hpc
          · cases h
      | rebalanceReturns =>
          dsimp only [rebalanceReturns] at h
          split at h
          · next hpc =>
              cases h
              exact .rebalanceReturns hpc
          · cases h
      | wait =>
          obtain ⟨⟨hpc, herrors, hrebalance, hlookups⟩, rfl⟩ := guard_eq_some.mp h
          exact .waits hpc herrors hrebalance hlookups
      | closeProducer err =>
          dsimp only [closeProducer] at h
          split at h
          · next hpc =>
              cases h
              exact .closesProducer hpc
          · cases h
      | leave =>
          dsimp only [leave] at h
          split at h
          · next hpc =>
              cases h
              exact .leaves hpc
          · cases h
      | cancel =>
          cases h
          exact .cancels
      | emit i => exact emit_cases h

theorem collect_eq (s : ProcessorRun) (err : Option String) :
    s.collect err = { s with
      ctxDone := s.ctxDone || err.isSome
      groupErrs := s.groupErrs ++ err.toList
      startup := if err.isSome then s.startup.cancel else s.startup
      sessions := if err.isSome then s.sessions.cancel else s.sessions } := by
  cases err with
  | none =>
      rw [collect, Option.isSome_none, Bool.or_false, Option.toList_none, List.append_nil]; rfl
  | some err => rw [collect, cancelContext, Option.isSome_some, Bool.or_true]; rfl

/-! ### The producer and the goroutines -/

def AllReturned (s : ProcessorRun) : Prop :=
  s.errorLoopReturned = true ∧ s.rebalanceReturned = true ∧
    ∀ lookup ∈ s.lookups, lookup.returned.isSome = true

theorem AllReturned.errorLoop (h : AllReturned s) : ∃ err, s.errorLoop = .returned err := by
  have hreturned := h.1
  unfold errorLoopReturned at hreturned
  split at hreturned
  · next err herr => exact ⟨err, herr⟩
  · cases hreturned

theorem AllReturned.rebalance (h : AllReturned s) : ∃ err, s.rebalance = .returned err := by
  have hreturned := h.2.1
  unfold rebalanceReturned at hreturned
  split at hreturned
  · next err herr => exact ⟨err, herr⟩
  · cases hreturned

theorem not_allReturned_of_errorLoop {pc : ErrorLoopPc} (hpc : s.errorLoop = pc)
    (hne : ∀ err, pc ≠ .returned err) :
    ¬ s.AllReturned := by
  intro hall
  obtain ⟨err, hreturned⟩ := hall.errorLoop
  exact hne err (hpc.symm.trans hreturned)

theorem not_allReturned_of_rebalance {pc : RebalancePc} (hpc : s.rebalance = pc)
    (hne : ∀ err, pc ≠ .returned err) :
    ¬ s.AllReturned := by
  intro hall
  obtain ⟨err, hreturned⟩ := hall.rebalance
  exact hne err (hpc.symm.trans hreturned)

theorem not_allReturned_of_lookup {i : Nat} {topic : String}
    (hlookup : s.lookups[i]? = some ⟨topic, none⟩) :
    ¬ s.AllReturned :=
  fun hall => Bool.noConfusion (hall.2.2 _ (List.mem_of_getElem? hlookup))

theorem AllReturned.of_same (h : AllReturned s) (herrorLoop : s'.errorLoop = s.errorLoop)
    (hrebalance : s'.rebalance = s.rebalance) (hlookups : s'.lookups = s.lookups) :
    AllReturned s' := by
  unfold AllReturned errorLoopReturned rebalanceReturned
  rw [herrorLoop, hrebalance, hlookups]
  exact h

structure Served (s : ProcessorRun) : Prop where
  early : s.pc.early s.done = true → s.rebalance = .unstarted
  serving : s.pc.serving = true → s.producer = .opened
  begun : s.rebalance ≠ .unstarted → s.producer ≠ .unbuilt
  last : s.producer = .closed → s.pc.early s.done = false ∧ s.pc.serving = false
  ended : (∃ rerr, s.pc = .closing rerr) ∨ s.producer = .closed → s.AllReturned

theorem served_new (cfg : RunConfig Codec Callback) : Served (new cfg) where
  early := fun _ => rfl
  serving := fun h => Bool.noConfusion h
  begun := fun h => absurd rfl h
  last := fun h => ServicePhase.noConfusion h
  ended := by
    rintro (⟨rerr, hpc⟩ | hclosed)
    · cases hpc
    · cases hclosed

theorem Served.not_closed (h : Served s) (hearly : s.pc.early s.done = true) :
    s.producer ≠ .closed := fun hclosed =>
  Bool.false_ne_true ((h.last hclosed).1.symm.trans hearly)

/-- A goroutine moves on. -/
theorem Served.move (h : Served s) (hpc : s'.pc = s.pc) (hdone : s'.done = s.done)
    (hproducer : s'.producer = s.producer)
    (hbegun : s'.rebalance = .unstarted ↔ s.rebalance = .unstarted)
    (hended : s.AllReturned → s'.AllReturned) : Served s' where
  early := by
    rw [hpc, hdone, hbegun]
    exact h.early
  serving := by
    rw [hpc, hproducer]
    exact h.serving
  begun := by
    rw [hproducer, Ne, hbegun]
    exact h.begun
  last := by
    rw [hpc, hdone, hproducer]
    exact h.last
  ended := by
    rw [hpc, hproducer]
    exact fun hlate => hended (h.ended hlate)

theorem Served.of_same (h : Served s) (hpc : s'.pc = s.pc) (hdone : s'.done = s.done)
    (hproducer : s'.producer = s.producer) (hrebalance : s'.rebalance = s.rebalance)
    (herrorLoop : s'.errorLoop = s.errorLoop) (hlookups : s'.lookups = s.lookups) : Served s' :=
  h.move hpc hdone hproducer (by rw [hrebalance]) fun hall =>
    hall.of_same herrorLoop hrebalance hlookups

/-- `Run` goes on before the rebalance loop. -/
theorem Served.advance (h : Served s) (hearly : s.pc.early s.done = true)
    (hearly' : s'.pc.early s'.done = true) (hrebalance : s'.rebalance = s.rebalance)
    (hproducer : s'.producer = s.producer ∨ s'.producer = .opened)
    (hserving : s'.pc.serving = true → s'.producer = .opened) : Served s' := by
  have hopen : s'.producer ≠ .closed := by
    rcases hproducer with hsame | hopened
    · rw [hsame]
      exact h.not_closed hearly
    · rw [hopened]
      exact ServicePhase.noConfusion
  have hunstarted : s'.rebalance = .unstarted := hrebalance.trans (h.early hearly)
  refine ⟨fun _ => hunstarted, hserving, fun hbegun => absurd hunstarted hbegun,
    fun hclosed => absurd hclosed hopen, ?_⟩
  rintro (⟨rerr, hpc⟩ | hclosed)
  · rw [hpc] at hearly'
    cases hearly'
  · exact absurd hclosed hopen

/-- The producer is built before the rebalance loop and closed behind the error group. -/
theorem served_step {action : Action} (h : Served s) (hstep : Step cfg s action s') :
    Served s' := by
  cases hstep with
  | refuses | waitsForTables | reports | logs | drains | inConsume | consumeReturns | cancels
  | panics =>
      exact h.of_same rfl rfl rfl rfl rfl rfl
  | emits => exact h
  | begins hpc hdone =>
      exact h.advance (by rw [hpc, hdone]; rfl) rfl rfl (.inl rfl) fun hserving =>
        Bool.noConfusion hserving
  | buildsGroup hpc | builds hpc =>
      exact h.advance (by rw [hpc]; rfl) rfl rfl (.inl rfl) fun hserving =>
        Bool.noConfusion hserving
  | buildsProducer hpc => exact h.advance (by rw [hpc]; rfl) rfl rfl (.inr rfl) fun _ => rfl
  | startsTable hpc | tablesStarted hpc =>
      exact h.advance (by rw [hpc]; rfl) rfl rfl (.inl rfl) fun _ => h.serving (by rw [hpc]; rfl)
  | buildFails hpc =>
      have hopen : s.producer ≠ .closed := h.not_closed (by rw [hpc]; rfl)
      refine ⟨fun hearly => Bool.noConfusion hearly, fun hserving => Bool.noConfusion hserving,
        h.begun, fun _ => ⟨rfl, rfl⟩, ?_⟩
      rintro (⟨rerr, hclosing⟩ | hclosed)
      · cases hclosing
      · exact absurd hclosed hopen
  | @lookupReturns i topic err err' hlookup =>
      rw [collect_eq]
      exact h.move rfl rfl rfl Iff.rfl fun hall => absurd hall (not_allReturned_of_lookup hlookup)
  | startupReturns hpc =>
      have hopened : s.producer = .opened := h.serving (by rw [hpc]; rfl)
      have hopen : s.producer ≠ .closed :=
        fun hclosed => ServicePhase.noConfusion (hopened.symm.trans hclosed)
      refine ⟨fun hearly => Bool.noConfusion hearly, fun _ => hopened,
        fun _ hunbuilt => ServicePhase.noConfusion (hopened.symm.trans hunbuilt),
        fun hclosed => absurd hclosed hopen, ?_⟩
      rintro (⟨rerr, hclosing⟩ | hclosed)
      · cases hclosing
      · exact absurd hclosed hopen
  | processingFailed hpc =>
      rw [collect_eq]
      refine h.move rfl rfl rfl Iff.rfl fun hall => absurd hall ?_
      exact not_allReturned_of_errorLoop hpc fun _ => ErrorLoopPc.noConfusion
  | errorsEnd hpc | drainEnds hpc | errorsContextDone hpc =>
      refine h.move rfl rfl rfl Iff.rfl fun hall => absurd hall ?_
      exact not_allReturned_of_errorLoop hpc fun _ => ErrorLoopPc.noConfusion
  | consumes hpc | pauses hpc | stops hpc | rebalanceContextDone hpc | pauseEnds hpc
  | closesGroup hpc =>
      refine h.move rfl rfl rfl ?_ fun hall => absurd hall ?_
      · rw [hpc]
        exact iff_of_false RebalancePc.noConfusion RebalancePc.noConfusion
      · exact not_allReturned_of_rebalance hpc fun _ => RebalancePc.noConfusion
  | receives hpc =>
      refine h.move rfl rfl rfl (iff_of_false RebalancePc.noConfusion ?_) fun hall => absurd hall ?_
      · rcases hpc with hpc | hpc <;> rw [hpc] <;> exact RebalancePc.noConfusion
      · rcases hpc with hpc | hpc <;> exact not_allReturned_of_rebalance hpc fun _ =>
          RebalancePc.noConfusion
  | rebalanceReturns hpc =>
      rw [collect_eq]
      refine h.move rfl rfl rfl ?_ fun hall => absurd hall ?_
      · rw [hpc]
        exact iff_of_false RebalancePc.noConfusion RebalancePc.noConfusion
      · exact not_allReturned_of_rebalance hpc fun _ => RebalancePc.noConfusion
  | waits hpc herrors hrebalance hlookups =>
      have hopened : s.producer = .opened := h.serving (by rw [hpc]; rfl)
      exact ⟨fun hearly => Bool.noConfusion hearly, fun _ => hopened, h.begun,
        fun hclosed => ServicePhase.noConfusion (hopened.symm.trans hclosed),
        fun _ => ⟨herrors, hrebalance, hlookups⟩⟩
  | closesProducer hpc =>
      exact ⟨fun hearly => Bool.noConfusion hearly, fun hserving => Bool.noConfusion hserving,
        fun _ => ServicePhase.noConfusion, fun _ => ⟨rfl, rfl⟩, fun _ => h.ended (.inl ⟨_, hpc⟩)⟩
  | leaves hpc =>
      refine ⟨fun hearly => Bool.noConfusion hearly, fun hserving => Bool.noConfusion hserving,
        h.begun, fun _ => ⟨rfl, rfl⟩, ?_⟩
      rintro (⟨rerr, hclosing⟩ | hclosed)
      · cases hclosing
      · exact h.ended (.inr hclosed)

/-! ### The calls of `Consume` -/

structure Calls (s : ProcessorRun) : Prop where
  free : s.rebalance.calls = false → ∀ consume ∈ s.consumes, consume = .ended
  busy : s.rebalance.calls = true → ∃ before consume, s.consumes = before ++ [consume] ∧
    ∀ call ∈ before, call = .ended
  session : .consuming ∉ s.consumes → s.sessions.phase = .idle

theorem calls_new (cfg : RunConfig Codec Callback) : Calls (new cfg) where
  free := fun _ _ hmem => absurd hmem List.not_mem_nil
  busy := fun hcalls => Bool.noConfusion hcalls
  session := fun _ => rfl

theorem Calls.of_same (h : Calls s) (hrebalance : s'.rebalance.calls = s.rebalance.calls)
    (hconsumes : s'.consumes = s.consumes) (hphase : s'.sessions.phase = s.sessions.phase) :
    Calls s' where
  free := by
    rw [hrebalance, hconsumes]
    exact h.free
  busy := by
    rw [hrebalance, hconsumes]
    exact h.busy
  session := by
    rw [hconsumes, hphase]
    exact h.session

/-- The loop has the end of its call. -/
theorem Calls.of_ended (hended : ∀ consume ∈ s'.consumes, consume = .ended)
    (hcalls : s'.rebalance.calls = false) (hphase : s'.sessions.phase = .idle) : Calls s' where
  free := fun _ => hended
  busy := fun hbusy => Bool.noConfusion (hcalls.symm.trans hbusy)
  session := fun _ => hphase

theorem set_last {before : List ConsumePc} {consume consume' : ConsumePc} {i : Nat}
    (hbefore : ∀ call ∈ before, call = .ended) (hi : (before ++ [consume])[i]? = some .consuming) :
    (before ++ [consume]).set i consume' = before ++ [consume'] := by
  rcases Nat.lt_or_ge i before.length with hlt | hge
  · rw [List.getElem?_append_left hlt] at hi
    exact ConsumePc.noConfusion (hbefore _ (List.mem_of_getElem? hi))
  · rw [List.getElem?_append_right hge] at hi
    have hlast : i - before.length = 0 := Nat.lt_one_iff.mp (List.getElem?_eq_some_iff.mp hi).1
    rw [List.set_append_right _ _ hge, hlast]
    rfl

theorem Calls.ended_of_getLast (h : Calls s) (hcalls : s.rebalance.calls = true)
    {consume : ConsumePc} (hlast : s.consumes.getLast? = some consume) :
    s.consumes = s.consumes.dropLast ++ [consume] ∧
    ∀ call ∈ s.consumes.dropLast, call = .ended := by
  obtain ⟨before, last, heq, hbefore⟩ := h.busy hcalls
  rw [heq, List.getLast?_concat] at hlast
  obtain rfl := Option.some.inj hlast
  rw [heq, List.dropLast_concat]
  exact ⟨rfl, hbefore⟩

/-- The loop waits for the channel of one call before it makes the next. -/
theorem calls_step {action : Action} (hserved : Served s) (h : Calls s)
    (hstep : Step cfg s action s') : Calls s' := by
  cases hstep with
  | refuses | begins | buildFails | buildsGroup | builds | buildsProducer | startsTable
  | tablesStarted
  | waitsForTables | reports | logs | errorsEnd | drains | drainEnds | errorsContextDone | waits
  | closesProducer
  | leaves | cancels | panics => exact h.of_same rfl rfl rfl
  | emits => exact h
  | lookupReturns | processingFailed =>
      rw [collect_eq]
      refine h.of_same rfl rfl ?_
      dsimp only
      split <;> rfl
  | startupReturns hpc =>
      refine h.of_same ?_ rfl rfl
      rw [hserved.early (by rw [hpc]; rfl)]
      rfl
  | consumes hpc =>
      refine ⟨fun hcalls => Bool.noConfusion hcalls,
        fun _ => ⟨s.consumes, .consuming, rfl, h.free (by rw [hpc]; rfl)⟩, ?_⟩
      exact fun hmem => absurd (List.mem_append_right _ (List.mem_singleton_self _)) hmem
  | inConsume hconsuming =>
      exact ⟨h.free, h.busy, fun hmem => absurd hconsuming hmem⟩
  | @consumeReturns i err consume hconsuming hphase =>
      refine ⟨fun hfree => ?_, fun hbusy => ?_, fun _ => hphase⟩
      · exact ConsumePc.noConfusion (h.free hfree _ (List.mem_of_getElem? hconsuming))
      · obtain ⟨before, last, heq, hbefore⟩ := h.busy hbusy
        rw [heq] at hconsuming
        refine ⟨before, consume, ?_, hbefore⟩
        dsimp only
        rw [heq, set_last hbefore hconsuming]
  | @receives err hpc hlast =>
      have hcalls : s.rebalance.calls = true := by
        rcases hpc with hpc | hpc <;> rw [hpc] <;> rfl
      obtain ⟨heq, hbefore⟩ := h.ended_of_getLast hcalls hlast
      refine .of_ended ?_ rfl (h.session fun hmem => ?_)
      · exact List.forall_mem_append.mpr ⟨hbefore, fun call hcall => List.mem_singleton.mp hcall⟩
      · rw [heq] at hmem
        rcases List.mem_append.mp hmem with hmem | hmem
        · exact ConsumePc.noConfusion (hbefore _ hmem)
        · exact ConsumePc.noConfusion (List.mem_singleton.mp hmem)
  | pauses hpc hlast | stops hpc hlast =>
      obtain ⟨heq, hbefore⟩ := h.ended_of_getLast (by rw [hpc]; rfl) hlast
      have hended : ∀ consume ∈ s.consumes, consume = .ended := by
        rw [heq]
        exact List.forall_mem_append.mpr ⟨hbefore, fun call hcall => List.mem_singleton.mp hcall⟩
      exact .of_ended hended rfl (h.session fun hmem => ConsumePc.noConfusion (hended _ hmem))
  | rebalanceContextDone hpc | pauseEnds hpc | closesGroup hpc =>
      exact h.of_same (by rw [hpc]; rfl) rfl rfl
  | rebalanceReturns hpc =>
      rw [collect_eq]
      refine h.of_same (by rw [hpc]; rfl) rfl ?_
      dsimp only
      split <;> rfl

/-! ### The consumer group -/

def Grouped (s : ProcessorRun) : Prop := s.consumerGroup = .closed ↔ s.rebalance.left = true

theorem Grouped.of_same (h : Grouped s) (hgroup : s'.consumerGroup = s.consumerGroup)
    (hrebalance : s'.rebalance.left = s.rebalance.left) : Grouped s' := by
  rw [Grouped, hgroup, hrebalance]
  exact h

/-- The consumer group is closed between two calls, never during one. -/
theorem grouped_step {action : Action} (hserved : Served s) (h : Grouped s)
    (hstep : Step cfg s action s') :
    Grouped s' := by
  cases hstep with
  | refuses | begins | buildFails | builds | buildsProducer | startsTable | tablesStarted
  | waitsForTables | reports | logs | errorsEnd | drains | drainEnds | errorsContextDone | inConsume
  | consumeReturns | waits | closesProducer | leaves | cancels | panics => exact h.of_same rfl rfl
  | emits => exact h
  | lookupReturns | processingFailed =>
      rw [collect_eq]
      exact h.of_same rfl rfl
  | buildsGroup hpc =>
      refine iff_of_false ServicePhase.noConfusion ?_
      dsimp only
      rw [hserved.early (by rw [hpc]; rfl)]
      exact Bool.false_ne_true
  | startupReturns hpc =>
      refine h.of_same rfl ?_
      rw [hserved.early (by rw [hpc]; rfl)]
      rfl
  | consumes hpc | pauses hpc | stops hpc | rebalanceContextDone hpc | pauseEnds hpc =>
      exact h.of_same rfl (by rw [hpc]; rfl)
  | receives hpc =>
      refine h.of_same rfl ?_
      rcases hpc with hpc | hpc <;> rw [hpc] <;> rfl
  | closesGroup => exact iff_of_true rfl rfl
  | rebalanceReturns hpc =>
      rw [collect_eq]
      exact h.of_same rfl (by rw [hpc]; rfl)

/-! ### What a run keeps -/

theorem sessions_step {action : Action} (h : Sessions.Inv cfg.group s.sessions)
    (hstep : Step cfg s action s') : Sessions.Inv cfg.group s'.sessions := by
  cases hstep with
  | lookupReturns | processingFailed | rebalanceReturns =>
      rw [collect_eq]
      dsimp only
      split
      · exact h.cancel
      · exact h
  | inConsume hconsuming hon =>
      have hinv := Sessions.inv_step h hon
      dsimp only
      split
      · exact hinv.cancel
      · exact hinv
  | waits | leaves | cancels => exact h.cancel
  | _ => exact h

structure Inv (cfg : RunConfig Codec Callback) (s : ProcessorRun) : Prop where
  served : Served s
  calls : Calls s
  grouped : Grouped s
  sessions : Sessions.Inv cfg.group s.sessions
  calm : s.panicked = false

theorem inv_new (cfg : RunConfig Codec Callback) : Inv cfg (new cfg) where
  served := served_new cfg
  calls := calls_new cfg
  grouped := iff_of_false ServicePhase.noConfusion Bool.false_ne_true
  sessions := Sessions.inv_new cfg.group
  calm := rfl

/-- While there is a runner, the loop has a call of `Consume`, and so the producer is there. -/
theorem Inv.opened_of_runner (h : Inv cfg s) {i : Nat} {group : RunnerGroup}
    (hgroup : s.sessions.runners[i]? = some group) : s.producer = .opened := by
  have hcalls : s.rebalance.calls = true := by
    refine Bool.of_not_eq_false fun hfree => ?_
    have hidle : s.sessions.phase = .idle :=
      h.calls.session fun hmem => ConsumePc.noConfusion (h.calls.free hfree _ hmem)
    have hlength := h.sessions.lengths
    rw [h.sessions.empty hidle, List.length_nil, List.length_eq_zero_iff] at hlength
    rw [hlength] at hgroup
    exact Option.some_ne_none _ hgroup.symm
  cases hproducer : s.producer with
  | opened => rfl
  | unbuilt =>
      refine absurd hproducer (h.served.begun fun hunstarted => ?_)
      rw [hunstarted] at hcalls
      exact Bool.false_ne_true hcalls
  | closed =>
      obtain ⟨err, herr⟩ := (h.served.ended (.inr hproducer)).rebalance
      rw [herr] at hcalls
      exact Bool.noConfusion hcalls

/-- The sessions take their own steps inside of `Consume`. -/
theorem inv_step {action : Action} (h : Inv cfg s) (hstep : s.step cfg action = some s') :
    Inv cfg s' := by
  have hon := (step_cases hstep).2
  refine ⟨served_step h.served hon, calls_step h.served h.calls hon,
    grouped_step h.served h.grouped hon, sessions_step h.sessions hon, ?_⟩
  cases hon with
  | panics hgroup hproducer => exact absurd (h.opened_of_runner hgroup) hproducer
  | lookupReturns | processingFailed | rebalanceReturns =>
      rw [collect_eq]
      exact h.calm
  | _ => exact h.calm

theorem Calls.count_le (h : Calls s) : s.consumes.count .consuming ≤ 1 := by
  have hnone : ∀ {calls : List ConsumePc}, (∀ call ∈ calls, call = .ended) →
      calls.count .consuming = 0 :=
    fun hended => List.count_eq_zero.mpr fun hmem => ConsumePc.noConfusion (hended _ hmem)
  cases hcalls : s.rebalance.calls with
  | false =>
      rw [hnone (h.free hcalls)]
      exact Nat.zero_le 1
  | true =>
      obtain ⟨before, consume, heq, hbefore⟩ := h.busy hcalls
      rw [heq, List.count_append, hnone hbefore, Nat.zero_add]
      exact List.count_le_length

/-! ### The processors that recover ahead -/

def Action.beginsSession : Action → Bool
  | .inConsume (.beginSession _) => true
  | _ => false

/-- When a session begins, no partition recovers ahead any more: the goroutines that do it have
taken their registrations back. -/
def NoneAhead (s : ProcessorRun) (action : Action) : Prop :=
  action.beginsSession = true → ∀ proc ∈ s.startup.procs, proc.pc.hasLeft = true

instance decidableNoneAhead (s : ProcessorRun) (action : Action) : Decidable (NoneAhead s action) :=
  inferInstanceAs (Decidable (_ → _))

structure Apart (s : ProcessorRun) : Prop where
  owned : s.startup.Owned
  entered : s.rebalance ≠ .unstarted → s.startup.pc.entered = true
  finished : s.sessions.phase ≠ .idle → s.startup.Finished

theorem apart_new (cfg : RunConfig Codec Callback) : Apart (new cfg) where
  owned := Startup.owned_new _ _
  entered := fun h => absurd rfl h
  finished := fun h => absurd rfl h

/-- The startup goes on by a step of its own, or not at all. -/
theorem startup_step {action : Action} (hstep : Step cfg s action s') :
    s'.startup = s.startup ∨ ∃ on, Startup.Step cfg.group s.startup on s'.startup := by
  have hcollect : ∀ (t : ProcessorRun) (err : Option String), t.startup = s.startup →
      (t.collect err).startup = s.startup ∨
        ∃ on, Startup.Step cfg.group s.startup on (t.collect err).startup := by
    intro t err hsame
    cases err with
    | none => exact .inl hsame
    | some err =>
        rw [← hsame]
        exact .inr ⟨.cancel, .cancels⟩
  cases hstep with
  | waitsForTables hstep => exact .inr ⟨_, Startup.step_cases hstep⟩
  | waits | leaves | cancels => exact .inr ⟨.cancel, .cancels⟩
  | lookupReturns | processingFailed | rebalanceReturns => exact hcollect _ _ rfl
  | _ => exact .inl rfl

/-- The rebalance loop is not begun in this step, and no session. -/
theorem Apart.move (h : Apart s) {action : Action} (hstep : Step cfg s action s')
    (hrebalance : s.rebalance = .unstarted → s'.rebalance = .unstarted)
    (hphase : s.sessions.phase = .idle → s'.sessions.phase = .idle) : Apart s' := by
  have hentered : s'.rebalance ≠ .unstarted → s.startup.pc.entered = true :=
    fun hbegun => h.entered fun hunstarted => hbegun (hrebalance hunstarted)
  have hleft : s'.sessions.phase ≠ .idle → s.startup.Finished :=
    fun hsession => h.finished fun hidle => hsession (hphase hidle)
  rcases startup_step hstep with hsame | ⟨on, hon⟩
  · constructor <;> rw [hsame]
    exacts [h.owned, hentered, hleft]
  · exact ⟨Startup.owned_step h.owned hon, fun hbegun => Startup.entered_step (hentered hbegun) hon,
      fun hsession => Startup.finished_step (hleft hsession) hon⟩

theorem phase_collect (s : ProcessorRun) (err : Option String) :
    (s.collect err).sessions.phase = s.sessions.phase := by
  cases err with
  | none => rfl
  | some err => rfl

theorem rebalance_collect (s : ProcessorRun) (err : Option String) :
    (s.collect err).rebalance = s.rebalance := by
  cases err with
  | none => rfl
  | some err => rfl

/-- The goroutines that recover ahead are over before a session registers anything. -/
theorem apart_step {action : Action} (hcalls : Calls s) (h : Apart s) (hnone : NoneAhead s action)
    (hstep : Step cfg s action s') : Apart s' := by
  have hbegun : ∀ {pc : RebalancePc}, s.rebalance = pc → pc ≠ .unstarted →
      s.rebalance = .unstarted → s'.rebalance = .unstarted :=
    fun hpc hne hunstarted => absurd (hpc.symm.trans hunstarted) hne
  cases hon : hstep with
  | startupReturns hpc hentered => exact ⟨h.owned, fun _ => hentered, h.finished⟩
  | @inConsume on sessions hconsuming hsessions =>
      have hphase : ∀ sessions : Sessions,
          (if s.ctxDone then sessions.cancel else sessions).phase = sessions.phase := by
        intro sessions
        split <;> rfl
      have hidle := Sessions.idle_step (Sessions.step_cases hsessions)
      cases on with
      | beginSession session =>
          have hentered : s.startup.pc.entered = true := by
            refine h.entered fun hunstarted => ?_
            exact ConsumePc.noConfusion (hcalls.free (by rw [hunstarted]; rfl) _ hconsuming)
          exact ⟨h.owned, h.entered, fun _ => ⟨hentered, hnone rfl⟩⟩
      | _ =>
          refine h.move hstep id fun hsame => ?_
          exact (hphase sessions).trans (hidle (fun _ => Sessions.Action.noConfusion) hsame)
  | lookupReturns | processingFailed =>
      refine h.move hstep (fun hunstarted => ?_) fun hidle => ?_
      · exact (rebalance_collect _ _).trans hunstarted
      · exact (phase_collect _ _).trans hidle
  | rebalanceReturns hpc =>
      exact h.move hstep (hbegun hpc RebalancePc.noConfusion) fun hidle =>
        (phase_collect _ _).trans hidle
  | receives hpc =>
      rcases hpc with hpc | hpc
      · exact h.move hstep (hbegun hpc RebalancePc.noConfusion) id
      · exact h.move hstep (hbegun hpc RebalancePc.noConfusion) id
  | consumes hpc | pauses hpc | stops hpc | rebalanceContextDone hpc | pauseEnds hpc
  | closesGroup hpc =>
      exact h.move hstep (hbegun hpc RebalancePc.noConfusion) id
  | _ => exact h.move hstep id id

theorem inv_run {actions : List Action}
    (hnone : ∀ t ∈ transitions (step cfg) (new cfg) actions, NoneAhead t.1 t.2.1) :
    Inv cfg (Schedule.run (step cfg) (new cfg) actions) ∧
      Apart (Schedule.run (step cfg) (new cfg) actions) := by
  have hkept : ∀ (s : ProcessorRun) (action : Action) (s' : ProcessorRun), Inv cfg s ∧ Apart s →
      NoneAhead s action → s.step cfg action = some s' → Inv cfg s' ∧ Apart s' :=
    fun s action s' h hnone hstep =>
      ⟨inv_step h.1 hstep, apart_step h.1.calls h.2 hnone (step_cases hstep).2⟩
  exact run_invariant_of_allowed NoneAhead hkept ⟨inv_new cfg, apart_new cfg⟩ hnone

/-- **The producer is closed last**, where no partition recovers ahead any more when a session
begins. No runner of a partition processor ever emits to a producer that is closed or not there yet,
and there is never more than one call of `Consume`. During a session only its own processors are
registered. Once the producer is closed, all goroutines of the error group have returned, the
consumer group is closed and nothing is left of any session. -/
theorem producer_closed_last (cfg : RunConfig Codec Callback) (actions : List Action)
    (hnone : ∀ t ∈ transitions (step cfg) (new cfg) actions, NoneAhead t.1 t.2.1) :
    let s := Schedule.run (step cfg) (new cfg) actions
    s.panicked = false ∧ s.consumes.count .consuming ≤ 1 ∧
      (s.sessions.phase ≠ .idle → ∀ part, part ∉ s.startup.partitions) ∧
      (s.producer = .closed → s.AllReturned ∧ s.consumerGroup = .closed ∧
        (∀ consume ∈ s.consumes, consume = .ended) ∧ s.sessions.phase = .idle ∧
        s.sessions.setup.partitions = [] ∧
        (Sessions.JoinsOnce cfg.group → s.sessions.allOpen = [])) := by
  intro s
  obtain ⟨h, hapart⟩ : Inv cfg s ∧ Apart s := inv_run hnone
  refine ⟨h.calm, h.calls.count_le, fun hsession => ?_, fun hclosed => ?_⟩
  · exact hapart.owned.nothing_registered (hapart.finished hsession).left
  · have hall := h.served.ended (.inr hclosed)
    obtain ⟨err, hreturned⟩ := hall.rebalance
    have hended := h.calls.free (by rw [hreturned]; rfl)
    have hidle := h.calls.session fun hmem => ConsumePc.noConfusion (hended _ hmem)
    have hempty := h.sessions.empty hidle
    refine ⟨hall, h.grouped.mpr (by rw [hreturned]; rfl), hended, hidle, hempty, fun hjoins => ?_⟩
    rw [h.sessions.allOpen_eq hjoins, hempty]
    rfl

def toSession (startup : List Startup.Action) : List Action :=
  [.run, .build none, .build none, .build none, .build none, .tablesStarted] ++
    startup.map .waitForStartupTables ++
    [.waitForStartupTables .groupWait, .waitForStartupTables .waitGroupDone, .startupReturns,
      .consume] ++
    Sessions.oneSession.map .inConsume ++ [.emit 0]

def toReturn : List Action :=
  [.cancel, .rebalanceContextDone, .errorsContextDone] ++ Sessions.endSession.map .inConsume ++
    [.consumeReturns 0 none, .receive, .closeConsumerGroup none, .rebalanceReturns, .readError,
      .readError, .wait, .closeProducer none, .leave]

def tableRun (recoverAhead : Bool) : RunConfig Unit Unit where
  group := tableConfig []
  brokers := ["localhost:9092"]
  recoverAhead := recoverAhead

def aheadAndSession : List Action :=
  toSession (Startup.createAhead [0] ++ Startup.recoverAndStop 0 [0] [0]) ++ toReturn

theorem producer_closed_last_recovered_ahead :
    let s := Schedule.run (step (tableRun true)) (new (tableRun true)) aheadAndSession
    s.startup.procs.length = 1 ∧ s.results = [none] ∧ s.sessions.gone.length = 1 ∧
      s.consumerGroup = .closed ∧ s.sessions.allOpen = [] := by
  intro s
  have hclosed : s.producer = .closed := by decide +kernel
  obtain ⟨-, -, -, hlast⟩ :=
    producer_closed_last (tableRun true) aheadAndSession (by decide +kernel)
  obtain ⟨-, hgroup, -, -, -, hopen⟩ := hlast hclosed
  exact ⟨by decide +kernel, by decide +kernel, by decide +kernel, hgroup, hopen (by decide)⟩

end ProcessorRun

end Goka

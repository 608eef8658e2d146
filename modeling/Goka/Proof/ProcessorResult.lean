import Goka.Proof.ProcessorRun

/-!
# What `Run` returns

The error group keeps what its goroutines have returned, and `Run` returns it together with the
error of the producer. The rebalance loop ends with an error or because the context is done, so
without an error it was the caller who ended the processor.
-/

namespace Goka

open Schedule
open scoped List

def ProcessorPc.fresh : ProcessorPc → Bool → Bool
  | .idle, done => !done
  | .building .consumerGroup, _ => true
  | _, _ => false

/-- The error group is done, or was given up before the rebalance loop. -/
def ProcessorPc.over : ProcessorPc → Bool → Bool
  | .idle, done => done
  | .closing _, _ | .leaving _, _ => true
  | _, _ => false

def RebalancePc.givesUp : RebalancePc → Bool
  | .stopping => true
  | .closing errs | .leaving errs => errs.isEmpty
  | .returned err => err.isNone
  | _ => false

namespace ProcessorRun

variable {Codec Callback : Type} {cfg : RunConfig Codec Callback} {s s' : ProcessorRun}

theorem nilOrError_eq_none {errs : List String} : nilOrError errs = none ↔ errs = [] := by
  unfold nilOrError
  split
  · next hnil => exact iff_of_true rfl hnil
  · next hsome => exact iff_of_false (Option.some_ne_none _) hsome

/-! ### The errors of the goroutines -/

def errorLoopErr (s : ProcessorRun) : Option String :=
  match s.errorLoop with
  | .returned err => err
  | _ => none

def rebalanceErr (s : ProcessorRun) : Option String :=
  match s.rebalance with
  | .returned err => err
  | _ => none

def lookupErrs (s : ProcessorRun) : List String :=
  s.lookups.filterMap fun lookup => lookup.returned.join

def goroutineErrs (s : ProcessorRun) : List String :=
  s.errorLoopErr.toList ++ (s.rebalanceErr.toList ++ s.lookupErrs)

structure Collected (s : ProcessorRun) : Prop where
  fresh : s.pc.fresh s.done = true → s.errorLoop = .unstarted
  errs : s.groupErrs.Perm s.goroutineErrs

theorem collected_new (cfg : RunConfig Codec Callback) : Collected (new cfg) :=
  ⟨fun _ => rfl, .refl _⟩

theorem Collected.of_same (h : Collected s)
    (hfresh : s'.pc.fresh s'.done = true → s'.errorLoop = .unstarted)
    (hgroup : s'.groupErrs = s.groupErrs) (herrorLoop : s'.errorLoopErr = s.errorLoopErr)
    (hrebalance : s'.rebalanceErr = s.rebalanceErr) (hlookups : s'.lookupErrs = s.lookupErrs) :
    Collected s' := by
  refine ⟨hfresh, ?_⟩
  rw [goroutineErrs, hgroup, herrorLoop, hrebalance, hlookups]
  exact h.errs

theorem errorLoopErr_eq {pc : ErrorLoopPc} (hpc : s.errorLoop = pc) :
    s.errorLoopErr = errorLoopErr { s with errorLoop := pc } := by
  rw [errorLoopErr, hpc]
  rfl

theorem rebalanceErr_eq {pc : RebalancePc} (hpc : s.rebalance = pc) :
    s.rebalanceErr = rebalanceErr { s with rebalance := pc } := by
  rw [rebalanceErr, hpc]
  rfl

/-- A goroutine returns once, and what it returns is collected in the same step. -/
theorem collected_step {action : Action} (hserved : Served s) (h : Collected s)
    (hstep : Step cfg s action s') :
    Collected s' := by
  have hbusy : ∀ {pc : ErrorLoopPc}, s.errorLoop = pc → pc ≠ .unstarted →
      s.pc.fresh s.done ≠ true :=
    fun hpc hne hfresh => hne (hpc.symm.trans (h.fresh hfresh))
  cases hstep with
  | refuses | waitsForTables | reports | logs | drains | inConsume | consumeReturns | cancels
  | panics =>
      exact h.of_same h.fresh rfl rfl rfl rfl
  | emits => exact h
  | begins hpc hdone => exact h.of_same (fun _ => h.fresh (by rw [hpc, hdone]; rfl)) rfl rfl rfl rfl
  | buildFails | buildsProducer | tablesStarted | waits | closesProducer | leaves =>
      exact h.of_same (fun hfresh => Bool.noConfusion hfresh) rfl rfl rfl rfl
  | startsTable =>
      refine h.of_same (fun hfresh => Bool.noConfusion hfresh) rfl rfl rfl ?_
      rw [lookupErrs, List.filterMap_append]
      exact List.append_nil _
  | @builds builder next hpc hnext =>
      refine h.of_same (fun hfresh => ?_) rfl rfl rfl rfl
      cases next with
      | consumerGroup => exact absurd rfl hnext
      | consumer | topicManager | producer => cases hfresh
  | buildsGroup hpc =>
      have hunstarted := h.fresh (by rw [hpc]; rfl)
      exact h.of_same (fun hfresh => Bool.noConfusion hfresh) rfl
        (errorLoopErr_eq hunstarted).symm rfl rfl
  | startupReturns hpc =>
      have hunstarted := hserved.early (by rw [hpc]; rfl)
      exact h.of_same (fun hfresh => Bool.noConfusion hfresh) rfl rfl
        (rebalanceErr_eq hunstarted).symm rfl
  | errorsEnd hpc | drainEnds hpc | errorsContextDone hpc =>
      exact h.of_same (fun hfresh => absurd hfresh (hbusy hpc ErrorLoopPc.noConfusion)) rfl
        (errorLoopErr_eq hpc).symm
        rfl rfl
  | consumes hpc | pauses hpc | stops hpc | rebalanceContextDone hpc | pauseEnds hpc
  | closesGroup hpc =>
      exact h.of_same h.fresh rfl rfl (rebalanceErr_eq hpc).symm rfl
  | receives hpc =>
      refine h.of_same h.fresh rfl rfl ?_ rfl
      rcases hpc with hpc | hpc
      · exact (rebalanceErr_eq hpc).symm
      · exact (rebalanceErr_eq hpc).symm
  | @processingFailed wrapped rest hpc =>
      rw [collect_eq]
      refine ⟨fun hfresh => absurd hfresh (hbusy hpc ErrorLoopPc.noConfusion), ?_⟩
      have herrs := h.errs
      rw [goroutineErrs, errorLoopErr_eq hpc] at herrs
      exact List.perm_append_comm.trans (herrs.cons _)
  | @rebalanceReturns errs hpc =>
      rw [collect_eq]
      refine ⟨h.fresh, ?_⟩
      have herrs := h.errs
      rw [goroutineErrs, rebalanceErr_eq hpc] at herrs
      calc s.groupErrs ++ (nilOrError errs).toList
        _ ~ s.errorLoopErr.toList ++ s.lookupErrs ++ (nilOrError errs).toList :=
          herrs.append_right _
        _ ~ s.errorLoopErr.toList ++ (s.lookupErrs ++ (nilOrError errs).toList) := by
          rw [List.append_assoc]
        _ ~ s.errorLoopErr.toList ++ ((nilOrError errs).toList ++ s.lookupErrs) :=
          List.perm_append_comm.append_left _
  | @lookupReturns i topic err err' hlookup =>
      rw [collect_eq]
      refine ⟨h.fresh, ?_⟩
      have hset := Threads.filterMap_set_perm (a := ⟨topic, some err'⟩)
        (fun lookup : LookupRun => lookup.returned.join)
        hlookup
      rw [Option.join_none, Option.toList_none, List.append_nil] at hset
      calc s.groupErrs ++ err'.toList
        _ ~ s.errorLoopErr.toList ++ (s.rebalanceErr.toList ++ s.lookupErrs) ++ err'.toList :=
          h.errs.append_right _
        _ ~ s.errorLoopErr.toList ++ (s.rebalanceErr.toList ++ (s.lookupErrs ++ err'.toList)) := by
            rw [List.append_assoc, List.append_assoc]
        _ ~ _ := (hset.symm.append_left _).append_left _

/-! ### What has stopped the processor -/

def Stopped (s : ProcessorRun) : Prop := s.cancelled = true ∨ s.groupErrs ≠ []

structure Caused (s : ProcessorRun) : Prop where
  settled : s.pc.over s.done = true → s.rebalance = .unstarted ∨ s.AllReturned
  context : s.ctxDone = true → s.Stopped ∨ s.pc.over s.done = true
  rebalance : s.rebalance.givesUp = true → s.Stopped

theorem caused_new (cfg : RunConfig Codec Callback) : Caused (new cfg) where
  settled := fun h => Bool.noConfusion h
  context := fun h => Bool.noConfusion h
  rebalance := fun h => Bool.noConfusion h

/-- A goroutine moves on. -/
theorem Caused.move (h : Caused s) (hpc : s'.pc = s.pc) (hdone : s'.done = s.done)
    (hcontext : s'.ctxDone = s.ctxDone) (hstopped : s'.Stopped ↔ s.Stopped)
    (hsettled : s.rebalance = .unstarted ∨ s.AllReturned → s'.rebalance = .unstarted ∨
      s'.AllReturned)
    (hgives : s'.rebalance.givesUp = true → s.Stopped) : Caused s' where
  settled := by
    rw [hpc, hdone]
    exact fun hover => hsettled (h.settled hover)
  context := by
    rw [hpc, hdone, hcontext, hstopped]
    exact h.context
  rebalance := by
    rw [hstopped]
    exact hgives

theorem Caused.of_same (h : Caused s) (hpc : s'.pc = s.pc) (hdone : s'.done = s.done)
    (hcontext : s'.ctxDone = s.ctxDone) (hstopped : s'.Stopped ↔ s.Stopped)
    (hrebalance : s'.rebalance = s.rebalance) (herrorLoop : s'.errorLoop = s.errorLoop)
    (hlookups : s'.lookups = s.lookups) : Caused s' := by
  refine h.move hpc hdone hcontext hstopped ?_ ?_
  · rw [hrebalance]
    exact Or.imp_right fun hall => hall.of_same herrorLoop hrebalance hlookups
  · rw [hrebalance]
    exact h.rebalance

/-- `Run` goes on before its end. -/
theorem Caused.advance (h : Caused s) (hover : s.pc.over s.done = false)
    (hover' : s'.pc.over s'.done = false) (hcontext : s'.ctxDone = s.ctxDone)
    (hstopped : s'.Stopped ↔ s.Stopped) (hgives : s'.rebalance.givesUp = true → s.Stopped) :
    Caused s' where
  settled := fun hlate => Bool.noConfusion (hover'.symm.trans hlate)
  context := by
    rw [hcontext, hstopped]
    exact fun hdone => .inl ((h.context hdone).resolve_right fun hlate =>
      Bool.noConfusion (hover.symm.trans hlate))
  rebalance := by
    rw [hstopped]
    exact hgives

theorem Caused.collect (h : Caused s) (err : Option String) : Caused (s.collect err) := by
  cases err with
  | none => exact h
  | some err =>
      have hstopped : Stopped (s.collect (some err)) :=
        .inr (List.append_ne_nil_of_right_ne_nil _ (List.cons_ne_nil _ _))
      exact ⟨h.settled, fun _ => .inl hstopped, fun _ => hstopped⟩

/-- The context of the group is done because the caller cancelled it or a goroutine has failed. -/
theorem caused_step {action : Action} (hserved : Served s) (h : Caused s)
    (hstep : Step cfg s action s') :
    Caused s' := by
  have hbusy : ∀ {pc : RebalancePc}, s.rebalance = pc → pc ≠ .unstarted →
      (∀ err, pc ≠ .returned err) → ¬ (s.rebalance = .unstarted ∨ s.AllReturned) := by
    intro pc hpc hne hreturned
    refine not_or.mpr ⟨fun hunstarted => hne (hpc.symm.trans hunstarted), ?_⟩
    exact not_allReturned_of_rebalance hpc hreturned
  cases hstep with
  | refuses | waitsForTables | reports | logs | drains | inConsume | consumeReturns | panics =>
      exact h.of_same rfl rfl rfl Iff.rfl rfl rfl rfl
  | emits => exact h
  | cancels => exact ⟨h.settled, fun _ => .inl (.inl rfl), fun _ => .inl rfl⟩
  | begins hpc hdone => exact h.advance (by rw [hpc, hdone]; rfl) rfl rfl Iff.rfl h.rebalance
  | buildsGroup hpc | builds hpc | buildsProducer hpc | startsTable hpc | tablesStarted hpc =>
      exact h.advance (by rw [hpc]; rfl) rfl rfl Iff.rfl h.rebalance
  | startupReturns hpc =>
      exact h.advance (by rw [hpc]; rfl) rfl rfl Iff.rfl fun hgives => Bool.noConfusion hgives
  | buildFails hpc =>
      exact ⟨fun _ => .inl (hserved.early (by rw [hpc]; rfl)), fun _ => .inr rfl, h.rebalance⟩
  | waits _ herrorLoop hrebalance hlookups =>
      exact ⟨fun _ => .inr ⟨herrorLoop, hrebalance, hlookups⟩, fun _ => .inr rfl, h.rebalance⟩
  | closesProducer hpc | leaves hpc =>
      exact ⟨fun _ => h.settled (by rw [hpc]; rfl), fun _ => .inr rfl, h.rebalance⟩
  | @lookupReturns i topic err err' hlookup =>
      have hmoved : Caused { s with lookups := s.lookups.set i ⟨topic, some err'⟩ } := by
        refine h.move rfl rfl rfl Iff.rfl (Or.imp_right fun hall => absurd hall ?_) h.rebalance
        exact not_allReturned_of_lookup hlookup
      exact hmoved.collect err'
  | @processingFailed wrapped rest hpc =>
      have hmoved : Caused { s with
          consumerErrors := rest
          errorLoop := .returned (some (errProcessing wrapped)) } := by
        refine h.move rfl rfl rfl Iff.rfl (Or.imp_right fun hall => absurd hall ?_) h.rebalance
        exact not_allReturned_of_errorLoop hpc fun _ => ErrorLoopPc.noConfusion
      exact hmoved.collect _
  | errorsEnd hpc | drainEnds hpc | errorsContextDone hpc =>
      refine h.move rfl rfl rfl Iff.rfl (Or.imp_right fun hall => absurd hall ?_) h.rebalance
      exact not_allReturned_of_errorLoop hpc fun _ => ErrorLoopPc.noConfusion
  | consumes hpc | pauses hpc | pauseEnds hpc =>
      refine h.move rfl rfl rfl Iff.rfl (fun hover => ?_) fun hgives => Bool.noConfusion hgives
      exact absurd hover (hbusy hpc RebalancePc.noConfusion fun _ => RebalancePc.noConfusion)
  | receives hpc =>
      refine h.move rfl rfl rfl Iff.rfl (fun hover => ?_) fun hgives => Bool.noConfusion hgives
      rcases hpc with hpc | hpc
      · exact absurd hover (hbusy hpc RebalancePc.noConfusion fun _ => RebalancePc.noConfusion)
      · exact absurd hover (hbusy hpc RebalancePc.noConfusion fun _ => RebalancePc.noConfusion)
  | stops hpc =>
      refine h.move rfl rfl rfl Iff.rfl (fun hover => ?_) fun _ => h.rebalance (by rw [hpc]; rfl)
      exact absurd hover (hbusy hpc RebalancePc.noConfusion fun _ => RebalancePc.noConfusion)
  | rebalanceContextDone hpc hdone =>
      have hselecting := hbusy hpc RebalancePc.noConfusion fun _ => RebalancePc.noConfusion
      refine h.move rfl rfl rfl Iff.rfl (fun hover => absurd hover hselecting) fun _ => ?_
      exact (h.context hdone).resolve_right fun hover => hselecting (h.settled hover)
  | @closesGroup errs err hpc =>
      refine h.move rfl rfl rfl Iff.rfl (fun hover => ?_) fun hgives => h.rebalance ?_
      · exact absurd hover (hbusy hpc RebalancePc.noConfusion fun _ => RebalancePc.noConfusion)
      · rw [hpc]
        exact List.isEmpty_iff.mpr (List.append_eq_nil_iff.mp (List.isEmpty_iff.mp hgives)).1
  | @rebalanceReturns errs hpc =>
      have hmoved : Caused { s with rebalance := .returned (nilOrError errs) } := by
        refine h.move rfl rfl rfl Iff.rfl (fun hover => ?_) fun hgives => h.rebalance ?_
        · exact absurd hover (hbusy hpc RebalancePc.noConfusion fun _ => RebalancePc.noConfusion)
        · rw [hpc]
          exact List.isEmpty_iff.mpr (nilOrError_eq_none.mp (Option.isNone_iff_eq_none.mp hgives))
      exact hmoved.collect _

/-! ### The result -/

/-- What the first call of `Run` may return. -/
def Answer (cfg : RunConfig Codec Callback) (s : ProcessorRun) (result : Option String) : Prop :=
  s.rebalance = .unstarted ∧ (∃ builder err, s.buildErr = some (builder, err) ∧
      result = some (builder.errorText cfg.brokers err)) ∨
    s.producer = .closed ∧ result = nilOrError
      (s.closeErr.toList.map (fun err => "error closing producer: " ++ err) ++
        (nilOrError s.groupErrs).toList)

theorem Answer.keep {result : Option String} (h : Answer cfg s result)
    (hbuild : s'.buildErr = s.buildErr) (hclose : s'.closeErr = s.closeErr)
    (hunstarted : s.rebalance = .unstarted → s'.rebalance = .unstarted)
    (hclosed : s.producer = .closed → s'.producer = .closed ∧ s'.groupErrs = s.groupErrs) :
    Answer cfg s' result := by
  rcases h with ⟨hrebalance, builder, err, herr, hresult⟩ | ⟨hproducer, hresult⟩
  · exact .inl ⟨hunstarted hrebalance, builder, err, hbuild.trans herr, hresult⟩
  · obtain ⟨hproducer', hgroup⟩ := hclosed hproducer
    exact .inr ⟨hproducer', by rw [hgroup, hclose, hresult]⟩

structure Answered (cfg : RunConfig Codec Callback) (s : ProcessorRun) : Prop where
  finished : s.done = true → s.pc = .idle ∧ s.results ≠ []
  unanswered : s.done = false → s.results = []
  clean : (∀ rerr, s.pc ≠ .leaving rerr) → s.done = false → s.merrors = []
  closing : ∀ rerr, s.pc = .closing rerr → rerr = nilOrError s.groupErrs
  leaving : ∀ rerr, s.pc = .leaving rerr → Answer cfg s (nilOrError (s.merrors ++ rerr.toList))
  first : ∀ result, s.results.head? = some result → Answer cfg s result

theorem answered_new (cfg : RunConfig Codec Callback) : Answered cfg (new cfg) where
  finished := fun h => Bool.noConfusion h
  unanswered := fun _ => rfl
  clean := fun _ _ => rfl
  closing := fun _ hpc => ProcessorPc.noConfusion hpc
  leaving := fun _ hpc => ProcessorPc.noConfusion hpc
  first := fun _ hresult => absurd hresult.symm (Option.some_ne_none _)

theorem Answered.not_done (h : Answered cfg s) (hpc : s.pc ≠ .idle) : s.done = false :=
  Bool.eq_false_iff.mpr fun hdone => hpc (h.finished hdone).1

/-- A goroutine moves on. -/
theorem Answered.move (h : Answered cfg s) (hpc : s'.pc = s.pc) (hdone : s'.done = s.done)
    (hresults : s'.results = s.results) (hmerrors : s'.merrors = s.merrors)
    (hbuild : s'.buildErr = s.buildErr) (hclose : s'.closeErr = s.closeErr)
    (hgroup : s.AllReturned → s'.groupErrs = s.groupErrs)
    (hserved : Served s) (hproducer : s'.producer = s.producer)
    (hunstarted : s.rebalance = .unstarted → s'.rebalance = .unstarted) : Answered cfg s' := by
  have hkeep : ∀ {result : Option String}, Answer cfg s result → Answer cfg s' result :=
    fun hanswer => hanswer.keep hbuild hclose hunstarted fun hclosed =>
      ⟨hproducer.trans hclosed, hgroup (hserved.ended (.inr hclosed))⟩
  refine ⟨?_, ?_, ?_, ?_, ?_, ?_⟩
  · rw [hdone, hpc, hresults]
    exact h.finished
  · rw [hdone, hresults]
    exact h.unanswered
  · rw [hpc, hdone, hmerrors]
    exact h.clean
  · intro rerr hclosing
    rw [hpc] at hclosing
    rw [hgroup (hserved.ended (.inl ⟨rerr, hclosing⟩))]
    exact h.closing rerr hclosing
  · intro rerr hleaving
    rw [hmerrors]
    exact hkeep (h.leaving rerr (hpc ▸ hleaving))
  · intro result hresult
    exact hkeep (h.first result (hresults ▸ hresult))

/-- `Run` goes on before its end. -/
theorem Answered.advance (h : Answered cfg s) (hdone : s.done = false)
    (hleaving : ∀ rerr, s.pc ≠ .leaving rerr) (hover : s'.pc.over s'.done = false)
    (hdone' : s'.done = s.done) (hresults : s'.results = s.results)
    (hmerrors : s'.merrors = s.merrors) : Answered cfg s' := by
  have hempty : s'.results = [] := hresults.trans (h.unanswered hdone)
  refine ⟨fun hdone'' => ?_, fun _ => hempty, fun _ _ => hmerrors.trans (h.clean hleaving hdone),
    fun rerr hpc => ?_, fun rerr hpc => ?_, fun result hresult => ?_⟩
  · exact Bool.noConfusion (hdone.symm.trans (hdone'.symm.trans hdone''))
  · rw [hpc] at hover
    cases hover
  · rw [hpc] at hover
    cases hover
  · rw [hempty] at hresult
    cases hresult

/-- `Run` puts its errors together while it leaves. -/
theorem answered_step {action : Action} (hserved : Served s) (h : Answered cfg s)
    (hstep : Step cfg s action s') :
    Answered cfg s' := by
  cases hstep with
  | waitsForTables | reports | logs | errorsEnd | drains | drainEnds | errorsContextDone | inConsume
  | consumeReturns
  | cancels | panics => exact h.move rfl rfl rfl rfl rfl rfl (fun _ => rfl) hserved rfl id
  | emits => exact h
  | refuses hpc hdone err =>
      obtain ⟨hidle, hsome⟩ := h.finished hdone
      refine ⟨fun _ => ⟨hidle, List.append_ne_nil_of_left_ne_nil hsome _⟩, ?_, h.clean, h.closing,
        h.leaving, ?_⟩
      · exact fun hopen => Bool.noConfusion (hdone.symm.trans hopen)
      · intro result hresult
        rw [List.head?_append_of_ne_nil _ hsome] at hresult
        exact h.first result hresult
  | begins hpc hdone =>
      exact h.advance hdone (fun _ hleaving => ProcessorPc.noConfusion (hpc.symm.trans hleaving))
        rfl rfl rfl rfl
  | buildsGroup hpc | builds hpc | buildsProducer hpc | startsTable hpc | tablesStarted hpc
  | startupReturns hpc =>
      refine h.advance (h.not_done ?_)
        (fun _ hleaving => ProcessorPc.noConfusion (hpc.symm.trans hleaving)) rfl rfl rfl rfl
      rw [hpc]
      exact ProcessorPc.noConfusion
  | consumes hpc | pauses hpc | stops hpc | rebalanceContextDone hpc | pauseEnds hpc
  | closesGroup hpc =>
      refine h.move rfl rfl rfl rfl rfl rfl (fun _ => rfl) hserved rfl fun hunstarted => ?_
      exact RebalancePc.noConfusion (hpc.symm.trans hunstarted)
  | receives hpc =>
      refine h.move rfl rfl rfl rfl rfl rfl (fun _ => rfl) hserved rfl fun hunstarted => ?_
      rcases hpc with hpc | hpc
      · exact RebalancePc.noConfusion (hpc.symm.trans hunstarted)
      · exact RebalancePc.noConfusion (hpc.symm.trans hunstarted)
  | lookupReturns hlookup =>
      rw [collect_eq]
      exact h.move rfl rfl rfl rfl rfl rfl
        (fun hall => absurd hall (not_allReturned_of_lookup hlookup)) hserved rfl id
  | processingFailed hpc =>
      rw [collect_eq]
      refine h.move rfl rfl rfl rfl rfl rfl (fun hall => absurd hall ?_) hserved rfl id
      exact not_allReturned_of_errorLoop hpc fun _ => ErrorLoopPc.noConfusion
  | rebalanceReturns hpc =>
      rw [collect_eq]
      refine h.move rfl rfl rfl rfl rfl rfl
        (fun hall => absurd hall ?_) hserved rfl fun hunstarted => ?_
      · exact not_allReturned_of_rebalance hpc fun _ => RebalancePc.noConfusion
      · exact RebalancePc.noConfusion (hpc.symm.trans hunstarted)
  | @buildFails builder hpc err =>
      have hdone := h.not_done (by rw [hpc]; exact ProcessorPc.noConfusion)
      have hmerrors : s.merrors = [] :=
        h.clean (fun _ hleaving => ProcessorPc.noConfusion (hpc.symm.trans hleaving)) hdone
      refine ⟨fun hlate => Bool.noConfusion (hdone.symm.trans hlate), h.unanswered,
        fun hne => absurd rfl (hne _), fun _ hclosing => ProcessorPc.noConfusion hclosing, ?_, ?_⟩
      · rintro _ ⟨rfl⟩
        dsimp only
        rw [hmerrors]
        exact .inl ⟨hserved.early (by rw [hpc]; rfl), builder, err, rfl, rfl⟩
      · intro result hresult
        dsimp only at hresult
        rw [h.unanswered hdone] at hresult
        cases hresult
  | waits hpc =>
      have hdone := h.not_done (by rw [hpc]; exact ProcessorPc.noConfusion)
      refine ⟨fun hlate => Bool.noConfusion (hdone.symm.trans hlate), h.unanswered, fun _ => ?_, ?_,
        fun _ hleaving => ProcessorPc.noConfusion hleaving, ?_⟩
      · exact h.clean fun _ hleaving => ProcessorPc.noConfusion (hpc.symm.trans hleaving)
      · rintro _ ⟨rfl⟩
        rfl
      · intro result hresult
        dsimp only [cancelContext] at hresult
        rw [h.unanswered hdone] at hresult
        cases hresult
  | @closesProducer rerr err hpc =>
      have hdone := h.not_done (by rw [hpc]; exact ProcessorPc.noConfusion)
      have hmerrors : s.merrors = [] :=
        h.clean (fun _ hleaving => ProcessorPc.noConfusion (hpc.symm.trans hleaving)) hdone
      refine ⟨fun hlate => Bool.noConfusion (hdone.symm.trans hlate), h.unanswered,
        fun hne => absurd rfl (hne _), fun _ hclosing => ProcessorPc.noConfusion hclosing, ?_, ?_⟩
      · rintro _ ⟨rfl⟩
        refine .inr ⟨rfl, ?_⟩
        dsimp only
        rw [hmerrors, ← h.closing rerr hpc]
        rfl
      · intro result hresult
        dsimp only at hresult
        rw [h.unanswered hdone] at hresult
        cases hresult
  | @leaves rerr hpc =>
      have hdone := h.not_done (by rw [hpc]; exact ProcessorPc.noConfusion)
      refine ⟨fun _ => ⟨rfl, List.append_ne_nil_of_right_ne_nil _ (List.cons_ne_nil _ _)⟩,
        fun hopen => Bool.noConfusion hopen, fun _ hopen => Bool.noConfusion hopen,
        fun _ hclosing => ProcessorPc.noConfusion hclosing,
        fun _ hleaving => ProcessorPc.noConfusion hleaving, ?_⟩
      intro result hresult
      dsimp only at hresult
      rw [h.unanswered hdone] at hresult
      obtain rfl := Option.some.inj hresult
      exact (h.leaving rerr hpc).keep rfl rfl id fun hclosed => ⟨hclosed, rfl⟩

/-! ### The errors of the callbacks -/

structure Accounted (s : ProcessorRun) : Prop where
  reported : ∀ wrapped, .processing wrapped ∈ s.reported → .processing wrapped ∈ s.consumerErrors ∨
    .processing wrapped ∈ s.drained ∨ s.errorLoop = .returned (some (errProcessing wrapped))
  ended : s.errorLoop = .returned none → s.consumerErrors = [] ∧ s.consumerGroup = .closed

theorem accounted_new (cfg : RunConfig Codec Callback) : Accounted (new cfg) where
  reported := fun _ hmem => absurd hmem List.not_mem_nil
  ended := fun hreturned => ErrorLoopPc.noConfusion hreturned

theorem Accounted.of_same (h : Accounted s) (hreported : s'.reported = s.reported)
    (herrors : s'.consumerErrors = s.consumerErrors) (hdrained : s'.drained = s.drained)
    (herrorLoop : s'.errorLoop = s.errorLoop)
    (hgroup : s.consumerGroup = .closed → s'.consumerGroup = .closed) :
    Accounted s' where
  reported := by
    rw [hreported, herrors, hdrained, herrorLoop]
    exact h.reported
  ended := by
    rw [herrorLoop, herrors]
    exact fun hreturned => (h.ended hreturned).imp_right hgroup

/-- The goroutine for the errors goes on without having read one. -/
theorem Accounted.goTo (h : Accounted s) {pc : ErrorLoopPc}
    (hpc : ∀ err, s.errorLoop ≠ .returned err) (hreported : s'.reported = s.reported)
    (herrors : s'.consumerErrors = s.consumerErrors) (hdrained : s'.drained = s.drained)
    (herrorLoop : s'.errorLoop = pc)
    (hended : pc = .returned none → s'.consumerErrors = [] ∧ s'.consumerGroup = .closed) :
    Accounted s' where
  reported := by
    intro wrapped hmem
    rw [hreported] at hmem
    rw [herrors, hdrained]
    rcases h.reported wrapped hmem with hpending | hread | hreturned
    · exact .inl hpending
    · exact .inr (.inl hread)
    · exact absurd hreturned (hpc _)
  ended := by
    rw [herrorLoop]
    exact hended

/-- An error that is reported is read by the error loop, or drained after another one. -/
theorem accounted_step {action : Action} (hcollected : Collected s) (h : Accounted s)
    (hstep : Step cfg s action s') :
    Accounted s' := by
  have hopen : ∀ {pc : ErrorLoopPc}, s.errorLoop = pc → (∀ err, pc ≠ .returned err) →
      ∀ err, s.errorLoop ≠ .returned err := by
    intro pc hpc hne err hreturned
    exact hne err (hpc.symm.trans hreturned)
  cases hstep with
  | refuses | begins | buildFails | builds | buildsProducer | startsTable | tablesStarted
  | waitsForTables | startupReturns
  | consumes | inConsume | consumeReturns | receives | pauses | stops | rebalanceContextDone
  | pauseEnds | waits
  | closesProducer | leaves | cancels | panics => exact h.of_same rfl rfl rfl rfl id
  | emits => exact h
  | lookupReturns | rebalanceReturns =>
      rw [collect_eq]
      exact h.of_same rfl rfl rfl rfl id
  | closesGroup => exact h.of_same rfl rfl rfl rfl fun _ => rfl
  | buildsGroup hpc =>
      refine h.goTo (hopen (hcollected.fresh (by rw [hpc]; rfl)) fun _ => ErrorLoopPc.noConfusion)
        rfl rfl rfl rfl ?_
      exact fun hreturned => ErrorLoopPc.noConfusion hreturned
  | drainEnds hpc | errorsContextDone hpc =>
      refine h.goTo (hopen hpc fun _ => ErrorLoopPc.noConfusion) rfl rfl rfl rfl ?_
      exact fun hreturned => ErrorLoopPc.noConfusion hreturned
  | errorsEnd hpc herrors hclosed =>
      exact h.goTo (hopen hpc fun _ => ErrorLoopPc.noConfusion) rfl rfl rfl rfl fun _ =>
        ⟨herrors, hclosed⟩
  | @reports err hopened =>
      refine ⟨fun wrapped hmem => ?_, fun hreturned => ?_⟩
      · rcases List.mem_append.mp hmem with hmem | hmem
        · exact (h.reported wrapped hmem).imp_left (List.mem_append_left _)
        · exact .inl (List.mem_append_right _ hmem)
      · exact ServicePhase.noConfusion (hopened.symm.trans (h.ended hreturned).2)
  | @processingFailed wrapped rest hpc herrors =>
      rw [collect_eq]
      refine ⟨fun other hmem => ?_, fun hreturned => ?_⟩
      · rcases h.reported other hmem with hpending | hread | hreturned
        · rw [herrors] at hpending
          rcases List.mem_cons.mp hpending with heq | hrest
          · obtain rfl := GroupError.processing.inj heq
            exact .inr (.inr rfl)
          · exact .inl hrest
        · exact .inr (.inl hread)
        · exact absurd hreturned (hopen hpc (fun _ => ErrorLoopPc.noConfusion) _)
      · exact absurd (ErrorLoopPc.returned.inj hreturned) (Option.some_ne_none _)
  | @logs err rest herrors =>
      refine ⟨fun wrapped hmem => ?_, fun hreturned => ?_⟩
      · refine (h.reported wrapped hmem).imp_left fun hpending => ?_
        rw [herrors] at hpending
        exact (List.mem_cons.mp hpending).resolve_left GroupError.noConfusion
      · rw [(h.ended hreturned).1] at herrors
        cases herrors
  | @drains err rest hpc herrors =>
      refine ⟨fun wrapped hmem => ?_,
        fun hreturned => absurd hreturned (hopen hpc (fun _ => ErrorLoopPc.noConfusion) _)⟩
      rcases h.reported wrapped hmem with hpending | hread | hreturned
      · rw [herrors] at hpending
        rcases List.mem_cons.mp hpending with rfl | hrest
        · exact .inr (.inl (List.mem_append_right _ (List.mem_singleton_self _)))
        · exact .inl hrest
      · exact .inr (.inl (List.mem_append_left _ hread))
      · exact .inr (.inr hreturned)

/-! ### `Run` tells what went wrong -/

structure Explained (cfg : RunConfig Codec Callback) (s : ProcessorRun) : Prop where
  served : Served s
  collected : Collected s
  caused : Caused s
  answered : Answered cfg s
  accounted : Accounted s

theorem explained_new (cfg : RunConfig Codec Callback) : Explained cfg (new cfg) where
  served := served_new cfg
  collected := collected_new cfg
  caused := caused_new cfg
  answered := answered_new cfg
  accounted := accounted_new cfg

theorem explained_step {action : Action} (h : Explained cfg s)
    (hstep : s.step cfg action = some s') :
    Explained cfg s' := by
  have hon := (step_cases hstep).2
  exact ⟨served_step h.served hon, collected_step h.served h.collected hon,
    caused_step h.served h.caused hon, answered_step h.served h.answered hon,
    accounted_step h.collected h.accounted hon⟩

/-- A run in which no goroutine has failed was ended by the caller. -/
theorem Explained.of_no_error (h : Explained cfg s) (hclosed : s.producer = .closed)
    (hnone : s.groupErrs = []) :
    s.cancelled = true ∧ s.goroutineErrs = [] ∧
      ∀ wrapped, .processing wrapped ∈ s.reported → .processing wrapped ∈ s.drained := by
  have hall := h.served.ended (.inr hclosed)
  have herrs : s.goroutineErrs = [] := List.nil_perm.mp (hnone ▸ h.collected.errs)
  obtain ⟨herrorLoop, hrest⟩ := List.append_eq_nil_iff.mp herrs
  have hrebalance := (List.append_eq_nil_iff.mp hrest).1
  obtain ⟨loopErr, hloop⟩ := hall.errorLoop
  obtain ⟨err, hreturned⟩ := hall.rebalance
  rw [errorLoopErr_eq hloop] at herrorLoop
  rw [rebalanceErr_eq hreturned] at hrebalance
  obtain rfl : loopErr = none := Option.toList_eq_nil_iff.mp herrorLoop
  obtain rfl : err = none := Option.toList_eq_nil_iff.mp hrebalance
  refine ⟨?_, herrs, fun wrapped hmem => ?_⟩
  · exact (h.caused.rebalance (by rw [hreturned]; rfl)).resolve_right fun hsome => hsome hnone
  · rcases h.accounted.reported wrapped hmem with hpending | hread | hfailed
    · rw [(h.accounted.ended hloop).1] at hpending
      exact absurd hpending List.not_mem_nil
    · exact hread
    · exact absurd (ErrorLoopPc.returned.inj (hloop.symm.trans hfailed)).symm
        (Option.some_ne_none _)

/-- **`Run` never ends silently.** Its first call returns the error of the builder that has failed,
or it has closed the producer and returns what the goroutines of the error group have returned, all
of it and nothing else, behind the error of closing the producer. It returns nil only when the
caller has cancelled it, the producer was closed without an error, no goroutine has failed, and
every error of a callback was read from the consumer group only after the context was done. -/
theorem run_explains_its_end (cfg : RunConfig Codec Callback) (actions : List Action)
    (result : Option String)
    (hresult : (Schedule.run (step cfg) (new cfg) actions).results.head? = some result) :
    let s := Schedule.run (step cfg) (new cfg) actions
    s.rebalance = .unstarted ∧ (∃ builder err, s.buildErr = some (builder, err) ∧
        result = some (builder.errorText cfg.brokers err)) ∨
      s.producer = .closed ∧ s.groupErrs.Perm s.goroutineErrs ∧
        result = nilOrError (s.closeErr.toList.map (fun err => "error closing producer: " ++ err) ++
          (nilOrError s.groupErrs).toList) ∧
        (result = none → s.cancelled = true ∧ s.closeErr = none ∧ s.goroutineErrs = [] ∧
          ∀ wrapped, .processing wrapped ∈ s.reported → .processing wrapped ∈ s.drained) := by
  intro s
  have h : Explained cfg s :=
    run_invariant (fun _ _ _ => explained_step) (explained_new cfg) actions
  rcases h.answered.first result hresult with hbuild | ⟨hclosed, hanswer⟩
  · exact .inl hbuild
  · refine .inr ⟨hclosed, h.collected.errs, hanswer, fun hnone => ?_⟩
    rw [hnone] at hanswer
    obtain ⟨hclose, hgroup⟩ := List.append_eq_nil_iff.mp (nilOrError_eq_none.mp hanswer.symm)
    obtain ⟨hcancelled, herrs, hdrained⟩ :=
      h.of_no_error hclosed (nilOrError_eq_none.mp (Option.toList_eq_nil_iff.mp hgroup))
    exact ⟨hcancelled, Option.toList_eq_nil_iff.mp (List.map_eq_nil_iff.mp hclose), herrs, hdrained⟩

def toFailure : List Action :=
  [.report (.processing "overflow"), .readError, .rebalanceContextDone] ++
    Sessions.endSession.map .inConsume ++
    [.consumeReturns 0 none, .receive, .closeConsumerGroup none,
      .rebalanceReturns, .wait, .closeProducer (some "broken pipe"), .leave]

theorem run_explains_its_end_one_session :
    let failed := Schedule.run (step (tableRun false)) (new (tableRun false))
      (toSession [] ++ toFailure)
    let stopped := Schedule.run (step (tableRun false)) (new (tableRun false))
      (toSession [] ++ toReturn)
    failed.results = [some ("Errors:\n\t* error closing producer: broken pipe\n" ++
        "\t* error processing message: overflow\n")] ∧
      stopped.results = [none] ∧ stopped.cancelled = true := by
  intro failed stopped
  have hresult : stopped.results.head? = some none := by decide +kernel
  rcases run_explains_its_end (tableRun false) (toSession [] ++ toReturn) none hresult with
    ⟨hunstarted, -⟩ | ⟨-, -, -, hnone⟩
  · exact absurd hunstarted (by decide +kernel)
  · exact ⟨by decide +kernel, by decide +kernel, (hnone rfl).1⟩

end ProcessorRun

end Goka

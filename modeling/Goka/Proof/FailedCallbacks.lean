import Goka.Proof.PartitionProcessor

/-!
# Failed callbacks

`Fail` is meant not to return: it panics, the panic ends `run`, and the context of the message is
never finished. Once the processor's context is done it does return, and the operation goes on as if
nothing had happened.
-/

namespace Goka

open Schedule

section Operations

variable {α Callback σ : Type} [TableStore σ] {env : Env α Callback} {s s' : OpState σ}
  {o : ContextOp α} {panicked : Option String}

omit [TableStore σ] in
theorem Op.preserved_clean_unless_failing :
    Preserved (fun s : OpState σ => s.failing = false → Clean s)
      (fun s => s.failing = false → Clean s) :=
  Op.preserved_of_always (fun s _ h => absurd h (by simp)) (fun _ _ h => h) (fun _ _ h => h)
    (fun _ h => h) (fun _ _ h => h) fun s topic key value headers h hfailing e he => by
      rcases List.mem_append.mp he with he | he
      · exact h hfailing e he
      · rw [List.mem_singleton.mp he]
        exact hfailing

/-- Where `Fail` is only called as long as it panics, an operation emits nothing after it, and one
that returns has not called it. -/
theorem perform_clean (hperform : s.perform env o = (panicked, s')) (hclean : Op.Clean s)
    (hpanics : s'.failing = true → s.cancelled = false) :
    Op.Clean s' ∧ (panicked = none → s'.failing = false) := by
  cases hcancelled : s.cancelled with
  | true =>
      have hfailing : s'.failing = false := by
        cases h : s'.failing with
        | false => rfl
        | true => rw [hpanics h] at hcancelled; cases hcancelled
      have hkept := perform_keeps Op.preserved_clean_unless_failing (fun _ => hclean)
        (fun _ _ h => h) hperform
      exact ⟨hkept hfailing, fun _ => hfailing⟩
  | false =>
      obtain ⟨final, hreturned, hpanicked, rfl⟩ :=
        perform_spec (keeps_exec_of_preserved Op.preserved_clean) ⟨hcancelled, rfl, hclean⟩ hperform
      refine ⟨?_, fun hnone => (hreturned hnone).2.1⟩
      by_cases hnone : panicked = none
      · exact (hreturned hnone).2.2
      · exact hpanicked hnone

theorem perform_unfinished (hperform : s.perform env o = (panicked, s'))
    (hdone : s.ctx.done = false) (hcalls : s.ctx.calls = []) :
    s'.ctx.done = false ∧ s'.ctx.calls = [] :=
  perform_keeps (I := fun s => s.ctx.done = false ∧ s.ctx.calls = [])
    (Op.preserved_of_always (fun _ h => h) (fun _ _ h => h) (fun _ _ h => h) (fun _ h => h)
      (fun _ _ h => h) (fun _ _ _ _ _ h => h)) ⟨hdone, hcalls⟩ (fun _ _ h => h) hperform

theorem perform_failed (hperform : s.perform env o = (panicked, s'))
    (hfailed : s.ctx.failed = false) :
    s'.ctx.failed = (s'.failing || panicked.isSome) := by
  have hkept : Preserved (σ := σ) (fun s => s.ctx.failed = false) (fun s => s.ctx.failed = false) :=
    Op.preserved_of_always (fun _ h => h) (fun _ _ h => h) (fun _ _ h => h) (fun _ h => h)
      (fun _ _ h => h) (fun _ _ _ _ _ h => h)
  obtain ⟨final, hfinal, rfl⟩ :=
    perform_spec_always (keeps_exec_of_preserved hkept) hfailed hperform
  simp [hfinal]

end Operations

namespace CbContext

variable {ctx ctx' : CbContext}

theorem failed_resolve {σ : Type} [TableStore σ] {table table' : Option σ} {index : Nat}
    {offset : Option Int} {err : Option String}
    (h : ctx.resolve table index offset err = some (ctx', table')) : ctx'.failed = ctx.failed := by
  rcases resolve_cases h with ⟨rfl, -, -⟩ | ⟨handout, -, rfl, -⟩
  · rfl
  · exact (tryCommit_frame _ _).2.2

theorem unfinished_resolve {σ : Type} [TableStore σ] {table table' : Option σ} {index : Nat}
    {offset : Option Int} {err : Option String}
    (h : ctx.resolve table index offset err = some (ctx', table')) (hdone : ctx.done = false) :
    ctx'.done = false ∧ ctx'.calls = ctx.calls := by
  rcases resolve_cases h with ⟨rfl, -, -⟩ | ⟨handout, -, rfl, -⟩
  · exact ⟨hdone, rfl⟩
  · refine ⟨(tryCommit_frame _ _).2.1.trans hdone, ?_⟩
    rw [emitDone, calls_tryCommit, if_pos (.inl hdone)]
    exact List.append_nil _

end CbContext

namespace PartitionProcessor

variable {α Callback σ : Type} {cfg : Config α Callback} {pp pp' : PartitionProcessor σ}

theorem update_frame (pp : PartitionProcessor σ) (index : Nat) (ctx ctx' : CbContext) :
    (pp.update index ctx ctx').taken = pp.taken.set index ctx' ∧
      (pp.update index ctx ctx').pc = pp.pc ∧
      (pp.update index ctx ctx').emitted = pp.emitted := by
  obtain ⟨-, htaken, -, hpc, hemitted⟩ := foldl_call { pp with taken := pp.taken.set index ctx' }
    ctx.msg (ctx'.calls.drop ctx.calls.length)
  exact ⟨htaken, hpc, hemitted⟩

/-- A callback that has failed commits nothing, and no operation has emitted after it had failed. -/
def FailedNeverCommits (pp : PartitionProcessor σ) : Prop :=
  (∀ ctx ∈ pp.taken, ctx.failed = true → ¬ ctx.Committed) ∧
    ∀ e ∈ pp.emitted, e.afterFail = false

structure FailInv (pp : PartitionProcessor σ) : Prop where
  clean : ∀ e ∈ pp.emitted, e.afterFail = false
  failed : ∀ ctx ∈ pp.taken, ctx.failed = true → ctx.done = false ∧ ctx.calls = []
  running : pp.pc = .callback → ∀ ctx, pp.current = some ctx →
    ctx.failed = false ∧ ctx.done = false ∧ ctx.calls = []

theorem FailInv.failedNeverCommits (h : FailInv pp) : FailedNeverCommits pp := by
  refine ⟨fun ctx hctx hfailed hcommitted => ?_, h.clean⟩
  rw [CbContext.Committed, (h.failed ctx hctx hfailed).2] at hcommitted
  cases hcommitted

theorem FailInv.frame (h : FailInv pp) (htaken : pp'.taken = pp.taken)
    (hemitted : pp'.emitted = pp.emitted) (hpc : pp'.pc = pp.pc ∨ pp'.pc ≠ .callback) :
    FailInv pp' := by
  refine ⟨by rw [hemitted]; exact h.clean, by rw [htaken]; exact h.failed, fun hcallback => ?_⟩
  have hpc' : pp.pc = .callback := by
    rcases hpc with hpc | hpc
    · rw [← hpc]; exact hcallback
    · exact absurd hcallback hpc
  rw [current, htaken]
  exact h.running hpc'

theorem FailInv.push (h : FailInv pp) {ctx : CbContext} (htaken : pp'.taken = pp.taken ++ [ctx])
    (hemitted : pp'.emitted = pp.emitted) (hfailed : ctx.failed = false)
    (hrunning : pp'.pc = .callback → ctx.done = false ∧ ctx.calls = []) : FailInv pp' := by
  refine ⟨by rw [hemitted]; exact h.clean, fun c hc hcfailed => ?_, fun hpc c hcurrent => ?_⟩
  · rw [htaken] at hc
    rcases List.mem_append.mp hc with hc | hc
    · exact h.failed c hc hcfailed
    · rw [List.mem_singleton.mp hc, hfailed] at hcfailed
      cases hcfailed
  · rw [current, htaken, List.getLast?_concat] at hcurrent
    obtain rfl := Option.some.inj hcurrent
    exact ⟨hfailed, hrunning hpc⟩

theorem FailInv.set (h : FailInv pp) {index : Nat} {ctx ctx' : CbContext}
    (hctx : pp.taken[index]? = some ctx) (htaken : pp'.taken = pp.taken.set index ctx')
    (hclean : ∀ e ∈ pp'.emitted, e.afterFail = false)
    (hfailed : ctx'.failed = true → ctx'.done = false ∧ ctx'.calls = [])
    (hpc : pp'.pc = .callback → pp.pc = .callback ∧
      (pp.current = some ctx → ctx'.failed = false ∧ ctx'.done = false ∧ ctx'.calls = [])) :
    FailInv pp' := by
  have hlt := (List.getElem?_eq_some_iff.mp hctx).1
  refine ⟨hclean, fun c hc hcfailed => ?_, fun hcallback c hcurrent => ?_⟩
  · rw [htaken] at hc
    rcases Threads.mem_set_cases hc with rfl | ⟨i, -, hi⟩
    · exact hfailed hcfailed
    · exact h.failed c (List.mem_of_getElem? hi) hcfailed
  · obtain ⟨hpc', hset⟩ := hpc hcallback
    have hlast := current_eq_some hcurrent
    rw [htaken, List.length_set] at hlast
    by_cases hindex : index = pp.taken.length - 1
    · subst hindex
      rw [List.getElem?_set_self hlt] at hlast
      obtain rfl := Option.some.inj hlast
      refine hset ?_
      rw [current, List.getLast?_eq_getElem?, hctx]
    · rw [List.getElem?_set_ne hindex] at hlast
      refine h.running hpc' c ?_
      rw [current, List.getLast?_eq_getElem?, hlast]

section Steps

variable [TableStore σ]

/-- If the operation calls `Fail`, then it does so before the processor's context is done, and the
callback does not recover from a panic of the operation. -/
def FailEnds (cfg : Config α Callback) (pp : PartitionProcessor σ) : Action α → Prop
  | .op o recovers => ∀ ctx ∈ pp.current,
      (((pp.opState ctx).perform cfg.toEnv o).2.failing = true → pp.cancelled = false) ∧
        (((pp.opState ctx).perform cfg.toEnv o).1 ≠ none → recovers = false)
  | _ => True

instance (cfg : Config α Callback) (pp : PartitionProcessor σ) : DecidablePred (FailEnds cfg pp)
  | .op o recovers => inferInstanceAs (Decidable (∀ ctx ∈ pp.current,
      (((pp.opState ctx).perform cfg.toEnv o).2.failing = true → pp.cancelled = false) ∧
        (((pp.opState ctx).perform cfg.toEnv o).1 ≠ none → recovers = false)))
  | .take | .inputClosed | .contextDone | .asyncErrs | .panics _ | .returns | .resolve ..
  | .cancel =>
      .isTrue trivial

/-- The operation may fail the callback, and then it does so as its last action. -/
theorem failInv_op {o : ContextOp α} {recovers : Bool} {ctx : CbContext} {panicked : Option String}
    {s : OpState σ} (h : FailInv pp) (hends : FailEnds cfg pp (.op o recovers))
    (hpc : pp.pc = .callback) (hcurrent : pp.current = some ctx)
    (hperformed : (pp.opState ctx).perform cfg.toEnv o = (panicked, s))
    (htaken : pp'.taken = pp.taken.set (pp.taken.length - 1) s.ctx)
    (hemitted : pp'.emitted = s.emitted)
    (hcallback : pp'.pc = .callback → panicked = none ∨ recovers = true) : FailInv pp' := by
  obtain ⟨hfailed, hdone, hcalls⟩ := h.running hpc ctx hcurrent
  obtain ⟨hcancelled, hrecovers⟩ := hends ctx hcurrent
  rw [hperformed] at hcancelled hrecovers
  obtain ⟨hclean, hreturned⟩ := perform_clean hperformed h.clean hcancelled
  have hunfinished := perform_unfinished hperformed hdone hcalls
  refine h.set (current_eq_some hcurrent) htaken (by rw [hemitted]; exact hclean)
    (fun _ => hunfinished) fun hpc' => ⟨hpc, fun _ => ⟨?_, hunfinished⟩⟩
  -- the callback goes on, so the operation has returned
  have hnone : panicked = none := by
    by_contra hpanicked
    have hrecovered := (hcallback hpc').resolve_left hpanicked
    rw [hrecovers hpanicked] at hrecovered
    cases hrecovered
  rw [perform_failed hperformed hfailed, hreturned hnone, hnone]
  rfl

/-- What commits is a context that has not failed, and what emits is the running callback. -/
theorem failInv_step {action : Action α} (h : FailInv pp) (hends : FailEnds cfg pp action)
    (hstep : pp.step cfg action = some pp') : FailInv pp' := by
  cases step_cases hstep with
  | ignored hpc => exact h.push rfl rfl rfl fun hcallback => by simp [call, hpc] at hcallback
  | fails => exact h.push rfl rfl rfl fun hcallback => by cases hcallback
  | calls => exact h.push rfl rfl rfl fun _ => ⟨rfl, rfl⟩
  | closed | contextDone | asyncErrs => exact h.frame rfl rfl (.inr (by simp))
  | cancel => exact h.frame rfl rfl (.inl rfl)
  | op hpc hcurrent hperformed pc rerr hcallback =>
      exact failInv_op h hends hpc hcurrent hperformed rfl rfl hcallback
  | panics hpc hcurrent =>
      exact h.set (current_eq_some hcurrent) rfl h.clean
        (fun _ => (h.running hpc _ hcurrent).2) fun hcallback => by cases hcallback
  | @returns ctx hpc hcurrent =>
      obtain ⟨htaken, hpc', hemitted⟩ := update_frame { pp with pc := .selecting }
        (pp.taken.length - 1) ctx (ctx.finish none)
      refine h.set (current_eq_some hcurrent) htaken (by rw [hemitted]; exact h.clean) ?_ ?_
      · intro hfailed
        rw [CbContext.finish, (CbContext.tryCommit_frame _ _).2.2] at hfailed
        rw [(h.running hpc ctx hcurrent).1] at hfailed
        cases hfailed
      · intro hcallback
        rw [hpc'] at hcallback
        cases hcallback
  | @resolve message index offset err ctx ctx' table hctx hresolve =>
      obtain ⟨htaken, hpc, hemitted⟩ := update_frame { pp with table := table } message ctx ctx'
      refine h.set hctx htaken (by rw [hemitted]; exact h.clean) ?_ ?_
      · intro hfailed
        rw [CbContext.failed_resolve hresolve] at hfailed
        obtain ⟨hdone, hcalls⟩ := h.failed ctx (List.mem_of_getElem? hctx) hfailed
        rw [← hcalls]
        exact CbContext.unfinished_resolve hresolve hdone
      · intro hcallback
        rw [hpc] at hcallback
        refine ⟨hcallback, fun hcurrent => ?_⟩
        obtain ⟨hfailed, hdone, hcalls⟩ := h.running hcallback ctx hcurrent
        rw [CbContext.failed_resolve hresolve, ← hcalls]
        exact ⟨hfailed, CbContext.unfinished_resolve hresolve hdone⟩

/-- In every run in which `Fail` is never called after the processor's context is done and no
callback recovers from a panic of an operation, a callback that has failed never commits its
message. -/
theorem failed_never_commits (cfg : Config α Callback) (input : List Message) (table : Option σ)
    (marked : Int) (actions : List (Action α))
    (hends : ∀ t ∈ transitions (fun pp => pp.step cfg) (start input table marked) actions,
      FailEnds cfg t.1 t.2.1) :
    FailedNeverCommits (run (fun pp => pp.step cfg) (start input table marked) actions) := by
  refine FailInv.failedNeverCommits (run_invariant_of_allowed (FailEnds cfg) ?_ ?_ hends)
  · exact fun pp action pp' h hends hstep => failInv_step h hends hstep
  · exact ⟨by simp [start], by simp [start], fun hpc => by cases hpc⟩

end Steps

def failing : List (Action Bytes) :=
  [.take, .op (.setValue (some [1]) []) false, .op (.emit "in" [97] (some [1]) []) false,
    .resolve 0 0 (some 0) none, .cancel]

theorem failed_never_commits_failing :
    FailedNeverCommits (run (fun pp => pp.step rawConfig)
      (start twoMessages (some ContextRun.emptyTable) 0) failing) :=
  failed_never_commits rawConfig twoMessages _ 0 failing (by decide)

def failingCancelled : List (Action Bytes) :=
  [.take, .cancel, .op (.emit "in" [97] (some [1]) []) false, .resolve 0 0 none none, .returns]

theorem failed_commits_when_cancelled :
    let pp := run (fun pp => pp.step rawConfig)
      (start twoMessages (none : Option GroupTable) 0) failingCancelled
    (∃ ctx ∈ pp.taken, ctx.failed = true ∧ ctx.Committed) ∧
    ∃ e ∈ pp.emitted, e.afterFail = true := by
  decide

end PartitionProcessor

end Goka

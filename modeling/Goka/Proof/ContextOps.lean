import Goka.Context
import Goka.Library.Panic

/-!
# What the operations of a context can do

Whatever an operation does, it does by the same few changes of the state and by `Fail`, so what
these keep every operation keeps. In particular an operation that calls `Fail` while the processor
is not shutting down panics there and hands nothing more to the emitter.
-/

namespace Goka

open Std.Do

set_option mvcgen.warning false

variable {α Callback σ : Type} (env : Env α Callback) {I R : OpState σ → Prop}

/-- The program keeps `I` as long as it runs, and `R` holds where it panics. -/
abbrev Keeps {β : Type} (I R : OpState σ → Prop) (program : Op σ β) : Prop :=
  ⦃fun s => ⌜I s⌝⦄ program ⦃post⟨fun _ s => ⌜I s⌝, fun _ s => ⌜R s⌝⟩⦄

/-- Each change an operation can make keeps `I`, and so does `Fail` where it returns. -/
structure Preserved (I R : OpState σ → Prop) : Prop where
  fail : ∀ err, Keeps I R (Op.fail err)
  panic : ∀ s, I s → R s
  table : ∀ s table, I s → I { s with table := some table }
  store : ∀ s, I s → I { s with ctx := { s.ctx with stores := s.ctx.stores + 1 } }
  handOut : ∀ s handout, I s → I { s with ctx := s.ctx.handOut handout }
  emitted : ∀ s topic key value headers, I s →
    I { s with emitted := s.emitted ++ [⟨topic, key, value, headers, s.failing⟩] }

structure Internal (I R : OpState σ → Prop) : Prop where
  fail : ∀ err, Keeps I R (Op.fail err)
  panic : ∀ s, I s → R s
  table : ∀ s table, I s → I { s with table := some table }
  store : ∀ s, I s → I { s with ctx := { s.ctx with stores := s.ctx.stores + 1 } }
  handOut : ∀ s handout, I s → I { s with ctx := s.ctx.handOut handout }

theorem Preserved.internal (hI : Preserved I R) : Internal I R :=
  ⟨hI.fail, hI.panic, hI.table, hI.store, hI.handOut⟩

/-- The headers of what a call hands over: the writes of the group table do without the defaults. -/
def ContextOp.headers : ContextOp α → Headers
  | .emit _ _ _ options | .loopback _ _ options =>
      env.emitterDefaultHeaders.merged (.ofOptions options)
  | .delete options | .setValue _ options => .ofOptions options
  | _ => none

namespace Op

theorem keeps_failOn (hI : Internal I R) (err : Option String) :
    Keeps I R (failOn err : Op σ Unit) := by
  cases err with
  | none => mvcgen [failOn]
  | some err => exact hI.fail err

theorem keeps_nilDereference {β : Type} (hI : Internal I R) :
    Keeps I R (nilDereference : Op σ β) := by
  mvcgen [nilDereference]
  exact hI.panic _ ‹_›

theorem keeps_handOver (hI : Preserved I R) (handout : Handout) (topic : String) (key : Bytes)
    (value : Option Bytes) (headers : Headers) :
    Keeps I R (handOver handout topic key value headers : Op σ Unit) := by
  mvcgen [handOver]
  exact hI.emitted _ _ _ _ _ (hI.handOut _ _ ‹_›)

theorem keeps_onTable (hI : Internal I R) (write : σ → Option String × σ) :
    Keeps I R (onTable write) := by
  have hnil := fun β => keeps_nilDereference (β := β) hI
  mvcgen [onTable, hnil]
  exact hI.table _ _ ‹_›

theorem keeps_emit (hI : Internal I R) (topic : String) (key : Bytes) (value : Option α)
    (options : List Headers)
    (hhandOver : ∀ handout topic key value, Keeps I R (handOver handout topic key value
      (env.emitterDefaultHeaders.merged (.ofOptions options)))) :
    Keeps I R (emit env topic key value options : Op σ Unit) := by
  have hfail := hI.fail
  have hfailOn := keeps_failOn hI
  have hnil := fun β => keeps_nilDereference (β := β) hI
  mvcgen [emit, emitMessage, hfail, hfailOn, hhandOver, hnil]

theorem keeps_loopback (hI : Internal I R) (key : Bytes) (value : Option α) (options : List Headers)
    (hhandOver : ∀ handout topic key value, Keeps I R (handOver handout topic key value
      (env.emitterDefaultHeaders.merged (.ofOptions options)))) :
    Keeps I R (loopback env key value options : Op σ Unit) := by
  have hfail := hI.fail
  have hfailOn := keeps_failOn hI
  have hnil := fun β => keeps_nilDereference (β := β) hI
  mvcgen [loopback, emitMessage, hfail, hfailOn, hhandOver, hnil]

theorem keeps_join (hI : Internal I R) (topic : String) :
    Keeps I R (join env topic : Op σ (Option α)) := by
  have hfail := hI.fail
  have hfailOn := keeps_failOn hI
  have hnil := fun β => keeps_nilDereference (β := β) hI
  mvcgen [join, hfail, hfailOn, hnil]

theorem keeps_lookup (hI : Internal I R) (topic : String) (key : Bytes) :
    Keeps I R (lookup env topic key : Op σ (Option α)) := by
  have hfail := hI.fail
  have hnil := fun β => keeps_nilDereference (β := β) hI
  mvcgen [lookup, hfail, hnil]

section Table

variable [TableStore σ]

theorem keeps_deleteKey (hI : Internal I R) (key : Bytes) (hdr : Headers)
    (hhandOver : ∀ handout topic key value, Keeps I R (handOver handout topic key value hdr)) :
    Keeps I R (deleteKey env key hdr : Op σ (Option String)) := by
  have honTable := keeps_onTable hI
  mvcgen [deleteKey, countStore, hhandOver, honTable]
  exact hI.store _ ‹_›

theorem keeps_setValueForKey (hI : Internal I R) (key : Bytes) (value : Option α) (hdr : Headers)
    (hhandOver : ∀ handout topic key value, Keeps I R (handOver handout topic key value hdr)) :
    Keeps I R (setValueForKey env key value hdr : Op σ (Option String)) := by
  have honTable := keeps_onTable hI
  have hnil := fun β => keeps_nilDereference (β := β) hI
  mvcgen [setValueForKey, countStore, hhandOver, honTable, hnil]
  exact hI.store _ ‹_›

theorem keeps_valueForKey (hI : Internal I R) (key : Bytes) :
    Keeps I R (valueForKey env key : Op σ (Except String (Option α))) := by
  have hnil := fun β => keeps_nilDereference (β := β) hI
  mvcgen [valueForKey, hnil]

/-- Each operation is made of the same few programs, so it is enough to look at those. -/
theorem keeps_exec (hI : Internal I R) (o : ContextOp α)
    (hhandOver : ∀ handout topic key value,
      Keeps I R (handOver handout topic key value (o.headers env))) :
    Keeps I R (o.exec env) := by
  have hfail := hI.fail
  have hfailOn := keeps_failOn hI
  cases o with
  | emit topic key value options =>
      have hemit := keeps_emit env hI topic key value options hhandOver
      mvcgen [ContextOp.exec, hemit]
  | loopback key value options =>
      have hloopback := keeps_loopback env hI key value options hhandOver
      mvcgen [ContextOp.exec, hloopback]
  | delete options =>
      have hdeleteKey := fun key => keeps_deleteKey env hI key (.ofOptions options) hhandOver
      mvcgen [ContextOp.exec, Op.delete, hdeleteKey, hfailOn]
  | setValue value options =>
      have hsetValueForKey :=
        fun key => keeps_setValueForKey env hI key value (.ofOptions options) hhandOver
      mvcgen [ContextOp.exec, Op.setValue, hsetValueForKey, hfailOn]
  | value =>
      have hvalueForKey := keeps_valueForKey env hI
      mvcgen [ContextOp.exec, Op.value, hvalueForKey, hfail]
  | join topic => exact keeps_join env hI topic
  | lookup topic key => exact keeps_lookup env hI topic key
  | deferCommit =>
      mvcgen [ContextOp.exec, deferCommit]
      exact hI.handOut _ _ ‹_›
  | fail err => mvcgen [ContextOp.exec, hfail]

end Table

/-! ### Two kinds of properties -/

/-- A property that is kept when `Fail` is called, whether it panics or not. -/
theorem preserved_of_always
    (hfailing : ∀ s, I s → I { s with failing := true })
    (hrerr : ∀ s err, I s → I { s with rerr := some err })
    (htable : ∀ s table, I s → I { s with table := some table })
    (hstore : ∀ s, I s → I { s with ctx := { s.ctx with stores := s.ctx.stores + 1 } })
    (hhandOut : ∀ s handout, I s → I { s with ctx := s.ctx.handOut handout })
    (hemitted : ∀ s topic key value headers, I s →
      I { s with emitted := s.emitted ++ [⟨topic, key, value, headers, s.failing⟩] }) :
    Preserved I I where
  fail := by
    intro err
    mvcgen [fail]
    · exact hrerr _ _ (hfailing _ ‹_›)
    · exact hfailing _ ‹_›
  panic := fun _ hs => hs
  table := htable
  store := hstore
  handOut := hhandOut
  emitted := hemitted

def Clean (s : OpState σ) : Prop := ∀ e ∈ s.emitted, e.afterFail = false

/-- As long as the processor is not shutting down, an operation that goes on has not called
`Fail`. -/
theorem preserved_clean :
    Preserved (fun s : OpState σ => s.cancelled = false ∧ s.failing = false ∧ Clean s) Clean where
  fail := by
    intro err
    mvcgen [fail]
    · rename_i s hpre _ hcancelled _
      have hcancelled' : s.cancelled = true := hcancelled
      simp [hpre.1] at hcancelled'
    · rename_i s hpre _ _
      exact hpre.2.2
  panic := fun _ hs => hs.2.2
  table := fun _ _ hs => hs
  store := fun _ hs => hs
  handOut := fun _ _ hs => hs
  emitted := by
    rintro s topic key value headers ⟨hcancelled, hfailing, hclean⟩
    refine ⟨hcancelled, hfailing, fun e he => ?_⟩
    rcases List.mem_append.mp he with he | he
    · exact hclean e he
    · rw [List.mem_singleton.mp he]
      exact hfailing

end Op

/-! ### Performing an operation -/

def AddsWith (base : List Emission) (headers : Headers) (s : OpState σ) : Prop :=
  ∃ new, s.emitted = base ++ new ∧ ∀ e ∈ new, e.headers = headers

theorem AddsWith.push {base : List Emission} {headers : Headers} {s : OpState σ} {topic : String}
    {key : Bytes} {value : Option Bytes} {afterFail : Bool} {ctx : CbContext}
    (h : AddsWith base headers s) :
    AddsWith base headers { s with
      ctx := ctx
      emitted := s.emitted ++ [⟨topic, key, value, headers, afterFail⟩] } := by
  obtain ⟨new, hemitted, hnew⟩ := h
  refine ⟨new ++ [⟨topic, key, value, headers, afterFail⟩], ?_, ?_⟩
  · rw [hemitted, List.append_assoc]
  · exact List.forall_mem_append.mpr ⟨hnew, List.forall_mem_singleton.mpr rfl⟩

section Perform

variable [TableStore σ] {env} {s s' : OpState σ} {o : ContextOp α} {panicked : Option String}

/-- What holds after an operation has returned and what holds after it has panicked, up to the ghost
that says whether one failed. -/
theorem perform_spec (hkeeps : Keeps I R (o.exec env)) (hpre : I { s with failing := false })
    (h : s.perform env o = (panicked, s')) :
    ∃ final : OpState σ, (panicked = none → I final) ∧ (panicked ≠ none → R final) ∧
      s' = { final with
        ctx := { final.ctx with
          failed := final.ctx.failed || final.failing || panicked.isSome } } := by
  unfold OpState.perform at h
  cases hrun : (o.exec env).run { s with failing := false } with
  | mk result final =>
      simp only [hrun] at h
      obtain ⟨rfl, rfl⟩ := Prod.mk.inj h
      refine ⟨final, ?_⟩
      cases result with
      | ok v =>
          have hpost := Panic.post_of_triple hkeeps hpre hrun
          exact ⟨fun _ => hpost, fun hne => absurd rfl hne, rfl⟩
      | error err =>
          have hpost := Panic.post_of_triple_panic hkeeps hpre hrun
          exact ⟨nofun, fun _ => hpost, rfl⟩

theorem keeps_exec_of_preserved (hI : Preserved I R) : Keeps I R (o.exec env) :=
  Op.keeps_exec env hI.internal o fun handout topic key value =>
    Op.keeps_handOver hI handout topic key value _

/-- What holds either way does not depend on how the operation ended. -/
theorem perform_spec_always (hkeeps : Keeps I I (o.exec env)) (hpre : I { s with failing := false })
    (h : s.perform env o = (panicked, s')) :
    ∃ final : OpState σ, I final ∧
      s' = { final with
        ctx := { final.ctx with
          failed := final.ctx.failed || final.failing || panicked.isSome } } := by
  obtain ⟨final, hreturned, hpanicked, hfinal⟩ := perform_spec hkeeps hpre h
  refine ⟨final, ?_, hfinal⟩
  by_cases hnone : panicked = none
  · exact hreturned hnone
  · exact hpanicked hnone

/-- What an operation hands over carries the headers of the operation. -/
theorem perform_emitted (h : s.perform env o = (panicked, s')) :
    AddsWith s.emitted (o.headers env) s' := by
  have hinternal : Internal (AddsWith (σ := σ) s.emitted (o.headers env))
      (AddsWith s.emitted (o.headers env)) := by
    refine ⟨fun err => ?_, fun _ h => h, fun _ _ h => h, fun _ h => h, fun _ _ h => h⟩
    mvcgen [Op.fail]
  have hhandOver : ∀ handout topic key value, Keeps (AddsWith (σ := σ) s.emitted (o.headers env))
      (AddsWith s.emitted (o.headers env))
        (Op.handOver handout topic key value (o.headers env)) := by
    intro handout topic key value
    mvcgen [Op.handOver]
    exact AddsWith.push ‹_›
  obtain ⟨final, hfinal, rfl⟩ := perform_spec_always
    (Op.keeps_exec env hinternal o hhandOver) ⟨[], (List.append_nil _).symm, by simp⟩ h
  exact hfinal

theorem perform_keeps (hI : Preserved I I) (hpre : I { s with failing := false })
    (hfailed : ∀ s failed, I s → I { s with ctx := { s.ctx with failed := failed } })
    (h : s.perform env o = (panicked, s')) : I s' := by
  obtain ⟨final, hfinal, rfl⟩ := perform_spec_always (keeps_exec_of_preserved hI) hpre h
  exact hfailed _ _ hfinal

end Perform

end Goka

import Goka.Emitter
import Goka.Library.Schedule
import Goka.Library.Threads
import Goka.Proof.Promise

/-!
# The emitter shuts down cleanly

The wait group counts the calls that have been accepted and whose promise has not resolved. `done`
is closed under the lock that a call holds when it adds itself, so once `Finish` waits the number of
such calls can only go down, and when it has come to zero there is no call left that could still
hand over a message.
-/

namespace Goka

open Schedule

def EmitStage.unresolved : EmitStage → Bool
  | .accepted => true
  | .handed promise => !promise.finished
  | _ => false

def EmitCall.unresolved (call : EmitCall) : Bool := call.stage.unresolved

namespace Emitter

variable {α : Type} {e e' : Emitter α} {i : Nat} {call : EmitCall}

/-! ### What an action can do -/

inductive Step (e : Emitter α) : Action α → Emitter α → Prop where
  | emit (key : Bytes) (msg : Option α) (hdr : Headers) :
      Step e (.emitWithHeaders key msg hdr) (e.emitWithHeaders key msg hdr)
  | reject {i : Nat} {call : EmitCall} (hcall : e.calls[i]? = some call)
      (hstage : call.stage = .encoded) (hdone : e.done = true) :
      Step e (.checkAndAdd i) { e with
        calls := e.calls.set i { call with
          stage := .rejected (Promise.new.finish none (some errEmitterAlreadyClosed)) } }
  | accept {i : Nat} {call : EmitCall} (hcall : e.calls[i]? = some call)
      (hstage : call.stage = .encoded) (hdone : e.done = false) :
      Step e (.checkAndAdd i)
        { e with wg := e.wg + 1, calls := e.calls.set i { call with stage := .accepted } }
  | handOver {i : Nat} {call : EmitCall} (hcall : e.calls[i]? = some call)
      (hstage : call.stage = .accepted) (settled : Option (Option String))
      (promise : Promise ProducerMessage)
      (hpromise : promise = .new ∨ ∃ msg err, promise = Promise.new.finish msg err) :
      Step e (.handOver i settled)
        ({ e with handed := e.handed ++ [(i, e.message call.key call.data call.hdr)] }.emitDone i
          call.key call.data call.hdr promise promise.andThen)
  | resolve {i : Nat} {call : EmitCall} {promise : Promise ProducerMessage}
      (hcall : e.calls[i]? = some call) (hstage : call.stage = .handed promise)
      (msg : Option ProducerMessage) (err : Option String) :
      Step e (.resolve i msg err)
        (e.emitDone i call.key call.data call.hdr promise (promise.finish msg err))
  | finishClose (hstage : e.finishing = .notCalled) :
      Step e .finishClose { e with done := true, finishing := .waiting }
  | finishWait (hstage : e.finishing = .waiting) (hwg : e.wg = 0) :
      Step e .finishWait { e with finishing := .waited }
  | producerClose (hstage : e.finishing = .waited) :
      Step e .producerClose { e with finishing := .closed }

theorem checkAndAdd_cases (h : e.checkAndAdd i = some e') : Step e (.checkAndAdd i) e' := by
  unfold checkAndAdd at h
  split at h
  · next key data hdr hcall =>
      split at h <;> obtain rfl := Option.some.inj h
      · next hdone => exact .reject hcall rfl hdone
      · next hdone => exact .accept hcall rfl (Bool.eq_false_iff.mpr hdone)
  · cases h

theorem handOver_cases {settled : Option (Option String)} (h : e.handOver i settled = some e') :
    Step e (.handOver i settled) e' := by
  unfold handOver at h
  split at h
  · next key data hdr hcall =>
      obtain rfl := Option.some.inj h
      refine .handOver hcall rfl settled _ ?_
      cases settled with
      | none => exact Or.inl rfl
      | some err => exact Or.inr ⟨_, err, rfl⟩
  · cases h

theorem resolve_cases {msg : Option ProducerMessage} {err : Option String}
    (h : e.resolve i msg err = some e') : Step e (.resolve i msg err) e' := by
  unfold resolve at h
  split at h
  · next key data hdr promise hcall =>
      obtain rfl := Option.some.inj h
      exact .resolve hcall rfl msg err
  · cases h

theorem step_cases {action : Action α} (h : e.step action = some e') : Step e action e' := by
  cases action with
  | emitWithHeaders key msg hdr =>
      obtain rfl := Option.some.inj h
      exact .emit key msg hdr
  | checkAndAdd i => exact checkAndAdd_cases h
  | handOver i settled => exact handOver_cases h
  | resolve i msg err => exact resolve_cases h
  | finishClose =>
      obtain ⟨hstage, rfl⟩ := guard_eq_some.mp h
      exact .finishClose hstage
  | finishWait =>
      obtain ⟨⟨hstage, hwg⟩, rfl⟩ := guard_eq_some.mp h
      exact .finishWait hstage hwg
  | producerClose =>
      obtain ⟨hstage, rfl⟩ := guard_eq_some.mp h
      exact .producerClose hstage

/-! ### The promises -/

/-- The promise of a message that was handed over: `emitDone` waits for it or has been called
once. -/
structure Attached (promise : Promise ProducerMessage) : Prop where
  waiting : promise.finished = false → promise.callbacks.length = 1
  invoked : promise.invoked.length = if promise.finished then 1 else 0

theorem attached_andThen {promise : Promise ProducerMessage}
    (h : promise = .new ∨ ∃ msg err, promise = Promise.new.finish msg err) :
    promise.invoked = [] ∧ Attached promise.andThen := by
  rcases h with rfl | ⟨msg, err, rfl⟩
  · exact ⟨rfl, fun _ => rfl, rfl⟩
  · exact ⟨rfl, nofun, rfl⟩

/-- A promise that resolves calls `emitDone` the first time only. -/
theorem Attached.finish {promise : Promise ProducerMessage} (h : Attached promise)
    (msg : Option ProducerMessage) (err : Option String) :
    (promise.finish msg err).finished = true ∧ Attached (promise.finish msg err) := by
  have hinvoked := h.invoked
  cases hfinished : promise.finished with
  | false =>
      have hwaiting := h.waiting hfinished
      rw [Promise.finish_of_open hfinished]
      refine ⟨rfl, nofun, ?_⟩
      rw [hfinished] at hinvoked
      simpa [hwaiting] using hinvoked
  | true =>
      rw [Promise.finish_of_finished hfinished]
      refine ⟨hfinished, fun hopen => ?_, hinvoked⟩
      exact Bool.noConfusion (hfinished.symm.trans hopen)

/-! ### The invariant -/

def Sound : EmitStage → Prop
  | .handed promise => Attached promise
  | .rejected promise => promise = Promise.new.finish none (some errEmitterAlreadyClosed)
  | _ => True

def handedBy (e : Emitter α) (i : Nat) (call : EmitCall) : List (Nat × ProducerMessage) :=
  match call.stage with
  | .handed _ => [(i, e.message call.key call.data call.hdr)]
  | _ => []

structure Inv (e : Emitter α) : Prop where
  counter : e.wg = (e.calls.countP EmitCall.unresolved : Nat)
  sound : ∀ call ∈ e.calls, Sound call.stage
  done : e.finishing ≠ .notCalled → e.done = true
  drained : e.finishing = .waited ∨ e.finishing = .closed → ∀ call ∈ e.calls,
    call.unresolved = false
  handed : ∀ i, (e.handed.filter fun entry => entry.1 = i)
    = (e.calls[i]?.map (e.handedBy i)).getD []

theorem inv_new (codec : Codec α) (topic : String) (defaultHeaders : Headers) :
    Inv (new codec topic defaultHeaders) where
  counter := rfl
  sound := nofun
  done := fun h => absurd rfl h
  drained := nofun
  handed := fun _ => rfl

def weight (stage : EmitStage) : Nat := if stage.unresolved then 1 else 0

/-- One call moves on, and may have handed over `entries`. -/
theorem Inv.move (h : Inv e) (hcall : e.calls[i]? = some call) (call' : EmitCall) {wg : Int}
    (entries : List (Nat × ProducerMessage))
    (hwg : wg + weight call.stage = e.wg + weight call'.stage)
    (hsound : Sound call'.stage)
    (hdrained : e.finishing = .waited ∨ e.finishing = .closed → call'.stage.unresolved = false)
    (hentries : ∀ entry ∈ entries, entry.1 = i)
    (hby : e.handedBy i call' = e.handedBy i call ++ entries) :
    Inv { e with wg := wg, calls := e.calls.set i call', handed := e.handed ++ entries } where
  counter := by
    have hcount : (e.calls.set i call').countP EmitCall.unresolved + weight call.stage
        = e.calls.countP EmitCall.unresolved + weight call'.stage :=
      Threads.countP_set_add EmitCall.unresolved hcall
    have hcounter := h.counter
    dsimp only
    omega
  sound := Threads.forall_mem_set h.sound hsound
  done := h.done
  drained := fun hfinishing => Threads.forall_mem_set (h.drained hfinishing) (hdrained hfinishing)
  handed := by
    intro k
    have hlt : i < e.calls.length := (List.getElem?_eq_some_iff.mp hcall).1
    rw [List.filter_append, h.handed k, List.getElem?_set]
    rcases eq_or_ne i k with rfl | hne
    · have hall : (entries.filter fun entry => entry.1 = i) = entries := by
        apply List.filter_eq_self.mpr
        exact fun entry hentry => decide_eq_true (hentries entry hentry)
      rw [if_pos rfl, if_pos hlt, hall, hcall]
      exact hby.symm
    · have hnone : (entries.filter fun entry => entry.1 = k) = [] := by
        apply List.filter_eq_nil_iff.mpr
        intro entry hentry heq
        exact hne ((hentries entry hentry).symm.trans (of_decide_eq_true heq))
      rw [if_neg hne, hnone, List.append_nil]
      rfl

/-- One call moves on without handing anything over. -/
theorem Inv.move_silent (h : Inv e) (hcall : e.calls[i]? = some call) (call' : EmitCall) {wg : Int}
    (hwg : wg + weight call.stage = e.wg + weight call'.stage) (hsound : Sound call'.stage)
    (hdrained : e.finishing = .waited ∨ e.finishing = .closed → call'.stage.unresolved = false)
    (hby : e.handedBy i call' = e.handedBy i call) :
    Inv { e with wg := wg, calls := e.calls.set i call' } := by
  have hmove := h.move hcall call' [] hwg hsound hdrained (by simp) (by rw [hby, List.append_nil])
  rwa [List.append_nil] at hmove

theorem Attached.weight_add {promise : Promise ProducerMessage} (h : Attached promise) :
    weight (.handed promise) + promise.invoked.length = 1 := by
  rw [h.invoked, weight, EmitStage.unresolved]
  cases promise.finished <;> rfl

/-- A new call has failed to encode its value, or has not come to the lock. -/
theorem emitWithHeaders_eq (e : Emitter α) (key : Bytes) (msg : Option α) (hdr : Headers) :
    ∃ call, e.emitWithHeaders key msg hdr = { e with calls := e.calls ++ [call] } ∧
      (call.stage = .encoded ∨ ∃ err, call.stage = .failed err) := by
  refine ⟨_, rfl, ?_⟩
  dsimp only
  split
  · exact Or.inr ⟨_, rfl⟩
  · exact Or.inl rfl

theorem Inv.append (h : Inv e) (hstage : call.stage = .encoded ∨ ∃ err, call.stage = .failed err) :
    Inv { e with calls := e.calls ++ [call] } := by
  have hresolved : call.unresolved = false := by
    unfold EmitCall.unresolved
    rcases hstage with hstage | ⟨err, hstage⟩ <;> rw [hstage] <;> rfl
  have hsound : Sound call.stage := by
    rcases hstage with hstage | ⟨err, hstage⟩ <;> rw [hstage] <;> exact trivial
  have hby : ∀ i, e.handedBy i call = [] := by
    intro i
    unfold handedBy
    rcases hstage with hstage | ⟨err, hstage⟩ <;> rw [hstage]
  refine ⟨?_, ?_, h.done, fun hfinishing => ?_, fun i => ?_⟩
  · simp [h.counter, hresolved]
  · exact List.forall_mem_append.mpr ⟨h.sound, List.forall_mem_singleton.mpr hsound⟩
  · exact List.forall_mem_append.mpr ⟨h.drained hfinishing, List.forall_mem_singleton.mpr hresolved⟩
  · rw [h.handed i, List.getElem?_append]
    split
    · rfl
    · next hlength =>
        rw [List.getElem?_eq_none_iff.mpr (not_lt.mp hlength), List.getElem?_singleton]
        split
        · exact (hby i).symm
        · rfl

theorem Inv.handOver (h : Inv e) (hcall : e.calls[i]? = some call) (hstage : call.stage = .accepted)
    {promise : Promise ProducerMessage}
    (hpromise : promise = .new ∨ ∃ msg err, promise = Promise.new.finish msg err) :
    Inv ({ e with handed := e.handed ++ [(i, e.message call.key call.data call.hdr)] }.emitDone i
      call.key call.data call.hdr promise promise.andThen) := by
  obtain ⟨hnone, hattached⟩ := attached_andThen hpromise
  apply h.move hcall { call with stage := .handed promise.andThen }
  · have hweight := hattached.weight_add
    have haccepted : weight .accepted = 1 := rfl
    rw [hstage, hnone, List.length_nil]
    dsimp only
    omega
  · exact hattached
  · intro hfinishing
    have hresolved := h.drained hfinishing call (List.mem_of_getElem? hcall)
    rw [EmitCall.unresolved, hstage] at hresolved
    exact Bool.noConfusion hresolved
  · exact List.forall_mem_singleton.mpr rfl
  · rw [handedBy, handedBy, hstage, List.nil_append]

/-- The wait group goes down by one exactly where the promise had not resolved. -/
theorem Inv.resolve {promise : Promise ProducerMessage} (h : Inv e)
    (hcall : e.calls[i]? = some call) (hstage : call.stage = .handed promise)
    (msg : Option ProducerMessage) (err : Option String) :
    Inv (e.emitDone i call.key call.data call.hdr promise (promise.finish msg err)) := by
  have hattached : Attached promise := by
    have hsound := h.sound call (List.mem_of_getElem? hcall)
    rwa [hstage] at hsound
  obtain ⟨hfinished, hattached'⟩ := hattached.finish msg err
  apply h.move_silent hcall { call with stage := .handed (promise.finish msg err) }
  · have hweight := hattached.weight_add
    have hweight' := hattached'.weight_add
    rw [hstage]
    dsimp only
    omega
  · exact hattached'
  · intro _
    rw [EmitStage.unresolved, hfinished, Bool.not_true]
  · rw [handedBy, handedBy, hstage]

/-- The wait group stands at the number of unresolved calls through every step. -/
theorem inv_step {action : Action α} (h : Inv e) (hstep : e.step action = some e') : Inv e' := by
  cases step_cases hstep with
  | emit key msg hdr =>
      obtain ⟨call, heq, hstage⟩ := e.emitWithHeaders_eq key msg hdr
      rw [heq]
      exact h.append hstage
  | reject hcall hstage hdone =>
      apply h.move_silent hcall
      · rw [hstage]
        rfl
      · exact rfl
      · exact fun _ => rfl
      · rw [handedBy, handedBy, hstage]
  | accept hcall hstage hdone =>
      apply h.move_silent hcall
      · rw [hstage]
        exact add_zero _
      · exact trivial
      · -- `Finish` has not been called, for the lock was free and `done` open
        intro hfinishing
        have hcalled : e.finishing ≠ .notCalled := by rcases hfinishing with hf | hf <;> rw [hf] <;>
          decide
        exact absurd (hdone.symm.trans (h.done hcalled)) Bool.false_ne_true
      · rw [handedBy, handedBy, hstage]
  | handOver hcall hstage settled promise hpromise => exact h.handOver hcall hstage hpromise
  | resolve hcall hstage msg err => exact h.resolve hcall hstage msg err
  | finishClose hstage =>
      exact ⟨h.counter, h.sound, fun _ => rfl, fun hfinishing => by simp at hfinishing, h.handed⟩
  | finishWait hstage hwg =>
      refine ⟨h.counter, h.sound, fun _ => h.done (by rw [hstage]; decide), fun _ => ?_, h.handed⟩
      have hzero : e.calls.countP EmitCall.unresolved = 0 := by
        have hcounter := h.counter
        omega
      intro call hcall
      exact Bool.eq_false_iff.mpr (List.countP_eq_zero.mp hzero call hcall)
  | producerClose hstage =>
      refine ⟨h.counter, h.sound, fun _ => h.done (by rw [hstage]; decide), fun _ => ?_, h.handed⟩
      exact h.drained (Or.inl hstage)

/-! ### Shutdown -/

/-- The call has returned: its message was handed to the producer once, or its promise is settled
with the error of a closed emitter and nothing was handed over. -/
def Delivered (e : Emitter α) (i : Nat) : Prop :=
  ∃ call, e.calls[i]? = some call ∧
    ((∃ promise, call.stage = .handed promise ∧
        (e.handed.filter fun entry => entry.1 = i) = [(i, e.message call.key call.data call.hdr)]) ∨
      ∃ promise, call.stage = .rejected promise ∧ promise.finished = true ∧ promise.msg = none ∧
        promise.err = some errEmitterAlreadyClosed ∧
        (e.handed.filter fun entry => entry.1 = i) = [])

theorem inv_run (h : Inv e) (actions : List (Action α)) : Inv (run step e actions) :=
  run_invariant (fun _ _ _ h hstep => inv_step h hstep) h actions

theorem handed_of_closed {action : Action α} (h : Inv e) (hclosed : e.finishing = .closed)
    (hstep : e.step action = some e') : e'.handed = e.handed := by
  cases step_cases hstep with
  | emit key msg hdr =>
      obtain ⟨call, heq, -⟩ := e.emitWithHeaders_eq key msg hdr
      rw [heq]
  | handOver hcall hstage settled promise hpromise =>
      have hresolved := h.drained (Or.inr hclosed) _ (List.mem_of_getElem? hcall)
      rw [EmitCall.unresolved, hstage] at hresolved
      exact Bool.noConfusion hresolved
  | _ => rfl

def Returned (call : EmitCall) : Prop :=
  (∃ promise, call.stage = .handed promise) ∨ ∃ promise, call.stage = .rejected promise

theorem Inv.delivered (h : Inv e) (hcall : e.calls[i]? = some call) (hreturned : Returned call) :
    Delivered e i := by
  have hhanded := h.handed i
  rw [hcall, Option.map_some, Option.getD_some] at hhanded
  refine ⟨call, hcall, ?_⟩
  rcases hreturned with ⟨promise, hstage⟩ | ⟨promise, hstage⟩
  · rw [handedBy, hstage] at hhanded
    exact Or.inl ⟨promise, hstage, hhanded⟩
  · have hsound := h.sound call (List.mem_of_getElem? hcall)
    rw [hstage] at hsound
    rw [handedBy, hstage] at hhanded
    obtain rfl : promise = _ := hsound
    exact Or.inr ⟨_, hstage, rfl, rfl, rfl, hhanded⟩

/-- A call that could encode its value is accepted or refused. -/
theorem next_checkAndAdd (hcall : e.calls[i]? = some call)
    (hencoded : ∀ err, call.stage ≠ .failed err) :
    ∃ call', (next step e (.checkAndAdd i)).calls[i]? = some call' ∧
      (call'.stage = .accepted ∨ Returned call') := by
  have hlt : i < e.calls.length := (List.getElem?_eq_some_iff.mp hcall).1
  obtain ⟨key, data, hdr, stage⟩ := call
  cases stage with
  | failed err => exact absurd rfl (hencoded err)
  | encoded =>
      cases hdone : e.done with
      | true =>
          let promise : Promise ProducerMessage :=
            Promise.new.finish none (some errEmitterAlreadyClosed)
          refine ⟨⟨key, data, hdr, .rejected promise⟩, ?_, Or.inr (Or.inr ⟨promise, rfl⟩)⟩
          simp only [next, step, checkAndAdd, hcall, hdone, if_true, Option.getD_some, promise]
          exact List.getElem?_set_self hlt
      | false =>
          refine ⟨⟨key, data, hdr, .accepted⟩, ?_, Or.inl rfl⟩
          simp only [next, step, checkAndAdd, hcall, hdone, Bool.false_eq_true, if_false,
            Option.getD_some]
          exact List.getElem?_set_self hlt
  | accepted =>
      rw [next_of_none (by simp only [step, checkAndAdd, hcall])]
      exact ⟨_, hcall, Or.inl rfl⟩
  | handed promise =>
      rw [next_of_none (by simp only [step, checkAndAdd, hcall])]
      exact ⟨_, hcall, Or.inr (Or.inl ⟨promise, rfl⟩)⟩
  | rejected promise =>
      rw [next_of_none (by simp only [step, checkAndAdd, hcall])]
      exact ⟨_, hcall, Or.inr (Or.inr ⟨promise, rfl⟩)⟩

theorem next_handOver (hcall : e.calls[i]? = some call) (h : call.stage = .accepted ∨ Returned call)
    (settled : Option (Option String)) :
    ∃ call', (next step e (.handOver i settled)).calls[i]? = some call' ∧ Returned call' := by
  have hlt : i < e.calls.length := (List.getElem?_eq_some_iff.mp hcall).1
  obtain ⟨key, data, hdr, stage⟩ := call
  rcases h with rfl | ⟨promise, rfl⟩ | ⟨promise, rfl⟩
  · obtain ⟨promise, hset⟩ : ∃ promise, (next step e (.handOver i settled)).calls[i]?
        = some ⟨key, data, hdr, .handed promise⟩ := by
      simp only [next, step, handOver, emitDone, hcall, Option.getD_some]
      exact ⟨_, List.getElem?_set_self hlt⟩
    exact ⟨_, hset, Or.inl ⟨promise, rfl⟩⟩
  · rw [next_of_none (by simp only [step, handOver, hcall])]
    exact ⟨_, hcall, Or.inl ⟨promise, rfl⟩⟩
  · rw [next_of_none (by simp only [step, handOver, hcall])]
    exact ⟨_, hcall, Or.inr ⟨promise, rfl⟩⟩

/-- A call that has its value encoded returns after its own next steps. -/
theorem Inv.returns (h : Inv e) (hcall : e.calls[i]? = some call)
    (hencoded : ∀ err, call.stage ≠ .failed err) (settled : Option (Option String)) :
    Delivered (run step e [.checkAndAdd i, .handOver i settled]) i := by
  obtain ⟨checked, hchecked, hstage⟩ := next_checkAndAdd hcall hencoded
  obtain ⟨last, hlast, hreturned⟩ := next_handOver hchecked hstage settled
  exact (inv_run h [.checkAndAdd i, .handOver i settled]).delivered hlast hreturned

/-! ### What a call carries -/

def encoded (codec : Codec α) (msg : Option α) : Option Bytes × Option String :=
  if msg.isSome then codec.encode msg else (none, none)

/-- The call is one of `EmitWithHeaders` with these arguments, and has failed only where the value
could not be encoded. -/
structure Carries (codec : Codec α) (key : Bytes) (msg : Option α) (hdr : Headers)
    (call : EmitCall) : Prop where
  key : call.key = key
  data : call.data = (encoded codec msg).1
  hdr : call.hdr = hdr
  failed : (∃ err, call.stage = .failed err) ↔ (encoded codec msg).2.isSome = true

structure Fixed (codec : Codec α) (topic : String) (defaultHeaders : Headers) (e : Emitter α) :
    Prop where
  codec : e.codec = codec
  topic : e.topic = topic
  defaultHeaders : e.defaultHeaders = defaultHeaders

section Carries

variable {codec : Codec α} {topic : String} {defaultHeaders : Headers} {key : Bytes}
  {msg : Option α} {hdr : Headers}

theorem fixed_step {action : Action α} (h : Fixed codec topic defaultHeaders e)
    (hstep : e.step action = some e') : Fixed codec topic defaultHeaders e' := by
  cases step_cases hstep with
  | _ => exact ⟨h.codec, h.topic, h.defaultHeaders⟩

/-- The new call stands behind all others. -/
theorem carries_emit (h : Fixed codec topic defaultHeaders e) :
    ∃ call, (e.emitWithHeaders key msg hdr).calls[e.calls.length]? = some call ∧
      Carries codec key msg hdr call := by
  obtain rfl := h.codec
  cases msg with
  | none =>
      refine ⟨⟨key, none, hdr, .encoded⟩, List.getElem?_concat_length, rfl, rfl, rfl, ?_⟩
      simp [encoded]
  | some value =>
      obtain ⟨data, err, hencode⟩ : ∃ data err, e.codec.encode (some value) = (data, err) :=
        ⟨_, _, rfl⟩
      have hencoded : encoded e.codec (some value) = (data, err) := hencode
      cases err with
      | none =>
          refine ⟨⟨key, data, hdr, .encoded⟩, ?_, rfl, ?_, rfl, ?_⟩
          · simp [emitWithHeaders, hencode]
          · rw [hencoded]
          · simp [hencoded]
      | some err =>
          refine ⟨⟨key, data, hdr, .failed ("Error encoding value for key " ++ key.text ++
            " in topic " ++ e.topic ++ ": " ++ err)⟩, ?_, rfl, ?_, rfl, ?_⟩
          · simp [emitWithHeaders, hencode]
          · rw [hencoded]
          · simp [hencoded]

/-- A call that goes on keeps what it carries. -/
theorem Carries.goes_on {stage : EmitStage} (h : Carries codec key msg hdr call)
    (hbefore : ∀ err, call.stage ≠ .failed err) (hafter : ∀ err, stage ≠ .failed err) :
    Carries codec key msg hdr { call with stage := stage } := by
  refine ⟨h.key, h.data, h.hdr, ?_⟩
  rw [← h.failed]
  exact iff_of_false (fun ⟨err, hfailed⟩ => hafter err hfailed)
    fun ⟨err, hfailed⟩ => hbefore err hfailed

theorem carries_set {j : Nat} {other : EmitCall} {stage : EmitStage}
    (h : ∃ call, e.calls[i]? = some call ∧ Carries codec key msg hdr call)
    (hother : e.calls[j]? = some other) (hbefore : ∀ err, other.stage ≠ .failed err)
    (hafter : ∀ err, stage ≠ .failed err) :
    ∃ call, (e.calls.set j { other with stage := stage })[i]? = some call ∧
      Carries codec key msg hdr call := by
  obtain ⟨call, hcall, hcarries⟩ := h
  rcases eq_or_ne j i with rfl | hne
  · obtain rfl := Option.some.inj (hother.symm.trans hcall)
    have hlt := (List.getElem?_eq_some_iff.mp hcall).1
    exact ⟨_, List.getElem?_set_self hlt, hcarries.goes_on hbefore hafter⟩
  · exact ⟨call, (List.getElem?_set_ne hne).trans hcall, hcarries⟩

/-- No step changes what an earlier call is about. -/
theorem carries_step {action : Action α}
    (h : ∃ call, e.calls[i]? = some call ∧ Carries codec key msg hdr call)
    (hstep : e.step action = some e') :
    ∃ call, e'.calls[i]? = some call ∧ Carries codec key msg hdr call := by
  cases step_cases hstep with
  | emit =>
      obtain ⟨call, hcall, hcarries⟩ := h
      have hlt := (List.getElem?_eq_some_iff.mp hcall).1
      exact ⟨call, (List.getElem?_append_left hlt).trans hcall, hcarries⟩
  | reject hother hstage | accept hother hstage | handOver hother hstage | resolve hother hstage =>
      refine carries_set h hother (fun err => ?_) fun _ => EmitStage.noConfusion
      rw [hstage]
      exact EmitStage.noConfusion
  | finishClose | finishWait | producerClose => exact h

end Carries

/-- However the calls of the emitter and of its producer interleave: a call carries what it was made
with, the wait group stands at the calls that are unresolved and is waited for before the producer
is closed, nothing is handed over after that, and a call that could encode its value ends with its
message handed over once or with the error of a closed emitter. -/
theorem shutdown_clean (codec : Codec α) (topic : String) (defaultHeaders : Headers)
    (actions : List (Action α)) :
    (∀ t ∈ transitions step (new codec topic defaultHeaders) actions,
      (t.1.finishing = .closed → t.2.2.handed = t.1.handed) ∧
      (t.2.1 = .producerClose → ∀ call ∈ t.1.calls, call.unresolved = false) ∧
      ∀ key msg hdr, t.2.1 = .emitWithHeaders key msg hdr →
        ∃ call, (run step (new codec topic defaultHeaders) actions).calls[t.1.calls.length]?
            = some call ∧
          Carries codec key msg hdr call) ∧
    Fixed codec topic defaultHeaders (run step (new codec topic defaultHeaders) actions) ∧
    (run step (new codec topic defaultHeaders) actions).wg
      = ((run step (new codec topic defaultHeaders) actions).calls.countP EmitCall.unresolved :
        Nat) ∧
    ∀ i call, (run step (new codec topic defaultHeaders) actions).calls[i]? = some call →
      (∀ err, call.stage ≠ .failed err) → ∀ settled,
        Delivered (run step (run step (new codec topic defaultHeaders) actions)
          [.checkAndAdd i, .handOver i settled]) i := by
  have hnew := inv_new codec topic defaultHeaders
  have hinv := inv_run hnew actions
  have hfixed : Fixed codec topic defaultHeaders (new codec topic defaultHeaders) := ⟨rfl, rfl, rfl⟩
  refine ⟨fun t ht => ?_, run_invariant (fun _ _ _ h hstep => fixed_step h hstep) hfixed actions,
    hinv.counter, fun i call hcall hencoded => hinv.returns hcall hencoded⟩
  obtain ⟨hbefore, hstep⟩ := transitions_invariant (fun _ _ _ h hstep => inv_step h hstep) hnew t ht
  refine ⟨fun hclosed => handed_of_closed hbefore hclosed hstep, fun haction => ?_,
    fun key msg hdr haction => ?_⟩
  · rw [haction] at hstep
    obtain ⟨hwaited, -⟩ := Option.ite_none_right_eq_some.mp hstep
    exact hbefore.drained (Or.inl hwaited)
  · obtain ⟨hfixed, -⟩ :=
      transitions_invariant (fun _ _ _ h hstep => fixed_step h hstep) hfixed t ht
    refine run_of_mem_transitions (fun _ _ _ h hstep => carries_step h hstep) ht ?_
    rw [haction] at hstep
    rw [← Option.some.inj hstep]
    exact carries_emit hfixed

end Emitter

end Goka

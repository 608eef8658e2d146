import Goka.Context
import Goka.Promise

/-!
# The emitter

Many goroutines call `EmitWithHeaders` while one calls `Finish`. A call encodes its value, checks
under the lock whether the emitter is done and adds itself to the wait group, hands its message to
the producer and returns the producer's promise; the promise is finished at any time after that, by
the producer. Calls are numbered in the order in which they began. The producer may have finished
the promise before `emitDone` is chained to it.
-/

namespace Goka

structure ProducerMessage where
  topic : String
  key : Bytes
  value : Option Bytes
  headers : Headers

/-- How far a call of `EmitWithHeaders` has come. -/
inductive EmitStage where
  | failed (err : String)
  | encoded
  | accepted
  | handed (promise : Promise ProducerMessage)
  | rejected (promise : Promise ProducerMessage)

structure EmitCall where
  key : Bytes
  data : Option Bytes
  hdr : Headers
  stage : EmitStage

/-- How far the call of `Finish` has come. -/
inductive FinishStage where
  | notCalled
  | waiting
  | waited
  | closed
  deriving Repr, DecidableEq

structure Emitter (α : Type) where
  codec : Codec α
  topic : String
  defaultHeaders : Headers
  wg : Int
  done : Bool
  calls : List EmitCall
  finishing : FinishStage
  -- what the producer was handed, with the number of the call
  handed : List (Nat × ProducerMessage)

namespace Emitter

def errEmitterAlreadyClosed : String := "emitter already closed"

variable {α : Type}

def new (codec : Codec α) (topic : String) (defaultHeaders : Headers) : Emitter α where
  codec := codec
  topic := topic
  defaultHeaders := defaultHeaders
  wg := 0
  done := false
  calls := []
  finishing := .notCalled
  handed := []

variable (e : Emitter α)

/-- `EmitWithHeaders` up to the lock; `Emit` passes nil headers. -/
def emitWithHeaders (key : Bytes) (msg : Option α) (hdr : Headers) : Emitter α :=
  let (data, err) := if msg.isSome then e.codec.encode msg else (none, none)
  let stage :=
    match err with
    | some err =>
        .failed ("Error encoding value for key " ++ key.text ++ " in topic " ++ e.topic ++ ": " ++
          err)
    | none => .encoded
  { e with calls := e.calls ++ [{ key := key, data := data, hdr := hdr, stage := stage }] }

/-- The part under the lock. -/
def checkAndAdd (i : Nat) : Option (Emitter α) :=
  match e.calls[i]? with
  | some ⟨key, data, hdr, .encoded⟩ =>
      if e.done then
        let promise := Promise.new.finish none (some errEmitterAlreadyClosed)
        some { e with calls := e.calls.set i ⟨key, data, hdr, .rejected promise⟩ }
      else
        some { e with wg := e.wg + 1, calls := e.calls.set i ⟨key, data, hdr, .accepted⟩ }
  | _ => none

/-- The message as `Emit` or `EmitWithHeaders` of the producer makes it. -/
def message (key : Bytes) (data : Option Bytes) (hdr : Headers) : ProducerMessage where
  topic := e.topic
  key := key
  value := data
  headers := if hdr = none ∧ e.defaultHeaders = none then none else e.defaultHeaders.merged hdr

/-- Stores a promise, `emitDone` having been called by it as often as its list of invocations has
grown. -/
def emitDone (i : Nat) (key : Bytes) (data : Option Bytes) (hdr : Headers)
    (before promise : Promise ProducerMessage) : Emitter α :=
  { e with
    wg := e.wg - ((promise.invoked.length : Int) - before.invoked.length)
    calls := e.calls.set i ⟨key, data, hdr, .handed promise⟩ }

/-- Hands the message over and chains `emitDone` to the promise, which may be finished already. -/
def handOver (i : Nat) (settled : Option (Option String)) : Option (Emitter α) :=
  match e.calls[i]? with
  | some ⟨key, data, hdr, .accepted⟩ =>
      let message := e.message key data hdr
      let promise :=
        match settled with
        | none => Promise.new
        | some err => Promise.new.finish (some message) err
      let e := { e with handed := e.handed ++ [(i, message)] }
      some (e.emitDone i key data hdr promise promise.andThen)
  | _ => none

/-- The producer finishes the promise of a message. -/
def resolve (i : Nat) (msg : Option ProducerMessage) (err : Option String) : Option (Emitter α) :=
  match e.calls[i]? with
  | some ⟨key, data, hdr, .handed promise⟩ =>
      some (e.emitDone i key data hdr promise (promise.finish msg err))
  | _ => none

def finishClose : Option (Emitter α) :=
  if e.finishing = .notCalled then some { e with done := true, finishing := .waiting } else none

def finishWait : Option (Emitter α) :=
  if e.finishing = .waiting ∧ e.wg = 0 then some { e with finishing := .waited } else none

def producerClose : Option (Emitter α) :=
  if e.finishing = .waited then some { e with finishing := .closed } else none

inductive Action (α : Type) where
  | emitWithHeaders (key : Bytes) (msg : Option α) (hdr : Headers)
  | checkAndAdd (i : Nat)
  | handOver (i : Nat) (settled : Option (Option String))
  | resolve (i : Nat) (msg : Option ProducerMessage) (err : Option String)
  | finishClose
  | finishWait
  | producerClose

def step : Action α → Option (Emitter α)
  | .emitWithHeaders key msg hdr => some (e.emitWithHeaders key msg hdr)
  | .checkAndAdd i => e.checkAndAdd i
  | .handOver i settled => e.handOver i settled
  | .resolve i msg err => e.resolve i msg err
  | .finishClose => e.finishClose
  | .finishWait => e.finishWait
  | .producerClose => e.producerClose

end Emitter

end Goka

import Goka.Context

/-!
# The partition processor

`run` takes messages from its input one after the other and processes them in its goroutine: it
decodes a message, calls the callback on a new context and finishes the context. Meanwhile other
goroutines resolve the promises of all messages taken so far, which is where most commits happen,
and the processor's context may be cancelled. What a callback does is left open: any sequence of
calls into its context that ends by returning or by a panic.
-/

namespace Goka

inductive NilHandling where
  | ignore
  | process
  | decode
  deriving DecidableEq

def GroupGraph.inputTopics {C Callback : Type} (gg : GroupGraph C Callback) : List String :=
  gg.inputStreams.map (fun e => e.name) ++ gg.theLoopStream.toList.map fun e => e.name

def GroupGraph.topicCallbacks {C Callback : Type} (gg : GroupGraph C Callback) (topic : String) :
    Option Callback :=
  if topic ∈ gg.inputTopics then gg.callback topic else none

structure Config (α Callback : Type) extends Env α Callback where
  nilHandling : NilHandling

/-- What `processMessage` decides before it calls the callback. -/
inductive Prepared (α Callback : Type) where
  | ignored
  | failed (err : String)
  | call (cb : Callback) (m : Option α)

section Prepare

variable {α Callback : Type} (cfg : Config α Callback)

def selectCallback (msg : Message) (m : Option α) : Prepared α Callback :=
  match cfg.graph.topicCallbacks msg.topic with
  | none =>
      .failed ("error processing message for key " ++ Bytes.text msg.key ++ " from " ++ msg.topic ++
        "/" ++ toString msg.partition ++ ": <nil>")
  | some cb => .call cb m

/-- `processMessage` up to `start`. -/
def prepareMessage (msg : Message) : Prepared α Callback :=
  match msg.value, cfg.nilHandling with
  | none, .ignore => .ignored
  | none, .process => selectCallback cfg msg none
  | value, _ =>
      match cfg.graph.codec msg.topic with
      | none => .failed ("cannot handle topic " ++ msg.topic)
      | some codec =>
          match codec.decode value with
          | (_, some err) =>
              .failed ("error decoding message for key " ++ Bytes.text msg.key ++ " from " ++
                msg.topic ++ "/" ++ toString msg.partition ++ ": " ++ err)
          | (m, none) => selectCallback cfg msg m

end Prepare

inductive RunPc where
  | selecting
  | callback
  | exited
  deriving DecidableEq

structure PartitionProcessor (σ : Type) where
  input : List Message
  -- the contexts of the messages taken from the input, in order
  taken : List CbContext
  pc : RunPc
  table : Option σ
  emitted : List Emission
  cancelled : Bool
  rerr : Option String
  errs : List String
  asyncErrs : Bool
  -- the offset from which the consumer session resumes
  marked : Int

namespace PartitionProcessor

variable {α Callback σ : Type} (cfg : Config α Callback) (pp : PartitionProcessor σ)

inductive Action (α : Type) where
  | take
  | inputClosed
  | contextDone
  | asyncErrs
  | op (o : ContextOp α) (recovers : Bool)
  | panics (err : String)
  | returns
  | resolve (message index : Nat) (offset : Option Int) (err : Option String)
  | cancel

def start (input : List Message) (table : Option σ) (marked : Int) : PartitionProcessor σ where
  input := input
  taken := []
  pc := .selecting
  table := table
  emitted := []
  cancelled := false
  rerr := none
  errs := []
  asyncErrs := false
  marked := marked

/-- The two closures that a context is given. `commit` marks the message in the session. -/
def call (msg : Message) : Verdict → PartitionProcessor σ
  | .commit => { pp with marked := max pp.marked (msg.offset + 1) }
  | .asyncFail errors =>
      { pp with errs := pp.errs ++ (nilOrError errors).toList, asyncErrs := true }

/-- A context has moved on, and the calls it has made take effect. -/
def update (index : Nat) (ctx ctx' : CbContext) : PartitionProcessor σ :=
  (ctx'.calls.drop ctx.calls.length).foldl (fun pp verdict => pp.call ctx.msg verdict)
    { pp with taken := pp.taken.set index ctx' }

def current : Option CbContext := pp.taken.getLast?

def opState (ctx : CbContext) : OpState σ where
  ctx := ctx
  table := pp.table
  emitted := pp.emitted
  cancelled := pp.cancelled
  rerr := pp.rerr
  failing := false

/-- `run` receives a message and `processMessage` is entered. -/
def take : Option (PartitionProcessor σ) :=
  if pp.pc = .selecting then
    match pp.input with
    | [] => none
    | msg :: input =>
        match prepareMessage cfg msg with
        | .ignored =>
            let ctx := { CbContext.new msg with calls := [.commit] }
            some ({ pp with input := input, taken := pp.taken ++ [ctx] }.call msg .commit)
        | .failed err =>
            some { pp with
              input := input
              taken := pp.taken ++ [.new msg]
              pc := .exited
              rerr := some ("error processing message: from " ++
                Bytes.text (msg.value.getD []) ++ " " ++ err) }
        | .call _ _ =>
            some { pp with input := input, taken := pp.taken ++ [.new msg], pc := .callback }
  else
    none

def exit (ready : Bool) : Option (PartitionProcessor σ) :=
  if pp.pc = .selecting ∧ ready then some { pp with pc := .exited } else none

section Callback

variable [TableStore σ]

/-- The callback calls into its context. A panic ends the callback and `run` unless the callback
recovers from it. -/
def op (o : ContextOp α) (recovers : Bool) : Option (PartitionProcessor σ) :=
  match pp.pc, pp.current with
  | .callback, some ctx =>
      let (panicked, s) := (pp.opState ctx).perform cfg.toEnv o
      let pp := { pp with
        taken := pp.taken.set (pp.taken.length - 1) s.ctx
        table := s.table
        emitted := s.emitted
        rerr := s.rerr }
      match panicked with
      | none => some pp
      | some err =>
          if recovers then some pp else some { pp with pc := .exited, rerr := some err }
  | _, _ => none

def panics (err : String) : Option (PartitionProcessor σ) :=
  match pp.pc, pp.current with
  | .callback, some ctx =>
      some { pp with
        taken := pp.taken.set (pp.taken.length - 1) { ctx with failed := true }
        pc := .exited
        rerr := some err }
  | _, _ => none

def returns : Option (PartitionProcessor σ) :=
  match pp.pc, pp.current with
  | .callback, some ctx =>
      some ({ pp with pc := .selecting }.update (pp.taken.length - 1) ctx (ctx.finish none))
  | _, _ => none

def resolve (message index : Nat) (offset : Option Int) (err : Option String) :
    Option (PartitionProcessor σ) :=
  match pp.taken[message]? with
  | none => none
  | some ctx =>
      (ctx.resolve pp.table index offset err).map fun (ctx', table) =>
        { pp with table := table }.update message ctx ctx'

def step : Action α → Option (PartitionProcessor σ)
  | .take => pp.take cfg
  | .inputClosed => { pp with rerr := none }.exit pp.input.isEmpty
  | .contextDone => pp.exit pp.cancelled
  | .asyncErrs => pp.exit pp.asyncErrs
  | .op o recovers => pp.op cfg o recovers
  | .panics err => pp.panics err
  | .returns => pp.returns
  | .resolve message index offset err => pp.resolve message index offset err
  | .cancel => some { pp with cancelled := true }

end Callback

end PartitionProcessor

end Goka

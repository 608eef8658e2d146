import Goka.Graph
import Goka.PartitionTable

/-!
# The context of a callback

One `cbContext` belongs to one message. The callback works on it, and what it emits comes back as
promises that other goroutines resolve, before or after the callback returns. The context counts
what it has handed out and what has come back, and decides once whether the message is committed.

An operation of the context runs in the callback's goroutine. It can panic, and what it has done up
to there stays done, so operations are programs of a state monad with panics on top. `Fail` panics
only as long as the processor is not already shutting down, which is why the operations have code
behind their `Fail` calls that can be reached.
-/

namespace Goka

/-- Both directions return a value next to the error. -/
structure Codec (α : Type) where
  encode : Option α → Option Bytes × Option String
  decode : Option Bytes → Option α × Option String

/-! ### Headers -/

/-- A nil map is `none`. -/
abbrev Headers := Option (GoMap String Bytes)

namespace Headers

def copyInto (target : GoMap String Bytes) (h : Headers) : GoMap String Bytes :=
  match h with
  | none => target
  | some h => h.entries.foldl (fun target entry => target.insert entry.1 entry.2) target

def merged (h headers : Headers) : Headers :=
  let merged := copyInto (copyInto ∅ h) headers
  if merged.entries = [] then none else some merged

/-- The headers that a list of `WithCtxEmitHeaders` options leaves. -/
def ofOptions (options : List Headers) : Headers :=
  options.foldl (fun emitHeaders hdr => some (copyInto (emitHeaders.getD ∅) hdr)) none

end Headers

structure Message where
  topic : String
  partition : Nat
  offset : Int
  key : Bytes
  value : Option Bytes
  deriving DecidableEq

/-! ### The group table as a context sees it -/

class TableStore (σ : Type) where
  get : σ → Bytes → Except String (Option Bytes)
  set : σ → Bytes → Option Bytes → Option String × σ
  delete : σ → Bytes → Option String × σ
  getOffset : σ → Int → Except String Int
  setOffset : σ → Int → Option String × σ

def storeNewestOffset {σ : Type} [TableStore σ] (table : σ) (newOffset : Int) :
    Option String × σ :=
  match TableStore.getOffset table offsetNotStored with
  | .error err => (some err, table)
  | .ok oldOffset =>
      if offsetNotStored ≠ oldOffset ∧ oldOffset ≤ newOffset then
        TableStore.setOffset table newOffset
      else
        (none, table)

/-! ### The completion of a message -/

/-- What a context waits for: the promise of an `Emit` or `Loopback`, of a `SetValue` or of a
`Delete`, or the function returned by `DeferCommit`. -/
inductive Handout where
  | emit (topic : String)
  | setValue
  | delete
  | deferred
  deriving DecidableEq

/-- How a handout came back: the error it carried and the error that was passed on to `emitDone`. -/
structure Resolution where
  carried : Option String
  passed : Option String
  deriving DecidableEq

structure Item where
  handout : Handout
  resolution : Option Resolution
  deriving DecidableEq

/-- A call into the processor at the end of a message. -/
inductive Verdict where
  | commit
  | asyncFail (errors : List String)
  deriving DecidableEq

structure CbContext where
  msg : Message
  done : Bool
  emits : Nat
  dones : Nat
  stores : Nat
  errors : List String
  -- what was handed out, in order
  items : List Item
  -- the calls of `commit` and `asyncFailer` so far
  calls : List Verdict
  -- the number of calls of `wg.Done`
  marks : Nat
  -- an operation has called `Fail` or the callback has panicked
  failed : Bool

namespace CbContext

def new (msg : Message) : CbContext where
  msg := msg
  done := false
  emits := 0
  dones := 0
  stores := 0
  errors := []
  items := []
  calls := []
  marks := 0
  failed := false

variable (ctx : CbContext)

def markDone : CbContext := { ctx with marks := ctx.marks + 1 }

def tryCommit (err : Option String) : CbContext :=
  let ctx := { ctx with errors := ctx.errors ++ err.toList }
  if ctx.done = false ∨ ctx.emits > ctx.dones then
    ctx
  else if ctx.errors ≠ [] then
    markDone { ctx with calls := ctx.calls ++ [.asyncFail ctx.errors] }
  else
    markDone { ctx with calls := ctx.calls ++ [.commit] }

def emitDone (err : Option String) : CbContext :=
  { ctx with dones := ctx.dones + 1 }.tryCommit err

def finish (err : Option String) : CbContext :=
  { ctx with done := true }.tryCommit err

def handOut (handout : Handout) : CbContext :=
  { ctx with emits := ctx.emits + 1, items := ctx.items ++ [⟨handout, none⟩] }

/-- What the callback of a promise makes of the promise's message and error before it calls
`emitDone`: the error it passes on and the table. -/
def passOn {σ : Type} [TableStore σ] (table : Option σ) (handout : Handout) (offset : Option Int)
    (err : Option String) : Option String × Option σ :=
  match handout with
  | .emit topic => (err.map fun err => "error emitting to " ++ topic ++ ": " ++ err, table)
  | .setValue =>
      match err, offset, table with
      | none, some offset, some table =>
          let (err, table) := storeNewestOffset table offset
          (err, some table)
      | _, _, _ => (err, table)
  | .delete | .deferred => (err, table)

/-- Finishes a promise, or calls the function of a `DeferCommit`, with the message's offset and an
error. Only the first time has an effect. -/
def resolve {σ : Type} [TableStore σ] (table : Option σ) (index : Nat) (offset : Option Int)
    (err : Option String) : Option (CbContext × Option σ) :=
  match ctx.items[index]? with
  | none => none
  | some ⟨_, some _⟩ => some (ctx, table)
  | some ⟨handout, none⟩ =>
      let (passed, table) := passOn table handout offset err
      let items := ctx.items.set index ⟨handout, some ⟨err, passed⟩⟩
      some ({ ctx with items := items }.emitDone passed, table)

end CbContext

/-! ### The operations of the context -/

/-- What is handed to the producer; whether the operation had called `Fail` before is a ghost. -/
structure Emission where
  topic : String
  key : Bytes
  value : Option Bytes
  headers : Headers
  afterFail : Bool

structure OpState (σ : Type) where
  ctx : CbContext
  table : Option σ
  emitted : List Emission
  -- the context of the processor is done
  cancelled : Bool
  -- the named result of `run`
  rerr : Option String
  -- the operation has called `Fail`
  failing : Bool

/-- An operation: the error is a panic. -/
abbrev Op (σ α : Type) := ExceptT String (StateM (OpState σ)) α

/-- What an operation reads. `pviews` are the copartitioned tables, `views` the lookup tables. -/
structure Env (α Callback : Type) where
  graph : GroupGraph (Codec α) Callback
  emitterDefaultHeaders : Headers
  pviews : Option (String → Option (Bytes → Except String (Option Bytes)))
  views : Option (String → Option (Bytes → Except String (Option α)))

namespace Op

variable {α Callback σ : Type} (env : Env α Callback)

def nilDereference {β : Type} : Op σ β :=
  throw "runtime error: invalid memory address or nil pointer dereference"

/-- `Fail`, which is the processor's `syncFailer`. -/
def fail (err : String) : Op σ Unit := do
  modify fun s => { s with failing := true }
  if (← get).cancelled then
    modify fun s => { s with rerr := some err }
  else
    throw err

def failOn (err : Option String) : Op σ Unit :=
  match err with
  | none => pure ()
  | some err => fail err

def handOver (handout : Handout) (topic : String) (key : Bytes) (value : Option Bytes)
    (headers : Headers) : Op σ Unit :=
  modify fun s => { s with
    ctx := s.ctx.handOut handout
    emitted := s.emitted ++ [⟨topic, key, value, headers, s.failing⟩] }

def emitMessage (topic : String) (key : Bytes) (value : Option Bytes) (hdr : Headers) : Op σ Unit :=
  handOver (.emit topic) topic key value (env.emitterDefaultHeaders.merged hdr)

def emit (topic : String) (key : Bytes) (value : Option α) (options : List Headers) :
    Op σ Unit := do
  if topic = "" then
    fail "cannot emit to empty topic"
  if loopName env.graph.group = topic then
    fail "cannot emit to loop topic (use Loopback instead)"
  if tableName env.graph.group = topic then
    fail "cannot emit to table topic (use SetValue instead)"
  if env.graph.isOutputTopic topic = false then
    fail ("topic " ++ topic ++ " is not configured for output. Did you specify goka.Output(..) " ++
      "when defining the processor?")
  if (env.graph.codec topic).isNone then
    fail ("no codec for topic " ++ topic)
  match value with
  | none => emitMessage env topic key none (.ofOptions options)
  | some value =>
      match env.graph.codec topic with
      | none => nilDereference
      | some c =>
          let (data, err) := c.encode (some value)
          failOn (err.map fun err => "error encoding message for topic " ++ topic ++ ": " ++ err)
          emitMessage env topic key data (.ofOptions options)

def loopback (key : Bytes) (value : Option α) (options : List Headers) : Op σ Unit := do
  if env.graph.theLoopStream.isNone then
    fail "no loop topic configured"
  match env.graph.theLoopStream with
  | none => nilDereference
  | some l =>
      match l.codec with
      | none => nilDereference
      | some c =>
          let (data, err) := c.encode value
          failOn (err.map fun err =>
            "error encoding message for key " ++ Bytes.text key ++ ": " ++ err)
          emitMessage env l.name key data (.ofOptions options)

section Table

variable [TableStore σ]

def onTable (write : σ → Option String × σ) : Op σ (Option String) := do
  match (← get).table with
  | none => nilDereference
  | some table =>
      let (err, table) := write table
      modify fun s => { s with table := some table }
      return err

def countStore : Op σ Unit :=
  modify fun s => { s with ctx := { s.ctx with stores := s.ctx.stores + 1 } }

def deleteKey (key : Bytes) (hdr : Headers) : Op σ (Option String) := do
  match env.graph.theGroupTable with
  | none => return some "Cannot access state in stateless processor"
  | some groupTable =>
      countStore
      match ← onTable fun table => TableStore.delete table key with
      | some err =>
          return some ("error deleting key (" ++ Bytes.text key ++ ") from storage: " ++ err)
      | none =>
          handOver .delete groupTable.name key none hdr
          return none

def setValueForKey (key : Bytes) (value : Option α) (hdr : Headers) : Op σ (Option String) := do
  match env.graph.theGroupTable with
  | none => return some "Cannot access state in stateless processor"
  | some groupTable =>
      match value with
      | none => return some "cannot set nil as value"
      | some value =>
          match groupTable.codec with
          | none => nilDereference
          | some codec =>
              match codec.encode (some value) with
              | (_, some err) => return some ("error encoding value: " ++ err)
              | (encodedValue, none) =>
                  countStore
                  match ← onTable fun table => TableStore.set table key encodedValue with
                  | some err => return some ("error storing value: " ++ err)
                  | none =>
                      handOver .setValue groupTable.name key encodedValue hdr
                      return none

def valueForKey (key : Bytes) : Op σ (Except String (Option α)) := do
  match (← get).table with
  | none => return .error "Cannot access state in stateless processor"
  | some table =>
      match TableStore.get table key with
      | .error err => return .error ("error reading value: " ++ err)
      | .ok none => return .ok none
      | .ok (some data) =>
          match env.graph.theGroupTable with
          | none => nilDereference
          | some groupTable =>
              match groupTable.codec with
              | none => nilDereference
              | some codec =>
                  match codec.decode (some data) with
                  | (_, some err) => return .error ("error decoding value: " ++ err)
                  | (value, none) => return .ok value

def delete (options : List Headers) : Op σ Unit := do
  failOn (← deleteKey env (← get).ctx.msg.key (.ofOptions options))

def setValue (value : Option α) (options : List Headers) : Op σ Unit := do
  failOn (← setValueForKey env (← get).ctx.msg.key value (.ofOptions options))

def value : Op σ (Option α) := do
  match ← valueForKey env (← get).ctx.msg.key with
  | .ok val => return val
  | .error err =>
      fail err
      return none

end Table

def join (topic : String) : Op σ (Option α) := do
  let key := (← get).ctx.msg.key
  if env.pviews.isNone then
    fail ("table " ++ topic ++ " not subscribed")
  let v := env.pviews.bind fun pviews => pviews topic
  if v.isNone then
    fail ("table " ++ topic ++ " not subscribed")
  match v with
  | none => nilDereference
  | some get =>
      -- a storage that fails returns no data, so the decoder sees nil where `Fail` comes back
      let data ← match get key with
        | .error err => do
            fail ("error getting key " ++ Bytes.text key ++ " of table " ++ topic ++ ": " ++ err)
            pure (some none)
        | .ok none => pure none
        | .ok (some data) => pure (some (some data))
      match data with
      | none => return none
      | some data =>
          match env.graph.codec topic with
          | none => nilDereference
          | some codec =>
              let (value, err) := codec.decode data
              failOn (err.map fun err => "error decoding value key " ++ Bytes.text key ++
                " of table " ++ topic ++ ": " ++ err)
              return value

def lookup (topic : String) (key : Bytes) : Op σ (Option α) := do
  if env.views.isNone then
    fail ("topic " ++ topic ++ " not subscribed")
  let v := env.views.bind fun views => views topic
  if v.isNone then
    fail ("topic " ++ topic ++ " not subscribed")
  match v with
  | none => nilDereference
  | some get =>
      match get key with
      | .error err =>
          fail ("error getting key " ++ Bytes.text key ++ " of table " ++ topic ++ ": " ++ err)
          return none
      | .ok val => return val

def deferCommit : Op σ Unit := modify fun s => { s with ctx := s.ctx.handOut .deferred }

end Op

inductive ContextOp (α : Type) where
  | emit (topic : String) (key : Bytes) (value : Option α) (options : List Headers)
  | loopback (key : Bytes) (value : Option α) (options : List Headers)
  | delete (options : List Headers)
  | setValue (value : Option α) (options : List Headers)
  | value
  | join (topic : String)
  | lookup (topic : String) (key : Bytes)
  | deferCommit
  | fail (err : String)

/-- What a call does; the operations without a result return nil. -/
def ContextOp.exec {α Callback σ : Type} [TableStore σ] (env : Env α Callback) :
    ContextOp α → Op σ (Option α)
  | .emit topic key v options => do
      Op.emit env topic key v options
      return none
  | .loopback key v options => do
      Op.loopback env key v options
      return none
  | .delete options => do
      Op.delete env options
      return none
  | .setValue v options => do
      Op.setValue env v options
      return none
  | .value => Op.value env
  | .join topic => Op.join env topic
  | .lookup topic key => Op.lookup env topic key
  | .deferCommit => do
      Op.deferCommit
      return none
  | .fail err => do
      Op.fail err
      return none

/-- Performs a call from the callback: the panic it ended in, if any, and what it left. -/
def OpState.perform {α Callback σ : Type} [TableStore σ] (s : OpState σ) (env : Env α Callback)
    (o : ContextOp α) : Option String × OpState σ :=
  let (result, s') := (o.exec env).run { s with failing := false }
  let panicked :=
    match result with
    | .ok _ => none
    | .error err => some err
  (panicked, { s' with
    ctx := { s'.ctx with failed := s'.ctx.failed || s'.failing || panicked.isSome } })

/-! ### The life of one context -/

structure ContextRun (σ : Type) extends OpState σ where
  -- the callback has neither returned nor panicked
  running : Bool

namespace ContextRun

inductive Action (α : Type) where
  | op (o : ContextOp α)
  | panics
  | returns
  | resolve (index : Nat) (offset : Option Int) (err : Option String)
  | cancel

variable {α Callback σ : Type} [TableStore σ]

/-- The context right after `start`, which has added one to the wait group. -/
def start (msg : Message) (table : Option σ) (cancelled : Bool) : ContextRun σ where
  ctx := .new msg
  table := table
  emitted := []
  cancelled := cancelled
  rerr := none
  failing := false
  running := true

def step (env : Env α Callback) (s : ContextRun σ) : Action α → Option (ContextRun σ)
  | .op o =>
      if s.running then
        let (panicked, op) := s.toOpState.perform env o
        some ⟨op, panicked.isNone⟩
      else
        none
  | .panics =>
      if s.running then some { s with ctx := { s.ctx with failed := true }, running := false }
      else none
  | .returns =>
      if s.running then some { s with ctx := s.ctx.finish none, running := false } else none
  | .resolve index offset err =>
      (s.ctx.resolve s.table index offset err).map fun (ctx, table) =>
        { s with ctx := ctx, table := table }
  | .cancel => some { s with cancelled := true }

/-- The wait group, as far as this context is counted in it. -/
def wg (s : ContextRun σ) : Int := 1 - s.ctx.marks

end ContextRun

end Goka

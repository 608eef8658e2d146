import Goka.GroupTable

/-!
# The group table of an active processor

`SetValue` and `Delete` write the storage, hand a message to the producer and return. The producer
appends the messages to the table topic in the order in which it got them, or fails to, and resolves
their promises in any order; the promise of a `SetValue` then stores the offset of its record. The
ticker of the storage may still have an offset to write that it loaded during recovery, and `Close`
writes the offset it finds in memory.

The calls are those of all messages in flight. They meet in the table and in the producer only, so
one context stands for theirs.
-/

namespace Goka

/-- A call of `SetValue` or `Delete`: what the storage holds under the key right after it and what
was handed to the producer. -/
structure TableWrite where
  key : Bytes
  stored : Option Bytes
  value : Option Bytes

structure ActiveTable where
  op : OpState GroupTable
  log : TopicLog
  -- what the producer still has, in the order of the calls
  queue : List TableWrite
  -- what the producer is done with, in the order of the calls: the offset of the record, or the
  -- error
  sent : List (TableWrite × Except String Int)
  sync : Option Int
  closing : Option Int

namespace ActiveTable

inductive Action (α : Type) where
  | setValue (key : Bytes) (value : Option α) (hdr : Headers)
  | delete (key : Bytes) (hdr : Headers)
  | produce (offset : Int)
  | produceFails (err : String)
  | acknowledge (index : Nat)
  | syncLoad
  | syncPut
  | closeLoad
  | closePut

def Action.key {α : Type} : Action α → Option Bytes
  | .setValue key _ _ | .delete key _ => some key
  | _ => none

def start (msg : Message) (table : GroupTable) (log : TopicLog) (sync : Option Int) :
    ActiveTable where
  op := ⟨.new msg, some table, [], false, none, false⟩
  log := log
  queue := []
  sent := []
  sync := sync
  closing := none

variable (s : ActiveTable)

def db : Database :=
  match s.op.table with
  | none => fun _ => none
  | some table => table.st.db

def call (program : Op GroupTable (Option String)) : ActiveTable :=
  let op := (program.run s.op).2
  let emitted := op.emitted.drop s.op.emitted.length
  let writes := emitted.map fun e => ⟨e.key, op.table.bind fun table => table.st.get e.key, e.value⟩
  { s with op := op, queue := s.queue ++ writes }

def produce (offset : Int) : Option ActiveTable :=
  match s.queue with
  | [] => none
  | write :: queue =>
      (s.log.append ⟨offset, write.key, write.value⟩).map fun log =>
        { s with log := log, queue := queue, sent := s.sent ++ [(write, .ok offset)] }

def produceFails (err : String) : Option ActiveTable :=
  match s.queue with
  | [] => none
  | write :: queue => some { s with queue := queue, sent := s.sent ++ [(write, .error err)] }

/-- The promise of a call is finished with what became of its message. -/
def acknowledge (index : Nat) : Option ActiveTable :=
  match s.sent[index]? with
  | none => none
  | some (_, result) =>
      let (offset, err) :=
        match result with
        | .ok offset => (some offset, none)
        | .error err => (none, some err)
      (s.op.ctx.resolve s.op.table index offset err).map fun (ctx, table) =>
        { s with op := { s.op with ctx := ctx, table := table } }

def putLoaded (curOffset : Int) : ActiveTable :=
  { s with
    op := { s.op with
      table := s.op.table.map fun table => { table with st := table.st.putLoaded curOffset } } }

def step {α Callback : Type} (env : Env α Callback) : Action α → Option ActiveTable
  | .setValue key value hdr => some (s.call (Op.setValueForKey env key value hdr))
  | .delete key hdr => some (s.call (Op.deleteKey env key hdr))
  | .produce offset => s.produce offset
  | .produceFails err => s.produceFails err
  | .acknowledge index => s.acknowledge index
  | .syncLoad => s.op.table.map fun table => { s with sync := some table.st.offset }
  | .syncPut => s.sync.map fun curOffset => { s.putLoaded curOffset with sync := none }
  | .closeLoad => s.op.table.map fun table => { s with closing := some table.st.offset }
  | .closePut => s.closing.map fun curOffset => { s.putLoaded curOffset with closing := none }

end ActiveTable

end Goka

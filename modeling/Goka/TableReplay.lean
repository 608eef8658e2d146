import Goka.GroupTable

/-!
# Replaying the table topic

The local storage of a group table is written by the calls of the callbacks, and written again from
the table topic when a table is recovered. The two decide apart from each other what a deletion is:
`Delete` and a nil value in the topic.
-/

namespace Goka

/-- `codec.Bytes` on a `[]byte`, which may be nil in an interface that is not. -/
def Codec.bytes : Codec (Option Bytes) where
  encode
    | none => (none, some "DefaultCodec: value to encode is not of type []byte")
    | some data => (data, none)
  decode data := (some data, none)

/-- A call of `SetValue` or `Delete` for the message's key. -/
inductive TableCall (α : Type) where
  | setValue (key : Bytes) (value : Option α) (hdr : Headers)
  | delete (key : Bytes) (hdr : Headers)

namespace TableCall

variable {α Callback : Type}

def key : TableCall α → Bytes
  | setValue key _ _ | delete key _ => key

def program (env : Env α Callback) : TableCall α → Op GroupTable (Option String)
  | setValue key value hdr => Op.setValueForKey env key value hdr
  | delete key hdr => Op.deleteKey env key hdr

/-- Makes the calls one after the other, as long as they succeed. -/
def perform (env : Env α Callback) :
    List (TableCall α) → OpState GroupTable → Option (OpState GroupTable)
  | [], op => some op
  | call :: calls, op =>
      match (call.program env).run op with
      | (.ok none, op) => perform env calls op
      | _ => none

end TableCall

namespace GroupTable

/-- A context on an empty table. -/
def onEmpty (msg : Message) (state : PartitionStatus) (cancelled : Bool) : OpState GroupTable where
  ctx := .new msg
  table := some ⟨state, Storage.new fun _ => none⟩
  emitted := []
  cancelled := cancelled
  rerr := none
  failing := false

/-- Replays a topic with `DefaultUpdate` into an empty storage. -/
def replayed (topic : List Emission) : Storage :=
  topic.foldl (fun st message => st.defaultUpdate message.key message.value)
    (Storage.new fun _ => none)

end GroupTable

end Goka

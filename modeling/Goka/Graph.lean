import Goka.Basic

/-!
# The group graph

A group is defined by a list of edges. `DefineGroup` spreads them over the fields of the graph and,
in list order, over two maps keyed by topic, from which codecs and callbacks are read back at
runtime. Codecs and callbacks may be nil, and a nil codec is the same as a missing one.
-/

namespace Goka

variable {Codec Callback : Type}

def tableSuffix : String := "-table"

def loopSuffix : String := "-loop"

def tableName (group : String) : String := group ++ tableSuffix

def loopName (group : String) : String := group ++ loopSuffix

structure TopicDef (Codec : Type) where
  name : String
  codec : Option Codec

structure InputStream (Codec Callback : Type) extends TopicDef Codec where
  cb : Option Callback

/-- The edges a group can be defined with. The topics of `loopStream` and `groupTable` are set from
the group's name; `Inputs` over no topics gives a nil edge, which is skipped like an empty list. -/
inductive Edge (Codec Callback : Type) where
  | inputStreams (streams : List (InputStream Codec Callback))
  | inputStream (stream : InputStream Codec Callback)
  | loopStream (codec : Option Codec) (cb : Option Callback)
  | outputStream (topic : TopicDef Codec)
  | inputTable (topic : TopicDef Codec)
  | crossTable (topic : TopicDef Codec)
  | groupTable (codec : Option Codec)

/-- `Inputs`, which gives every topic the same codec and callback. -/
def Edge.inputs (topics : List String) (codec : Option Codec) (cb : Option Callback) :
    Edge Codec Callback :=
  .inputStreams (topics.map fun topic => ⟨⟨topic, codec⟩, cb⟩)

namespace Edge

/-- `Topic()` once `DefineGroup` has set the names of the group's own topics. -/
def topic (group : String) : Edge Codec Callback → String
  | .inputStreams streams => ",".intercalate (streams.map fun e => e.name)
  | .inputStream e => e.name
  | .loopStream _ _ => loopName group
  | .outputStream e | .inputTable e | .crossTable e => e.name
  | .groupTable _ => tableName group

def codec : Edge Codec Callback → Option Codec
  | .inputStreams streams => (streams.head?.map fun e => e.codec).join
  | .inputStream e => e.codec
  | .loopStream codec _ => codec
  | .outputStream e | .inputTable e | .crossTable e => e.codec
  | .groupTable codec => codec

def callback : Edge Codec Callback → Option (Option Callback)
  | .inputStream e => some e.cb
  | .loopStream _ cb => some cb
  | _ => none

def isLookup : Edge Codec Callback → Bool
  | .crossTable _ => true
  | _ => false

/-- The edges an edge stands for: `Inputs` is one `Input` for each topic. -/
def spread : Edge Codec Callback → List (Edge Codec Callback)
  | .inputStreams streams => streams.map .inputStream
  | e => [e]

end Edge

structure GroupGraph (Codec Callback : Type) where
  group : String
  inputTables : List (TopicDef Codec)
  crossTables : List (TopicDef Codec)
  inputStreams : List (InputStream Codec Callback)
  outputStreams : List (TopicDef Codec)
  loopStream : List (InputStream Codec Callback)
  groupTable : List (TopicDef Codec)
  codecs : String → Option Codec
  callbacks : String → Option (Option Callback)
  outputStreamTopics : String → Bool
  joinCheck : String → Bool

namespace GroupGraph

variable (gg : GroupGraph Codec Callback)

def codec (topic : String) : Option Codec := gg.codecs topic

def callback (topic : String) : Option Callback := (gg.callbacks topic).join

def isOutputTopic (topic : String) : Bool := gg.outputStreamTopics topic

def theLoopStream : Option (InputStream Codec Callback) := gg.loopStream.head?

def theGroupTable : Option (TopicDef Codec) := gg.groupTable.head?

def empty (group : String) : GroupGraph Codec Callback where
  group := group
  inputTables := []
  crossTables := []
  inputStreams := []
  outputStreams := []
  loopStream := []
  groupTable := []
  codecs := fun _ => none
  callbacks := fun _ => none
  outputStreamTopics := fun _ => false
  joinCheck := fun _ => false

def validateInputTopic (topic : String) : Outcome Unit :=
  if topic = "" then
    .panic "Input topic cannot be empty. This will not work."
  else if (gg.callbacks topic).isSome then
    .panic ("Callback for topic " ++ topic ++
      " already exists. It is illegal to consume a topic twice")
  else
    .ok ()

def setCodec (topic : String) (codec : Option Codec) : GroupGraph Codec Callback :=
  { gg with codecs := Function.update gg.codecs topic codec }

def setCallback (topic : String) (cb : Option Callback) : GroupGraph Codec Callback :=
  { gg with callbacks := Function.update gg.callbacks topic (some cb) }

def addInputStream (input : InputStream Codec Callback) : Outcome (GroupGraph Codec Callback) := do
  gg.validateInputTopic input.name
  let gg := (gg.setCodec input.name input.codec).setCallback input.name input.cb
  pure { gg with inputStreams := gg.inputStreams ++ [input] }

def addEdge : Edge Codec Callback → Outcome (GroupGraph Codec Callback)
  | .inputStreams inputs => inputs.foldlM addInputStream gg
  | .inputStream input => gg.addInputStream input
  | .loopStream codec cb =>
      let e : InputStream Codec Callback := ⟨⟨loopName gg.group, codec⟩, cb⟩
      let gg := (gg.setCodec e.name e.codec).setCallback e.name e.cb
      .ok { gg with loopStream := gg.loopStream ++ [e] }
  | .outputStream e =>
      let gg := gg.setCodec e.name e.codec
      .ok { gg with
        outputStreams := gg.outputStreams ++ [e]
        outputStreamTopics := Function.update gg.outputStreamTopics e.name true }
  | .inputTable e =>
      let gg := gg.setCodec e.name e.codec
      .ok { gg with
        inputTables := gg.inputTables ++ [e]
        joinCheck := Function.update gg.joinCheck e.name true }
  | .crossTable e =>
      let gg := gg.setCodec e.name e.codec
      .ok { gg with crossTables := gg.crossTables ++ [e] }
  | .groupTable codec =>
      let e : TopicDef Codec := ⟨tableName gg.group, codec⟩
      let gg := gg.setCodec e.name e.codec
      .ok { gg with groupTable := gg.groupTable ++ [e] }

def defineGroup (group : String) (edges : List (Edge Codec Callback)) :
    Outcome (GroupGraph Codec Callback) :=
  edges.foldlM addEdge (empty group)

/-- The topics of the edges that `Validate` looks through for the group's own topics. -/
def foreignTopics : List String :=
  gg.outputStreams.map TopicDef.name ++ gg.inputStreams.map (fun e => e.name) ++
    gg.inputTables.map TopicDef.name ++ gg.crossTables.map TopicDef.name

def validateTopics (group : String) : List String → Outcome Unit
  | [] => .ok ()
  | topic :: topics =>
      if topic = loopName group then
        .error "should not directly use loop stream"
      else if topic = tableName group then
        .error "should not directly use group table"
      else
        validateTopics group topics

def validate : Outcome Unit :=
  if gg.loopStream.length > 1 then
    .error "more than one loop stream in group graph"
  else if gg.groupTable.length > 1 then
    .error "more than one group table in group graph"
  else if gg.inputStreams.length = 0 then
    .error "no input stream in group graph"
  else
    validateTopics gg.group gg.foreignTopics

end GroupGraph

end Goka

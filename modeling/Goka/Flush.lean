import Goka.ConsumerGroup

/-!
# The tester waits for its clients

`Consume` pushes a message to a topic and then goes over the clients, again and again, until there
was nothing left that any of them had to catch up with. A client that is a processor has a session
of its consumer group, and every client has a partition consumer for each table it reads. A
partition consumer is sent what lies behind its offset, and behind each message a nil message, which
is taken only when the table has stored the message.

Handlers emit while they process a message, so a push comes from a client with a message that is not
marked. The clients and their consumers stay the same during the call, and their contexts are open.
-/

namespace Goka

namespace Tester

structure PartConsumerMock where
  queue : Queue
  hwm : Nat
  -- the table has taken a message and not stored it yet
  storing : Bool
  -- ghost: the offset it was created with, and what was sent over `messages` without the nil
  -- messages
  start : Nat
  sent : List ConsumerMessage

structure Client where
  session : Option CgSession
  partConsumers : GoMap String PartConsumerMock

/-- How far `waitForClients` has come, with what the loops around it have still to visit. -/
inductive FlushPc where
  | passing
  | clients (rest : List Nat)
  | group (i : Nat) (rest : List Nat)
  | consumers (i : Nat) (topics : List String) (rest : List Nat)
  | pushing (i : Nat) (topic : String) (msgs : List Message) (topics : List String)
      (rest : List Nat)
  | nilling (i : Nat) (topic : String) (msg : Message) (msgs : List Message) (topics : List String)
      (rest : List Nat)

structure Flush where
  pc : FlushPc
  totalCatchup : Nat

structure Clients where
  tt : TopicQueues
  clients : List Client
  flush : Option Flush
  panicked : Bool

def TopicQueues.pushMessage (tt : TopicQueues) (topic : String) (key : Bytes) (data : Option Bytes)
    (hdr : Headers) :
    TopicQueues where
  topicQueues := tt.topicQueues.insert topic ((tt.getOrCreateQueue topic).push key data hdr)
  topic_eq := by
    intro other q hq
    rcases eq_or_ne other topic with rfl | hne
    · rw [AList.lookup_insert] at hq
      obtain rfl := Option.some.inj hq
      change (tt.getOrCreateQueue other).topic = other
      unfold getOrCreateQueue
      cases hlookup : tt.topicQueues.lookup other with
      | none => rfl
      | some q => exact tt.topic_eq other q hlookup
    · rw [AList.lookup_insert_ne hne] at hq
      exact tt.topic_eq other q hq

def TopicQueues.newPartConsumer (tt : TopicQueues) (topic : String) (offset : Nat) :
    PartConsumerMock where
  queue := tt.getOrCreateQueue topic
  hwm := offset
  storing := false
  start := offset
  sent := []

/-- A client with the topics of its consumer group, and its tables with the offsets their consumers
begin at. -/
def Client.new (tt : TopicQueues) (group : Option (List String)) (tables : List (String × Nat)) :
    Client where
  session := group.map (CgSession.newCgSession tt)
  partConsumers := tables.foldl (fun consumers table =>
    consumers.insert table.1 (tt.newPartConsumer table.1 table.2)) ∅

/-- The message is in the queues that the client reads. -/
def Client.push (c : Client) (topic : String) (key : Bytes) (data : Option Bytes) (hdr : Headers) :
    Client where
  session := c.session.map fun s => (s.push topic key data hdr).getD s
  partConsumers :=
    match c.partConsumers.lookup topic with
    | none => c.partConsumers
    | some pcm => c.partConsumers.insert topic { pcm with queue := pcm.queue.push key data hdr }

namespace Clients

def new (tt : TopicQueues) (clients : List (Option (List String) × List (String × Nat))) :
    Clients where
  tt := tt
  clients := clients.map fun client => Client.new tt client.1 client.2
  flush := none
  panicked := false

variable (s : Clients)

def pushMessage (topic : String) (key : Bytes) (data : Option Bytes) (hdr : Headers) : Clients :=
  { s with
    tt := s.tt.pushMessage topic key data hdr
    clients := s.clients.map fun c => c.push topic key data hdr }

/-- `Consume`. -/
def consume (topic : String) (key : Bytes) (data : Option Bytes) (hdr : Headers) : Option Clients :=
  if s.flush.isNone then some { s.pushMessage topic key data hdr with flush := some ⟨.passing, 0⟩ }
  else none

/-- `Catchup`. -/
def catchup : Option Clients :=
  if s.flush.isNone then some { s with flush := some ⟨.passing, 0⟩ } else none

def withSession (i : Nat) (move : CgSession → Option CgSession) : Option Clients :=
  match s.clients[i]? with
  | none => none
  | some client =>
      match client.session with
      | none => none
      | some session =>
          (move session).map fun session =>
            { s with clients := s.clients.set i { client with session := some session } }

def withConsumer (i : Nat) (topic : String) (move : PartConsumerMock → Option PartConsumerMock) :
    Option Clients :=
  match s.clients[i]? with
  | none => none
  | some client =>
      match client.partConsumers.lookup topic with
      | none => none
      | some pcm =>
          (move pcm).map fun pcm =>
            { s with
              clients := s.clients.set i { client with
                partConsumers := client.partConsumers.insert topic pcm } }

/-- A handler of the client emits. -/
def emit (i : Nat) (topic : String) (key : Bytes) (data : Option Bytes) (hdr : Headers) :
    Option Clients :=
  match s.clients[i]? with
  | none => none
  | some client =>
      match client.session with
      | none => none
      | some session =>
          if session.waitingMessages.keys ≠ [] then some (s.pushMessage topic key data hdr)
          else none

/-- What goes on in a session while `waitForClients` is in it or waits for it. -/
def inSession : CgSession.Action → Bool
  | .markMessage _ _ | .proceed | .send => true
  | _ => false

def session (i : Nat) (action : CgSession.Action) : Option Clients :=
  if inSession action then s.withSession i fun session => session.step action else none

/-- The table of a partition consumer has stored the message. -/
def stored (i : Nat) (topic : String) : Option Clients :=
  s.withConsumer i topic fun pcm => if pcm.storing then some { pcm with storing := false } else none

def goTo (pc : FlushPc) (caughtUp : Nat) : Clients :=
  { s with flush := s.flush.map fun f => { pc := pc, totalCatchup := f.totalCatchup + caughtUp } }

/-- A map of partition consumers is visited in any order. -/
def visitConsumers (i : Nat) (order : List String) (rest : List Nat) (caughtUp : Nat) :
    Option Clients :=
  match s.clients[i]? with
  | none => none
  | some client =>
      if order.Perm client.partConsumers.keys then some (s.goTo (.consumers i order rest) caughtUp)
      else none

/-- A pass over the clients, in any order. -/
def pass (order : List Nat) : Option Clients :=
  match s.flush with
  | some ⟨.passing, _⟩ =>
      if order.Perm (List.range s.clients.length) then
        some { s with flush := some ⟨.clients order, 0⟩ } else none
  | _ => none

/-- `catchup` of the next client, or the end of a pass. -/
def nextClient (order : List String) : Option Clients :=
  match s.flush with
  | some ⟨.clients [], totalCatchup⟩ =>
      if totalCatchup = 0 then some { s with flush := none } else some (s.goTo .passing 0)
  | some ⟨.clients (i :: rest), _⟩ =>
      match s.clients[i]? with
      | none => none
      | some client =>
          match client.session with
          | none => s.visitConsumers i order rest 0
          | some _ =>
              (s.withSession i fun session => session.step (.catchupAndWait order)).map fun s =>
                s.goTo (.group i rest) 0
  | _ => none

/-- `catchupAndWait` returns. -/
def groupReturns (order : List String) : Option Clients :=
  match s.flush with
  | some ⟨.group i rest, _⟩ =>
      match s.clients[i]? with
      | none => none
      | some client =>
          match client.session.bind CgSession.catchup with
          | none => none
          | some call =>
              (s.withSession i fun session => session.step .returnDone).bind fun s =>
                s.visitConsumers i order rest call.msgPushed
  | _ => none

/-- `catchup` of the next partition consumer. -/
def nextConsumer : Option Clients :=
  match s.flush with
  | some ⟨.consumers _ [] rest, _⟩ => some (s.goTo (.clients rest) 0)
  | some ⟨.consumers i (topic :: topics) rest, _⟩ =>
      match s.clients[i]? with
      | none => none
      | some client =>
          match client.partConsumers.lookup topic with
          | none => none
          | some pcm =>
              match pcm.queue.messagesFromOffset pcm.hwm with
              | .ok msgs => some (s.goTo (.pushing i topic msgs topics rest) 0)
              | _ => some { s with panicked := true }
  | _ => none

/-- The table takes the next message, or the nil message behind it. -/
def sendNext : Option Clients :=
  match s.flush with
  | some ⟨.pushing i _ [] topics rest, _⟩ => some (s.goTo (.consumers i topics rest) 0)
  | some ⟨.pushing i topic (msg :: msgs) topics rest, _⟩ =>
      (s.withConsumer i topic fun pcm =>
        if pcm.storing then none
        else some { pcm with
          storing := true, sent := pcm.sent ++ [msg.consumerMessage pcm.queue.topic] }).map fun s =>
          s.goTo (.nilling i topic msg msgs topics rest) 0
  | some ⟨.nilling i topic msg msgs topics rest, _⟩ =>
      (s.withConsumer i topic fun pcm => if pcm.storing then none else
        some { pcm with hwm := msg.offset + 1 }).map
        fun s => s.goTo (.pushing i topic msgs topics rest) 1
  | _ => none

inductive Action where
  | consume (topic : String) (key : Bytes) (data : Option Bytes) (hdr : Headers)
  | catchup
  | emit (i : Nat) (topic : String) (key : Bytes) (data : Option Bytes) (hdr : Headers)
  | session (i : Nat) (action : CgSession.Action)
  | stored (i : Nat) (topic : String)
  | pass (order : List Nat)
  | nextClient (order : List String)
  | groupReturns (order : List String)
  | nextConsumer
  | sendNext

def step (action : Action) : Option Clients :=
  if s.panicked then
    none
  else
    match action with
    | .consume topic key data hdr => s.consume topic key data hdr
    | .catchup => s.catchup
    | .emit i topic key data hdr => s.emit i topic key data hdr
    | .session i action => s.session i action
    | .stored i topic => s.stored i topic
    | .pass order => s.pass order
    | .nextClient order => s.nextClient order
    | .groupReturns order => s.groupReturns order
    | .nextConsumer => s.nextConsumer
    | .sendNext => s.sendNext

end Clients

end Tester

end Goka

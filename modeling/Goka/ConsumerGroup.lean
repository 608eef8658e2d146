import Goka.Headers
import Goka.Library.Schedule
import Goka.Library.Threads

/-!
# The tester's consumer group

The tester stands in for the broker: a topic is a queue in memory, and a session hands the messages
of its queues to its claims. `catchupAndWait` goes over the queues, pushes to the claims what lies
behind the highest offset marked so far, and waits until all of it is marked. Marks come from the
consumers' goroutines, and so do further pushes to the queues.

At most one `catchupAndWait` call holds `mCatchup`; it is a program counter with its local
variables. What it does under `mMessages` is one step. In `pushMessageToClaim` the message is
recorded as waiting under the lock and counted in the wait group behind it, so these are two steps.
Offsets and counts are natural numbers here.
-/

namespace Goka

namespace Tester

structure Message where
  offset : Nat
  key : Bytes
  value : Option Bytes
  headers : Headers

/-- `sarama.ConsumerMessage`, as far as the tester fills it in. -/
structure ConsumerMessage where
  headers : Headers.Records
  key : Bytes
  value : Option Bytes
  topic : String
  offset : Nat

def Message.saramaHeaders (m : Message) : Headers.Records := m.headers.toSarama

/-- The message as it goes over the channel of a claim. -/
def Message.consumerMessage (msg : Message) (topic : String) : ConsumerMessage where
  headers := msg.saramaHeaders
  key := msg.key
  value := msg.value
  topic := topic
  offset := msg.offset

structure Queue where
  topic : String
  messages : List Message
  hwm : Nat
  offset_eq : ∀ (i : Nat) msg, messages[i]? = some msg → msg.offset = i
  hwm_eq : hwm = messages.length

namespace Queue

def newQueue (topic : String) : Queue where
  topic := topic
  messages := []
  hwm := 0
  offset_eq := by simp
  hwm_eq := rfl

variable (q : Queue)

def push (key : Bytes) (value : Option Bytes) (hdr : Headers) : Queue where
  topic := q.topic
  messages := q.messages ++ [{ offset := q.hwm, key := key, value := value, headers := hdr }]
  hwm := q.hwm + 1
  offset_eq :=
    Threads.forall_getElem?_concat (P := fun i (msg : Message) => msg.offset
      = i) q.hwm_eq q.offset_eq
  hwm_eq := by rw [q.hwm_eq, List.length_append, List.length_singleton]

def messagesFromOffset (offset : Nat) : Outcome (List Message) :=
  if offset ≤ q.messages.length then .ok (q.messages.drop offset)
  else .panic "runtime error: slice bounds out of range"

end Queue

structure QueueSession where
  queue : Queue
  hwm : Nat

def QueueSession.setHwmIfNewer (qs : QueueSession) (hwm : Nat) : QueueSession :=
  if qs.hwm < hwm then { qs with hwm := hwm } else qs

structure CgClaim where
  topic : String
  -- `msgs` has been closed
  closed : Bool
  -- ghost: what was sent over `msgs`
  sent : List ConsumerMessage

/-- The panics a session can end in. -/
inductive SessionPanic where
  | duplicateOffset (topic : String) (offset : Nat)
  | negativeCounter
  | sliceBounds
  | closedChannel
  | nilPointer
  deriving Repr, DecidableEq

def SessionPanic.text : SessionPanic → String
  | duplicateOffset topic offset =>
      "There's a duplicate message offset in the same topic/partition " ++ topic ++ "/0: " ++
        toString offset ++ ". The tester has a bug!"
  | negativeCounter => "sync: negative WaitGroup counter"
  | sliceBounds => "runtime error: slice bounds out of range"
  | closedChannel => "send on closed channel"
  | nilPointer => "runtime error: invalid memory address or nil pointer dereference"

/-- How far `catchupAndWait` has come, with the queues that `range` has still to visit. -/
inductive CatchupPc where
  | ranging (rest : List String)
  | reading (topic : String) (queueHwm : Nat) (rest : List String)
  | pushing (topic : String) (msgs : List Message) (rest : List String)
  | adding (topic : String) (msg : Message) (msgs : List Message) (rest : List String)
  | sending (topic : String) (msg : Message) (msgs : List Message) (rest : List String)
  | waiting

structure Catchup where
  pc : CatchupPc
  msgPushed : Nat
  -- ghost: what was in the queues when the call looked at them
  found : List (String × Message)

inductive HistoryEvent where
  | recorded (topic : String) (offset : Nat)
  | marked (topic : String) (offset : Nat)
  deriving Repr, DecidableEq

structure CgSession where
  queues : GoMap String QueueSession
  claims : GoMap String CgClaim
  waitingMessages : GoMap String Bool
  wgMessages : Int
  -- the context is done
  cancelled : Bool
  -- the call that holds `mCatchup`
  catchup : Option Catchup
  panicked : Option SessionPanic
  -- what the calls have returned
  results : List Nat
  -- ghost: the messages recorded as waiting and the messages marked, the latest first
  history : List HistoryEvent

/-- The queues of the tester, each under its own topic. -/
structure TopicQueues where
  topicQueues : GoMap String Queue
  topic_eq : ∀ topic q, topicQueues.lookup topic = some q → q.topic = topic

def TopicQueues.getOrCreateQueue (tt : TopicQueues) (topic : String) : Queue :=
  (tt.topicQueues.lookup topic).getD (.newQueue topic)

def newCgClaim (topic : String) : CgClaim where
  topic := topic
  closed := false
  sent := []

namespace CgSession

def newCgSession (tt : TopicQueues) (topics : List String) : CgSession where
  queues := topics.foldl (fun queues topic =>
    queues.insert topic { queue := tt.getOrCreateQueue topic, hwm := 0 }) ∅
  claims := topics.foldl (fun claims topic => claims.insert topic (newCgClaim topic)) ∅
  waitingMessages := ∅
  wgMessages := 0
  cancelled := false
  catchup := none
  panicked := none
  results := []
  history := []

def makeMsgKey (topic : String) (offset : Nat) : String := topic ++ "-" ++ toString offset

variable (s : CgSession)

def isWaiting (msgKey : String) : Bool := (s.waitingMessages.lookup msgKey).getD false

def wgDone : CgSession :=
  let s := { s with wgMessages := s.wgMessages - 1 }
  if s.wgMessages < 0 then { s with panicked := some .negativeCounter } else s

/-- The end of `MarkOffset`. -/
def raiseHwm (topic : String) (hwm : Nat) : CgSession :=
  match s.queues.lookup topic with
  | none => { s with panicked := some .nilPointer }
  | some qs => { s with queues := s.queues.insert topic (qs.setHwmIfNewer hwm) }

def markOffset (topic : String) (offset : Nat) : CgSession :=
  let s := { s with history := .marked topic offset :: s.history }
  let msgKey := makeMsgKey topic offset
  if s.isWaiting msgKey then
    let s := s.wgDone
    if s.panicked = none then
      { s with waitingMessages := s.waitingMessages.erase msgKey }.raiseHwm topic (offset + 1)
    else
      s
  else
    s.raiseHwm topic (offset + 1)

/-- A consumer marks a message it has received. -/
def markMessage (topic : String) (i : Nat) : Option CgSession :=
  match s.claims.lookup topic with
  | none => none
  | some claim => claim.sent[i]?.map fun msg => s.markOffset msg.topic msg.offset

/-- Another goroutine pushes to the queue of a topic. -/
def push (topic : String) (key : Bytes) (value : Option Bytes) (hdr : Headers) : Option CgSession :=
  (s.queues.lookup topic).map fun qs =>
    { s with queues := s.queues.insert topic { qs with queue := qs.queue.push key value hdr } }

/-- A call gets `mCatchup`. The order in which `range` visits the queues is any order. -/
def catchupAndWait (order : List String) : Option CgSession :=
  if s.catchup.isNone = true ∧ order.Perm s.queues.keys then
    some { s with catchup := some { pc := .ranging order, msgPushed := 0, found := [] } }
  else
    none

def goTo (c : Catchup) (pc : CatchupPc) : CgSession :=
  { s with catchup := some { c with pc := pc } }

/-- The part of `pushMessageToClaim` under the lock. -/
def recordMessage (c : Catchup) (topic : String) (msg : Message) (msgs : List Message)
    (rest : List String) : CgSession :=
  match s.claims.lookup topic with
  | none => { s with panicked := some .nilPointer }
  | some claim =>
      let msgKey := makeMsgKey claim.topic msg.offset
      if s.isWaiting msgKey then
        { s with panicked := some (.duplicateOffset claim.topic msg.offset) }
      else
        { s with
          waitingMessages := s.waitingMessages.insert msgKey true
          history := .recorded claim.topic msg.offset ::
            s.history }.goTo c (.adding topic msg msgs rest)

/-- The call that holds `mCatchup` goes on, up to one of its two selects. -/
def proceed : Option CgSession :=
  match s.catchup with
  | none => none
  | some c =>
      match c.pc with
      | .ranging [] => some (s.goTo c .waiting)
      | .ranging (topic :: rest) =>
          (s.queues.lookup topic).map fun qs => s.goTo c (.reading topic qs.hwm rest)
      | .reading topic queueHwm rest =>
          match s.queues.lookup topic with
          | none => none
          | some qs =>
              match qs.queue.messagesFromOffset queueHwm with
              | .ok msgs =>
                  some (s.goTo { c with
                    found := c.found ++ qs.queue.messages.map fun msg => (topic, msg) }
                    (.pushing qs.queue.topic msgs rest))
              | _ => some { s with panicked := some .sliceBounds }
      | .pushing _ [] rest => some (s.goTo c (.ranging rest))
      | .pushing topic (msg :: msgs) rest => some (s.recordMessage c topic msg msgs rest)
      | .adding topic msg msgs rest =>
          some ({ s with wgMessages := s.wgMessages + 1 }.goTo c (.sending topic msg msgs rest))
      | .sending .. | .waiting => none

/-- The consumer of the claim takes the message. -/
def send : Option CgSession :=
  match s.catchup with
  | some ⟨.sending topic msg msgs rest, msgPushed, found⟩ =>
      match s.claims.lookup topic with
      | none => none
      | some claim =>
          if claim.closed then
            some { s with panicked := some .closedChannel }
          else
            let claim := { claim with sent := claim.sent ++ [msg.consumerMessage claim.topic] }
            some { s with
              claims := s.claims.insert topic claim
              catchup := some ⟨.pushing topic msgs rest, msgPushed + 1, found⟩ }
  | _ => none

/-- The context is done before a consumer has taken the message. -/
def giveUp : Option CgSession :=
  match s.catchup with
  | some ⟨.sending topic _ msgs rest, msgPushed, found⟩ =>
      if s.cancelled then
        some { s with catchup := some ⟨.pushing topic msgs rest, msgPushed + 1, found⟩ }.wgDone
      else
        none
  | _ => none

/-- `wgMessages.Wait` has returned. -/
def returnDone : Option CgSession :=
  match s.catchup with
  | some ⟨.waiting, msgPushed, _⟩ =>
      if s.wgMessages = 0 then
        some { s with catchup := none, results := s.results ++ [msgPushed] }
      else
        none
  | _ => none

def returnCancelled : Option CgSession :=
  match s.catchup with
  | some ⟨.waiting, _, _⟩ =>
      if s.cancelled then some { s with catchup := none, results := s.results ++ [0] } else none
  | _ => none

def cancel : CgSession := { s with cancelled := true }

/-- `Consume` closes the claims when the context is done. -/
def closeClaim (topic : String) : Option CgSession :=
  match s.claims.lookup topic with
  | none => none
  | some claim =>
      if s.cancelled = true ∧ claim.closed = false then
        some { s with claims := s.claims.insert topic { claim with closed := true } }
      else
        none

inductive Action where
  | push (topic : String) (key : Bytes) (value : Option Bytes) (hdr : Headers)
  | markMessage (topic : String) (i : Nat)
  | catchupAndWait (order : List String)
  | proceed
  | send
  | giveUp
  | returnDone
  | returnCancelled
  | cancel
  | closeClaim (topic : String)

/-- A panic ends the program. -/
def step (action : Action) : Option CgSession :=
  if s.panicked = none then
    match action with
    | .push topic key value hdr => s.push topic key value hdr
    | .markMessage topic i => s.markMessage topic i
    | .catchupAndWait order => s.catchupAndWait order
    | .proceed => s.proceed
    | .send => s.send
    | .giveUp => s.giveUp
    | .returnDone => s.returnDone
    | .returnCancelled => s.returnCancelled
    | .cancel => some s.cancel
    | .closeClaim topic => s.closeClaim topic
  else
    none

end CgSession

end Tester

end Goka

import Goka.ConsumerGroup
import Goka.Library.Maps
import Goka.Library.Names

/-!
# What a session records

A message is named by its topic and its offset, and its key in `waitingMessages` determines both. So
the map holds the messages that were recorded and not marked since. The wait group counts them,
apart from the one that `pushMessageToClaim` has recorded and not yet counted, until a push gives
up.
-/

namespace Goka

namespace Tester

theorem makeMsgKey_inj {topic topic' : String} {offset offset' : Nat} :
    CgSession.makeMsgKey topic offset = CgSession.makeMsgKey topic' offset' ↔
      topic = topic' ∧ offset = offset' :=
  Names.numbered_inj

def CatchupPc.topics : CatchupPc → List String
  | .ranging rest => rest
  | .reading topic _ rest | .pushing topic _ rest | .adding topic _ _ rest
  | .sending topic _ _ rest =>
      topic :: rest
  | .waiting => []

namespace CgSession

open Schedule Maps

variable {s s' : CgSession}

/-! ### What an action can do -/

inductive Step (s : CgSession) : Action → CgSession → Prop where
  | pushes {topic : String} {qs : QueueSession} (key : Bytes) (value : Option Bytes) (hdr : Headers)
      (hqs : s.queues.lookup topic = some qs) :
      Step s (.push topic key value hdr) { s with
        queues := s.queues.insert topic { qs with queue := qs.queue.push key value hdr } }
  | marks {topic : String} {i : Nat} {claim : CgClaim} {msg : ConsumerMessage}
      (hclaim : s.claims.lookup topic = some claim) (hmsg : claim.sent[i]? = some msg) :
      Step s (.markMessage topic i) (s.markOffset msg.topic msg.offset)
  | begins {order : List String} (hfree : s.catchup = none) (hperm : order.Perm s.queues.keys) :
      Step s (.catchupAndWait order) { s with catchup := some ⟨.ranging order, 0, []⟩ }
  | waits {c : Catchup} (hc : s.catchup = some c) (hpc : c.pc = .ranging []) :
      Step s .proceed (s.goTo c .waiting)
  | reads {c : Catchup} {topic : String} {rest : List String} {qs : QueueSession}
      (hc : s.catchup = some c) (hpc : c.pc = .ranging (topic :: rest))
      (hqs : s.queues.lookup topic = some qs) :
      Step s .proceed (s.goTo c (.reading topic qs.hwm rest))
  | pulls {c : Catchup} {topic : String} {queueHwm : Nat} {rest : List String} {qs : QueueSession}
      (hc : s.catchup = some c) (hpc : c.pc = .reading topic queueHwm rest)
      (hqs : s.queues.lookup topic = some qs) (hle : queueHwm ≤ qs.queue.messages.length) :
      Step s .proceed (s.goTo { c with
        found := c.found ++ qs.queue.messages.map fun msg => (topic, msg) }
        (.pushing qs.queue.topic (qs.queue.messages.drop queueHwm) rest))
  | pullPanics {c : Catchup} {topic : String} {queueHwm : Nat} {rest : List String}
      {qs : QueueSession} (hc : s.catchup = some c) (hpc : c.pc = .reading topic queueHwm rest)
      (hqs : s.queues.lookup topic = some qs) (hlt : qs.queue.messages.length < queueHwm) :
      Step s .proceed { s with panicked := some .sliceBounds }
  | leaves {c : Catchup} {topic : String} {rest : List String} (hc : s.catchup = some c)
      (hpc : c.pc = .pushing topic [] rest) : Step s .proceed (s.goTo c (.ranging rest))
  | records {c : Catchup} {topic : String} {msg : Message} {msgs : List Message}
      {rest : List String} {claim : CgClaim} (hc : s.catchup = some c)
      (hpc : c.pc = .pushing topic (msg :: msgs) rest) (hclaim : s.claims.lookup topic = some claim)
      (hnew : s.isWaiting (makeMsgKey claim.topic msg.offset) = false) :
      Step s .proceed ({ s with
        waitingMessages := s.waitingMessages.insert (makeMsgKey claim.topic msg.offset) true
        history := .recorded claim.topic msg.offset ::
          s.history }.goTo c (.adding topic msg msgs rest))
  | duplicates {c : Catchup} {topic : String} {msg : Message} {msgs : List Message}
      {rest : List String} {claim : CgClaim} (hc : s.catchup = some c)
      (hpc : c.pc = .pushing topic (msg :: msgs) rest) (hclaim : s.claims.lookup topic = some claim)
      (hwaiting : s.isWaiting (makeMsgKey claim.topic msg.offset) = true) :
      Step s .proceed { s with panicked := some (.duplicateOffset claim.topic msg.offset) }
  | recordPanics {c : Catchup} {topic : String} {msg : Message} {msgs : List Message}
      {rest : List String} (hc : s.catchup = some c)
      (hpc : c.pc = .pushing topic (msg :: msgs) rest) (hclaim : s.claims.lookup topic = none) :
      Step s .proceed { s with panicked := some .nilPointer }
  | adds {c : Catchup} {topic : String} {msg : Message} {msgs : List Message} {rest : List String}
      (hc : s.catchup = some c) (hpc : c.pc = .adding topic msg msgs rest) :
      Step s .proceed
        ({ s with wgMessages := s.wgMessages + 1 }.goTo c (.sending topic msg msgs rest))
  | sends {c : Catchup} {topic : String} {msg : Message} {msgs : List Message} {rest : List String}
      {claim : CgClaim} (hc : s.catchup = some c) (hpc : c.pc = .sending topic msg msgs rest)
      (hclaim : s.claims.lookup topic = some claim) (hopen : claim.closed = false) :
      Step s .send ({ s with
        claims := s.claims.insert topic
          { claim with sent := claim.sent ++ [msg.consumerMessage claim.topic] } }.goTo
        { c with msgPushed := c.msgPushed + 1 } (.pushing topic msgs rest))
  | sendPanics {c : Catchup} {topic : String} {msg : Message} {msgs : List Message}
      {rest : List String} {claim : CgClaim} (hc : s.catchup = some c)
      (hpc : c.pc = .sending topic msg msgs rest) (hclaim : s.claims.lookup topic = some claim)
      (hclosed : claim.closed = true) :
      Step s .send { s with panicked := some .closedChannel }
  | givesUp {c : Catchup} {topic : String} {msg : Message} {msgs : List Message}
      {rest : List String} (hc : s.catchup = some c) (hpc : c.pc = .sending topic msg msgs rest)
      (hcancelled : s.cancelled = true) :
      Step s .giveUp (s.goTo { c with msgPushed := c.msgPushed + 1 }
        (.pushing topic msgs rest)).wgDone
  | returnsDone {c : Catchup} (hc : s.catchup = some c) (hpc : c.pc = .waiting)
      (hwg : s.wgMessages = 0) :
      Step s .returnDone { s with catchup := none, results := s.results ++ [c.msgPushed] }
  | returnsCancelled {c : Catchup} (hc : s.catchup = some c) (hpc : c.pc = .waiting)
      (hcancelled : s.cancelled = true) :
      Step s .returnCancelled { s with catchup := none, results := s.results ++ [0] }
  | cancels : Step s .cancel s.cancel
  | closes {topic : String} {claim : CgClaim} (hclaim : s.claims.lookup topic = some claim)
      (hcancelled : s.cancelled = true) (hopen : claim.closed = false) :
      Step s (.closeClaim topic) { s with
        claims := s.claims.insert topic { claim with closed := true } }

theorem markMessage_cases {topic : String} {i : Nat} (h : s.markMessage topic i = some s') :
    Step s (.markMessage topic i) s' := by
  unfold markMessage at h
  split at h
  · cases h
  · rename_i claim hclaim
    obtain ⟨msg, hmsg, rfl⟩ := Option.map_eq_some_iff.mp h
    exact .marks hclaim hmsg

theorem recordMessage_cases {c : Catchup} {topic : String} {msg : Message} {msgs : List Message}
    {rest : List String} (hc : s.catchup = some c)
    (hpc : c.pc = .pushing topic (msg :: msgs) rest) :
    Step s .proceed (s.recordMessage c topic msg msgs rest) := by
  unfold recordMessage
  split
  · rename_i hclaim
    exact .recordPanics hc hpc hclaim
  · rename_i claim hclaim
    dsimp only
    split
    · rename_i hwaiting
      exact .duplicates hc hpc hclaim hwaiting
    · rename_i hnew
      exact .records hc hpc hclaim (Bool.eq_false_iff.mpr hnew)

theorem proceed_cases (h : s.proceed = some s') : Step s .proceed s' := by
  unfold proceed at h
  split at h
  · cases h
  rename_i c hc
  split at h
  case h_1 hpc =>
    obtain rfl := Option.some.inj h
    exact .waits hc hpc
  case h_2 topic rest hpc =>
    obtain ⟨qs, hqs, rfl⟩ := Option.map_eq_some_iff.mp h
    exact .reads hc hpc hqs
  case h_3 topic queueHwm rest hpc =>
    split at h
    · cases h
    · rename_i qs hqs
      unfold Queue.messagesFromOffset at h
      by_cases hle : queueHwm ≤ qs.queue.messages.length
      · rw [if_pos hle] at h
        obtain rfl := Option.some.inj h
        exact .pulls hc hpc hqs hle
      · rw [if_neg hle] at h
        obtain rfl := Option.some.inj h
        exact .pullPanics hc hpc hqs (Nat.lt_of_not_le hle)
  case h_4 topic rest hpc =>
    obtain rfl := Option.some.inj h
    exact .leaves hc hpc
  case h_5 topic msg msgs rest hpc =>
    obtain rfl := Option.some.inj h
    exact recordMessage_cases hc hpc
  case h_6 topic msg msgs rest hpc =>
    obtain rfl := Option.some.inj h
    exact .adds hc hpc
  case h_7 => cases h
  case h_8 => cases h

theorem send_cases (h : s.send = some s') : Step s .send s' := by
  unfold send at h
  split at h
  · rename_i topic msg msgs rest msgPushed found hc
    split at h
    · cases h
    · rename_i claim hclaim
      split at h
      · rename_i hclosed
        obtain rfl := Option.some.inj h
        exact .sendPanics hc rfl hclaim hclosed
      · rename_i hopen
        obtain rfl := Option.some.inj h
        exact .sends hc rfl hclaim (Bool.eq_false_iff.mpr hopen)
  · cases h

theorem giveUp_cases (h : s.giveUp = some s') : Step s .giveUp s' := by
  unfold giveUp at h
  split at h
  · rename_i topic msg msgs rest msgPushed found hc
    obtain ⟨hcancelled, rfl⟩ := guard_eq_some.mp h
    exact .givesUp hc rfl hcancelled
  · cases h

theorem returnDone_cases (h : s.returnDone = some s') : Step s .returnDone s' := by
  unfold returnDone at h
  split at h
  · rename_i msgPushed found hc
    obtain ⟨hwg, rfl⟩ := guard_eq_some.mp h
    exact .returnsDone hc rfl hwg
  · cases h

theorem returnCancelled_cases (h : s.returnCancelled = some s') : Step s .returnCancelled s' := by
  unfold returnCancelled at h
  split at h
  · rename_i msgPushed found hc
    obtain ⟨hcancelled, rfl⟩ := guard_eq_some.mp h
    exact .returnsCancelled hc rfl hcancelled
  · cases h

theorem closeClaim_cases {topic : String} (h : s.closeClaim topic = some s') :
    Step s (.closeClaim topic) s' := by
  unfold closeClaim at h
  split at h
  · cases h
  · rename_i claim hclaim
    obtain ⟨⟨hcancelled, hopen⟩, rfl⟩ := guard_eq_some.mp h
    exact .closes hclaim hcancelled hopen

theorem step_cases {action : Action} (h : s.step action = some s') :
    s.panicked = none ∧ Step s action s' := by
  obtain ⟨hnone, h⟩ := Option.ite_none_right_eq_some.mp h
  refine ⟨hnone, ?_⟩
  cases action with
  | push topic key value hdr =>
      obtain ⟨qs, hqs, rfl⟩ := Option.map_eq_some_iff.mp h
      exact .pushes key value hdr hqs
  | markMessage topic i => exact markMessage_cases h
  | catchupAndWait order =>
      obtain ⟨⟨hfree, hperm⟩, rfl⟩ := guard_eq_some.mp h
      exact .begins (Option.isNone_iff_eq_none.mp hfree) hperm
  | proceed => exact proceed_cases h
  | send => exact send_cases h
  | giveUp => exact giveUp_cases h
  | returnDone => exact returnDone_cases h
  | returnCancelled => exact returnCancelled_cases h
  | cancel =>
      obtain rfl := Option.some.inj h
      exact .cancels
  | closeClaim topic => exact closeClaim_cases h

theorem wgDone_eq (s : CgSession) :
    s.wgDone = { s with
      wgMessages := s.wgMessages - 1
      panicked := if 0 < s.wgMessages then s.panicked else some .negativeCounter } := by
  unfold wgDone
  by_cases hwg : 0 < s.wgMessages
  · rw [if_pos hwg, if_neg (by dsimp only; omega)]
  · rw [if_neg hwg, if_pos (by dsimp only; omega)]

inductive Marks (s : CgSession) (topic : String) (offset : Nat) (qs : QueueSession) : CgSession →
    Prop where
  | waiting (hwaiting : s.isWaiting (makeMsgKey topic offset) = true) (hwg : 0 < s.wgMessages) :
      Marks s topic offset qs { s with
        queues := s.queues.insert topic (qs.setHwmIfNewer (offset + 1))
        waitingMessages := s.waitingMessages.erase (makeMsgKey topic offset)
        wgMessages := s.wgMessages - 1
        history := .marked topic offset :: s.history }
  | negative (hwaiting : s.isWaiting (makeMsgKey topic offset) = true) (hwg : s.wgMessages ≤ 0) :
      Marks s topic offset qs { s with
        wgMessages := s.wgMessages - 1
        panicked := some .negativeCounter
        history := .marked topic offset :: s.history }
  | again (hdone : s.isWaiting (makeMsgKey topic offset) = false) :
      Marks s topic offset qs { s with
        queues := s.queues.insert topic (qs.setHwmIfNewer (offset + 1))
        history := .marked topic offset :: s.history }

theorem markOffset_cases {topic : String} {offset : Nat} {qs : QueueSession}
    (hnone : s.panicked = none) (hqs : s.queues.lookup topic = some qs) :
    Marks s topic offset qs (s.markOffset topic offset) := by
  unfold markOffset
  let marked : CgSession := { s with history := .marked topic offset :: s.history }
  cases hwaiting : s.isWaiting (makeMsgKey topic offset) with
  | true =>
      rw [if_pos (show marked.isWaiting _ = true from hwaiting), wgDone_eq]
      unfold raiseHwm
      dsimp only
      by_cases hwg : 0 < s.wgMessages
      · rw [if_pos hwg, if_pos hnone, hqs]
        exact .waiting hwaiting hwg
      · rw [if_neg hwg, if_neg (Option.some_ne_none _)]
        exact .negative hwaiting (Int.not_lt.mp hwg)
  | false =>
      rw [if_neg (show ¬ marked.isWaiting _ = true from Bool.eq_false_iff.mp hwaiting), raiseHwm]
      dsimp only
      rw [hqs]
      exact .again hwaiting

/-! ### Queues and claims belong together -/

structure Linked (s : CgSession) : Prop where
  queue_topic : ∀ topic qs, s.queues.lookup topic = some qs → qs.queue.topic = topic
  claim_topic : ∀ topic claim, s.claims.lookup topic = some claim →
    claim.topic = topic ∧ ∀ msg ∈ claim.sent, msg.topic = topic
  claimed : ∀ topic, topic ∈ s.queues ↔ topic ∈ s.claims
  visiting : ∀ c, s.catchup = some c → ∀ topic ∈ c.pc.topics, topic ∈ s.queues

theorem lookup_newCgSession (tt : TopicQueues) (topics : List String) (topic : String) :
    (newCgSession tt topics).queues.lookup topic
      = if topic ∈ topics then some ⟨tt.getOrCreateQueue topic, 0⟩ else none :=
  Maps.lookup_foldl_insert (fun topic => (⟨tt.getOrCreateQueue topic, 0⟩ : QueueSession)) topics ∅
    topic

theorem lookup_claims_newCgSession (tt : TopicQueues) (topics : List String) (topic : String) :
    (newCgSession tt topics).claims.lookup topic
      = if topic ∈ topics then some (newCgClaim topic) else none :=
  Maps.lookup_foldl_insert newCgClaim topics ∅ topic

theorem topic_getOrCreateQueue (tt : TopicQueues) (topic : String) :
    (tt.getOrCreateQueue topic).topic = topic := by
  unfold TopicQueues.getOrCreateQueue
  cases hq : tt.topicQueues.lookup topic with
  | none => rfl
  | some q => exact tt.topic_eq topic q hq

theorem linked_new (tt : TopicQueues) (topics : List String) : Linked (newCgSession tt topics) where
  queue_topic := by
    intro topic qs hqs
    rw [lookup_newCgSession] at hqs
    obtain ⟨-, rfl⟩ := guard_eq_some.mp hqs
    exact topic_getOrCreateQueue tt topic
  claim_topic := by
    intro topic claim hclaim
    rw [lookup_claims_newCgSession] at hclaim
    obtain ⟨-, rfl⟩ := guard_eq_some.mp hclaim
    exact ⟨rfl, fun msg hmsg => absurd hmsg List.not_mem_nil⟩
  claimed := by
    intro topic
    rw [← AList.lookup_isSome, ← AList.lookup_isSome, lookup_newCgSession,
      lookup_claims_newCgSession]
    split <;> rfl
  visiting := fun c hc => absurd hc.symm (Option.some_ne_none c)

namespace Linked

theorem of_eq (h : Linked s) (hqueues : s'.queues = s.queues) (hclaims : s'.claims = s.claims)
    (hcatchup : s'.catchup = s.catchup) : Linked s' where
  queue_topic := hqueues ▸ h.queue_topic
  claim_topic := hclaims ▸ h.claim_topic
  claimed := by rw [hqueues, hclaims]; exact h.claimed
  visiting := by rw [hqueues, hcatchup]; exact h.visiting

theorem setQueue (h : Linked s) {topic : String} {qs qs' : QueueSession}
    (hqs : s.queues.lookup topic = some qs) (htopic : qs'.queue.topic = qs.queue.topic) :
    Linked { s with queues := s.queues.insert topic qs' } where
  queue_topic := forall_lookup_insert (htopic.trans (h.queue_topic topic qs hqs)) h.queue_topic
  claim_topic := h.claim_topic
  claimed := fun other => (mem_insert_of_lookup hqs qs' other).trans (h.claimed other)
  visiting := fun c hc other hother =>
    (mem_insert_of_lookup hqs qs' other).mpr (h.visiting c hc other hother)

theorem setClaim (h : Linked s) {topic : String} {claim claim' : CgClaim}
    (hclaim : s.claims.lookup topic = some claim)
    (htopic : claim'.topic = topic ∧ ∀ msg ∈ claim'.sent, msg.topic = topic) :
    Linked { s with claims := s.claims.insert topic claim' } where
  queue_topic := h.queue_topic
  claim_topic := forall_lookup_insert htopic h.claim_topic
  claimed := fun other => (h.claimed other).trans (mem_insert_of_lookup hclaim claim' other).symm
  visiting := h.visiting

/-- The call goes on, with no topics other than those it had to do with. -/
theorem goOn (h : Linked s) {c c' : Catchup} (hc : s.catchup = some c)
    (hqueues : s'.queues = s.queues) (hclaims : s'.claims = s.claims)
    (hcatchup : s'.catchup = some c') (hpc : ∀ topic ∈ c'.pc.topics, topic ∈ c.pc.topics) :
    Linked s' where
  queue_topic := hqueues ▸ h.queue_topic
  claim_topic := hclaims ▸ h.claim_topic
  claimed := by rw [hqueues, hclaims]; exact h.claimed
  visiting := by
    intro c'' hc'' topic htopic
    obtain rfl := Option.some.inj (hcatchup.symm.trans hc'')
    rw [hqueues]
    exact h.visiting c hc topic (hpc topic htopic)

/-- The call has returned. -/
theorem returns (h : Linked s) (hqueues : s'.queues = s.queues) (hclaims : s'.claims = s.claims)
    (hcatchup : s'.catchup = none) : Linked s' where
  queue_topic := hqueues ▸ h.queue_topic
  claim_topic := hclaims ▸ h.claim_topic
  claimed := by rw [hqueues, hclaims]; exact h.claimed
  visiting := fun c hc => absurd (hc.symm.trans hcatchup) (Option.some_ne_none c)

theorem claim_of_visiting (h : Linked s) {c : Catchup} (hc : s.catchup = some c) {topic : String}
    (htopic : topic ∈ c.pc.topics) : s.claims.lookup topic ≠ none := by
  intro hnone
  exact AList.lookup_eq_none.mp hnone ((h.claimed topic).mp (h.visiting c hc topic htopic))

theorem queue_of_sent (h : Linked s) {topic : String} {i : Nat} {claim : CgClaim}
    {msg : ConsumerMessage} (hclaim : s.claims.lookup topic = some claim)
    (hmsg : claim.sent[i]? = some msg) :
    msg.topic = topic ∧ ∃ qs, s.queues.lookup topic = some qs := by
  refine ⟨(h.claim_topic topic claim hclaim).2 msg (List.mem_of_getElem? hmsg), ?_⟩
  have hmem : topic ∈ s.claims := AList.lookup_isSome.mp (Option.isSome_of_mem hclaim)
  exact Option.isSome_iff_exists.mp (AList.lookup_isSome.mpr ((h.claimed topic).mpr hmem))

end Linked

@[simp]
theorem queue_setHwmIfNewer (qs : QueueSession) (hwm : Nat) :
    (qs.setHwmIfNewer hwm).queue = qs.queue := by
  unfold QueueSession.setHwmIfNewer
  split <;> rfl

theorem Linked.mark (h : Linked s) {topic : String} {offset : Nat} {qs : QueueSession}
    (hqs : s.queues.lookup topic = some qs) (hmarks : Marks s topic offset qs s') : Linked s' := by
  have hset := h.setQueue hqs (congrArg Queue.topic (queue_setHwmIfNewer qs (offset + 1)))
  cases hmarks with
  | waiting hwaiting hwg => exact hset.of_eq rfl rfl rfl
  | negative hwaiting hwg => exact h.of_eq rfl rfl rfl
  | again hdone => exact hset.of_eq rfl rfl rfl

/-- The queues and the claims of a session are made together, and no step separates them. -/
theorem linked_step {action : Action} (h : Linked s) (hnone : s.panicked = none)
    (hstep : Step s action s') : Linked s' := by
  cases hstep with
  | pushes key value hdr hqs => exact h.setQueue hqs rfl
  | marks hclaim hmsg =>
      obtain ⟨htopic, qs, hqs⟩ := h.queue_of_sent hclaim hmsg
      rw [htopic]
      exact h.mark hqs (markOffset_cases hnone hqs)
  | begins hfree hperm =>
      refine ⟨h.queue_topic, h.claim_topic, h.claimed, fun c hc topic htopic => ?_⟩
      obtain rfl := Option.some.inj hc
      exact AList.mem_keys.mpr (hperm.mem_iff.mp htopic)
  | waits hc hpc => exact h.goOn hc rfl rfl rfl fun topic htopic => absurd htopic List.not_mem_nil
  | reads hc hpc hqs =>
      refine h.goOn hc rfl rfl rfl fun topic htopic => ?_
      rw [hpc]
      exact htopic
  | pulls hc hpc hqs hle =>
      refine h.goOn hc rfl rfl rfl fun topic htopic => ?_
      rw [hpc, CatchupPc.topics, ← h.queue_topic _ _ hqs]
      exact htopic
  | leaves hc hpc =>
      refine h.goOn hc rfl rfl rfl fun topic htopic => ?_
      rw [hpc]
      exact List.mem_cons_of_mem _ htopic
  | records hc hpc hclaim hnew | adds hc hpc =>
      refine h.goOn hc rfl rfl rfl fun topic htopic => ?_
      rw [hpc]
      exact htopic
  | sends hc hpc hclaim hopen =>
      obtain ⟨htopic, hsent⟩ := h.claim_topic _ _ hclaim
      refine (h.setClaim hclaim ?_).goOn hc rfl rfl rfl fun topic htopic => ?_
      · exact ⟨htopic, List.forall_mem_append.mpr ⟨hsent, List.forall_mem_singleton.mpr htopic⟩⟩
      · rw [hpc]
        exact htopic
  | givesUp hc hpc hcancelled =>
      rw [wgDone_eq]
      refine h.goOn hc rfl rfl rfl fun topic htopic => ?_
      rw [hpc]
      exact htopic
  | returnsDone hc hpc hwg => exact h.returns rfl rfl rfl
  | returnsCancelled hc hpc hcancelled => exact h.returns rfl rfl rfl
  | closes hclaim hcancelled hopen =>
      have htopic := h.claim_topic _ _ hclaim
      exact h.setClaim hclaim htopic
  | _ => exact h.of_eq rfl rfl rfl

/-! ### The messages that wait -/

def unmarked : List HistoryEvent → String → Nat → Bool
  | [], _, _ => false
  | .recorded topic' offset' :: rest, topic, offset =>
      if topic' = topic ∧ offset' = offset then true else unmarked rest topic offset
  | .marked topic' offset' :: rest, topic, offset =>
      if topic' = topic ∧ offset' = offset then false else unmarked rest topic offset

theorem unmarked_recorded {history : List HistoryEvent} {topic topic' : String}
    {offset offset' : Nat} :
    unmarked (.recorded topic' offset' :: history) topic offset = true ↔
      (topic' = topic ∧ offset' = offset) ∨ unmarked history topic offset = true := by
  rw [unmarked]
  split <;> simp [*]

theorem unmarked_marked {history : List HistoryEvent} {topic topic' : String}
    {offset offset' : Nat} :
    unmarked (.marked topic' offset' :: history) topic offset = true ↔
      ¬ (topic' = topic ∧ offset' = offset) ∧ unmarked history topic offset = true := by
  rw [unmarked]
  split <;> simp [*]

structure Recorded (s : CgSession) : Prop where
  all_true : ∀ msgKey waiting, s.waitingMessages.lookup msgKey = some waiting → waiting = true
  mem_iff : ∀ msgKey, msgKey ∈ s.waitingMessages ↔
    ∃ topic offset, makeMsgKey topic offset = msgKey ∧ unmarked s.history topic offset = true

theorem recorded_new (tt : TopicQueues) (topics : List String) :
    Recorded (newCgSession tt topics) where
  all_true := fun msgKey waiting h => absurd h.symm (Option.some_ne_none waiting)
  mem_iff := by
    intro msgKey
    refine iff_of_false (AList.notMem_empty msgKey) ?_
    rintro ⟨topic, offset, -, hunmarked⟩
    exact Bool.false_ne_true hunmarked

namespace Recorded

theorem of_eq (h : Recorded s) (hwaiting : s'.waitingMessages = s.waitingMessages)
    (hhistory : s'.history = s.history) : Recorded s' where
  all_true := hwaiting ▸ h.all_true
  mem_iff := by rw [hwaiting, hhistory]; exact h.mem_iff

theorem isWaiting_iff (h : Recorded s) {msgKey : String} :
    s.isWaiting msgKey = true ↔ msgKey ∈ s.waitingMessages := by
  unfold isWaiting
  rw [← AList.lookup_isSome]
  cases hwaiting : s.waitingMessages.lookup msgKey with
  | none => exact iff_of_false Bool.false_ne_true Bool.false_ne_true
  | some waiting => exact iff_of_true (h.all_true msgKey waiting hwaiting) rfl

theorem makeMsgKey_mem (h : Recorded s) {topic : String} {offset : Nat} :
    makeMsgKey topic offset ∈ s.waitingMessages ↔ unmarked s.history topic offset = true := by
  rw [h.mem_iff]
  constructor
  · rintro ⟨topic', offset', hkey, hunmarked⟩
    obtain ⟨rfl, rfl⟩ := makeMsgKey_inj.mp hkey
    exact hunmarked
  · exact fun hunmarked => ⟨topic, offset, rfl, hunmarked⟩

theorem isWaiting_eq (h : Recorded s) (topic : String) (offset : Nat) :
    s.isWaiting (makeMsgKey topic offset) = unmarked s.history topic offset :=
  Bool.eq_iff_iff.mpr (h.isWaiting_iff.trans h.makeMsgKey_mem)

/-- A message that is recorded waits, whether or not it has before. -/
theorem record (h : Recorded s) {topic : String} {offset : Nat}
    (hwaiting : s'.waitingMessages = s.waitingMessages.insert (makeMsgKey topic offset) true)
    (hhistory : s'.history = .recorded topic offset :: s.history) : Recorded s' where
  all_true := by
    rw [hwaiting]
    exact forall_lookup_insert (P := fun _ waiting => waiting = true) rfl h.all_true
  mem_iff := by
    intro msgKey
    rw [hwaiting, hhistory, AList.mem_insert, h.mem_iff]
    simp only [unmarked_recorded]
    constructor
    · rintro (rfl | ⟨topic', offset', hkey, hunmarked⟩)
      · exact ⟨topic, offset, rfl, .inl ⟨rfl, rfl⟩⟩
      · exact ⟨topic', offset', hkey, .inr hunmarked⟩
    · rintro ⟨topic', offset', rfl, ⟨rfl, rfl⟩ | hunmarked⟩
      · exact .inl rfl
      · exact .inr ⟨topic', offset', rfl, hunmarked⟩

/-- A message that is marked does not wait any more, and no other changes. -/
theorem erase (h : Recorded s) {topic : String} {offset : Nat}
    (hwaiting : s'.waitingMessages = s.waitingMessages.erase (makeMsgKey topic offset))
    (hhistory : s'.history = .marked topic offset :: s.history) : Recorded s' where
  all_true := by
    intro msgKey waiting hlookup
    rw [hwaiting] at hlookup
    rcases eq_or_ne msgKey (makeMsgKey topic offset) with rfl | hne
    · rw [AList.lookup_erase] at hlookup
      exact absurd hlookup.symm (Option.some_ne_none waiting)
    · rw [AList.lookup_erase_ne hne] at hlookup
      exact h.all_true msgKey waiting hlookup
  mem_iff := by
    intro msgKey
    rw [hwaiting, hhistory, AList.mem_erase, h.mem_iff]
    simp only [unmarked_marked]
    constructor
    · rintro ⟨hne, topic', offset', rfl, hunmarked⟩
      exact ⟨topic', offset', rfl, fun hsame => hne (makeMsgKey_inj.mpr hsame).symm, hunmarked⟩
    · rintro ⟨topic', offset', rfl, hother, hunmarked⟩
      exact ⟨fun hsame => hother (makeMsgKey_inj.mp hsame.symm), topic', offset', rfl, hunmarked⟩

/-- A mark of a message that does not wait changes nothing. -/
theorem markAgain (h : Recorded s) {topic : String} {offset : Nat}
    (hdone : s.isWaiting (makeMsgKey topic offset) = false)
    (hwaiting : s'.waitingMessages = s.waitingMessages)
    (hhistory : s'.history = .marked topic offset :: s.history) : Recorded s' where
  all_true := hwaiting ▸ h.all_true
  mem_iff := by
    intro msgKey
    rw [hwaiting, hhistory, h.mem_iff]
    simp only [unmarked_marked]
    constructor
    · rintro ⟨topic', offset', hkey, hunmarked⟩
      refine ⟨topic', offset', hkey, ?_, hunmarked⟩
      rintro ⟨rfl, rfl⟩
      rw [h.isWaiting_eq] at hdone
      exact Bool.false_ne_true (hdone.symm.trans hunmarked)
    · rintro ⟨topic', offset', hkey, -, hunmarked⟩
      exact ⟨topic', offset', hkey, hunmarked⟩

theorem mark (h : Recorded s) {topic : String} {offset : Nat} {qs : QueueSession}
    (hmarks : Marks s topic offset qs s') (hnone : s'.panicked = none) : Recorded s' := by
  cases hmarks with
  | waiting hwaiting hwg => exact h.erase rfl rfl
  | negative hwaiting hwg => exact absurd hnone (Option.some_ne_none _)
  | again hdone => exact h.markAgain hdone rfl rfl

end Recorded

/-- As long as no panic ends the program. -/
theorem recorded_step {action : Action} (hlinked : Linked s) (h : Recorded s)
    (hnone : s.panicked = none) (hstep : Step s action s') (hnone' : s'.panicked = none) :
    Recorded s' := by
  cases hstep with
  | marks hclaim hmsg =>
      obtain ⟨htopic, qs, hqs⟩ := hlinked.queue_of_sent hclaim hmsg
      rw [htopic] at hnone' ⊢
      exact h.mark (markOffset_cases hnone hqs) hnone'
  | records hc hpc hclaim hnew => exact h.record rfl rfl
  | givesUp hc hpc hcancelled =>
      rw [wgDone_eq]
      exact h.of_eq rfl rfl
  | _ => exact h.of_eq rfl rfl

/-! ### The wait group counts the messages that wait -/

def uncounted (s : CgSession) : Int :=
  match s.catchup with
  | some ⟨.adding .., _, _⟩ => 1
  | _ => 0

/-- The panic on a duplicate offset has not been reached, and the wait group stands at the number of
waiting messages, up to the one that `pushMessageToClaim` has just recorded. -/
structure Sound (s : CgSession) : Prop where
  no_duplicate : ∀ topic offset, s.panicked ≠ some (.duplicateOffset topic offset)
  counted : s.wgMessages + s.uncounted = s.waitingMessages.keys.length

theorem sound_new (tt : TopicQueues) (topics : List String) : Sound (newCgSession tt topics) where
  no_duplicate := fun _ _ => nofun
  counted := rfl

theorem uncounted_of_none (h : s.catchup = none) : s.uncounted = 0 := by
  rw [uncounted, h]

theorem uncounted_eq {c : Catchup} {pc : CatchupPc} (hc : s.catchup = some c) (hpc : c.pc = pc) :
    s.uncounted = if pc matches .adding .. then 1 else 0 := by
  obtain ⟨pc, msgPushed, found⟩ := c
  subst hpc
  rw [uncounted, hc]
  cases pc <;> rfl

/-- The steps that keep a session sound: no push gives up, no message is pushed that has been
recorded and not marked since, and no such message is marked while the wait group stands at zero. -/
def Orderly (s : CgSession) : Action → Prop
  | .giveUp => False
  | .proceed =>
      ∀ c topic msg msgs rest, s.catchup = some c → c.pc = .pushing topic (msg :: msgs) rest →
      unmarked s.history topic msg.offset = false
  | .markMessage topic i =>
      ∀ claim msg, s.claims.lookup topic = some claim → claim.sent[i]? = some msg →
      s.wgMessages = 0 → unmarked s.history msg.topic msg.offset = false
  | _ => True

namespace Sound

theorem of_eq (h : Sound s) (hwg : s'.wgMessages = s.wgMessages)
    (hwaiting : s'.waitingMessages = s.waitingMessages) (hcatchup : s'.uncounted = s.uncounted)
    (hpanicked : ∀ topic offset, s'.panicked ≠ some (.duplicateOffset topic offset)) :
    Sound s' where
  no_duplicate := hpanicked
  counted := by rw [hwg, hwaiting, hcatchup]; exact h.counted

/-- The mark of a waiting message takes one from the wait group, which must not stand at zero. -/
theorem mark_iff (h : Sound s) (hrecorded : Recorded s) {topic : String} {offset : Nat}
    {qs : QueueSession} (hmarks : Marks s topic offset qs s') :
    Sound s' ↔ (s.wgMessages = 0 → unmarked s.history topic offset = false) := by
  have hcounted := h.counted
  rw [← hrecorded.isWaiting_eq]
  cases hmarks with
  | waiting hwaiting hwg =>
      refine iff_of_true ⟨h.no_duplicate, ?_⟩ fun hzero => absurd hzero (Int.ne_of_gt hwg)
      have hlength := length_keys_erase (hrecorded.isWaiting_iff.mp hwaiting)
      have hcounted' : s.wgMessages - 1 + s.uncounted
          = (s.waitingMessages.erase (makeMsgKey topic offset)).keys.length := by omega
      exact hcounted'
  | negative hwaiting hwg =>
      have hpos := length_keys_erase (hrecorded.isWaiting_iff.mp hwaiting)
      have hle : s.uncounted ≤ 1 := by
        unfold uncounted
        split <;> decide
      refine iff_of_false (fun h' => ?_) fun hzero => ?_
      · have hcounted' : s.wgMessages - 1 + s.uncounted = s.waitingMessages.keys.length :=
          h'.counted
        omega
      · exact absurd (hwaiting.symm.trans (hzero (by omega))) Bool.true_eq_false.mp
  | again hdone => exact iff_of_true (h.of_eq rfl rfl rfl h.no_duplicate) fun _ => hdone

end Sound

theorem orderly_proceed {c : Catchup} (hc : s.catchup = some c)
    (hpc : ∀ topic msg msgs rest, c.pc ≠ .pushing topic (msg :: msgs) rest) :
    Orderly s .proceed := by
  intro c' topic msg msgs rest hc' hpc'
  obtain rfl := Option.some.inj (hc.symm.trans hc')
  exact absurd hpc' (hpc topic msg msgs rest)

theorem orderly_push_iff {c : Catchup} {topic : String} {msg : Message} {msgs : List Message}
    {rest : List String} (hc : s.catchup = some c)
    (hpc : c.pc = .pushing topic (msg :: msgs) rest) :
    Orderly s .proceed ↔ unmarked s.history topic msg.offset = false := by
  constructor
  · exact fun h => h c topic msg msgs rest hc hpc
  · intro h c' topic' msg' msgs' rest' hc' hpc'
    obtain rfl := Option.some.inj (hc.symm.trans hc')
    obtain ⟨rfl, hmsgs, -⟩ := CatchupPc.pushing.inj (hpc.symm.trans hpc')
    obtain ⟨rfl, -⟩ := List.cons.inj hmsgs
    exact h

theorem orderly_mark_iff {topic : String} {i : Nat} {claim : CgClaim} {msg : ConsumerMessage}
    (hclaim : s.claims.lookup topic = some claim) (hmsg : claim.sent[i]? = some msg) :
    Orderly s (.markMessage topic i) ↔
      (s.wgMessages = 0 → unmarked s.history msg.topic msg.offset = false) := by
  constructor
  · exact fun h => h claim msg hclaim hmsg
  · intro h claim' msg' hclaim' hmsg'
    obtain rfl := Option.some.inj (hclaim.symm.trans hclaim')
    obtain rfl := Option.some.inj (hmsg.symm.trans hmsg')
    exact h

/-- Being orderly is exactly what keeps a session sound, one case for each constructor of `Step`. -/
theorem sound_step_iff {action : Action} (hlinked : Linked s) (hrecorded : Recorded s) (h : Sound s)
    (hnone : s.panicked = none) (hstep : Step s action s') : Sound s' ↔ Orderly s action := by
  have hcounted := h.counted
  cases hstep with
  | marks hclaim hmsg =>
      obtain ⟨htopic, qs, hqs⟩ := hlinked.queue_of_sent hclaim hmsg
      rw [orderly_mark_iff hclaim hmsg, htopic]
      exact h.mark_iff hrecorded (markOffset_cases hnone hqs)
  | begins hfree hperm =>
      exact iff_of_true (h.of_eq rfl rfl (uncounted_of_none hfree).symm h.no_duplicate) trivial
  | waits hc hpc | reads hc hpc hqs | pulls hc hpc hqs hle | leaves hc hpc =>
      refine iff_of_true (h.of_eq rfl rfl (uncounted_eq hc hpc).symm h.no_duplicate)
        (orderly_proceed hc ?_)
      intro topic msg msgs rest
      rw [hpc]
      nofun
  | pullPanics hc hpc hqs hlt =>
      refine iff_of_true (h.of_eq rfl rfl rfl fun _ _ => nofun) (orderly_proceed hc ?_)
      intro topic msg msgs rest
      rw [hpc]
      nofun
  | @records c topic msg msgs rest claim hc hpc hclaim hnew =>
      have hlength := length_keys_insert
        (mt hrecorded.isWaiting_iff.mpr (Bool.eq_false_iff.mp hnew)) true
      have hzero : s.uncounted = 0 := uncounted_eq hc hpc
      have hcounted' : s.wgMessages + 1
          = (s.waitingMessages.insert (makeMsgKey claim.topic msg.offset) true).keys.length := by
        rw [hlength]
        push_cast
        omega
      rw [orderly_push_iff hc hpc, ← hrecorded.isWaiting_eq,
        ← (hlinked.claim_topic topic claim hclaim).1]
      exact iff_of_true ⟨h.no_duplicate, hcounted'⟩ hnew
  | @duplicates c topic msg msgs rest claim hc hpc hclaim hwaiting =>
      rw [orderly_push_iff hc hpc, ← hrecorded.isWaiting_eq,
        ← (hlinked.claim_topic topic claim hclaim).1, hwaiting]
      exact iff_of_false (fun h' => h'.no_duplicate _ _ rfl) nofun
  | recordPanics hc hpc hclaim =>
      refine absurd hclaim (hlinked.claim_of_visiting hc ?_)
      rw [hpc]
      exact List.mem_cons_self
  | adds hc hpc =>
      have hone : s.uncounted = 1 := uncounted_eq hc hpc
      have hcounted' : s.wgMessages + 1 + 0 = s.waitingMessages.keys.length := by omega
      refine iff_of_true ⟨h.no_duplicate, hcounted'⟩ (orderly_proceed hc ?_)
      intro topic msg msgs rest
      rw [hpc]
      nofun
  | sends hc hpc hclaim hopen =>
      exact iff_of_true (h.of_eq rfl rfl (uncounted_eq hc hpc).symm h.no_duplicate) trivial
  | sendPanics hc hpc hclaim hclosed =>
      exact iff_of_true (h.of_eq rfl rfl rfl fun _ _ => nofun) trivial
  | givesUp hc hpc hcancelled =>
      have hzero : s.uncounted = 0 := uncounted_eq hc hpc
      refine iff_of_false (fun h' => ?_) id
      rw [wgDone_eq] at h'
      have hcounted' : s.wgMessages - 1 + 0 = s.waitingMessages.keys.length := h'.counted
      omega
  | returnsDone hc hpc hwg =>
      exact iff_of_true (h.of_eq rfl rfl (uncounted_eq hc hpc).symm h.no_duplicate) trivial
  | returnsCancelled hc hpc hcancelled =>
      exact iff_of_true (h.of_eq rfl rfl (uncounted_eq hc hpc).symm h.no_duplicate) trivial
  | _ => exact iff_of_true (h.of_eq rfl rfl rfl h.no_duplicate) trivial

/-- A run of a session, cancelled at any moment, stays sound exactly as long as its steps are
orderly. -/
theorem sound_iff_orderly (tt : TopicQueues) (topics : List String) (actions : List Action) :
    (∀ n, Sound (run step (newCgSession tt topics) (actions.take n))) ↔
      ∀ t ∈ transitions step (newCgSession tt topics) actions, Orderly t.1 t.2.1 := by
  refine forall_take_iff (fun s => s.panicked = none → Linked s ∧ Recorded s) Orderly ?_ ?_ ?_
    (sound_new tt topics)
  · intro s action s' hinv hstep hnone'
    obtain ⟨hnone, hstep⟩ := step_cases hstep
    obtain ⟨hlinked, hrecorded⟩ := hinv hnone
    exact ⟨linked_step hlinked hnone hstep, recorded_step hlinked hrecorded hnone hstep hnone'⟩
  · intro s action s' hinv hsound hstep
    obtain ⟨hnone, hstep⟩ := step_cases hstep
    obtain ⟨hlinked, hrecorded⟩ := hinv hnone
    exact sound_step_iff hlinked hrecorded hsound hnone hstep
  · exact fun _ => ⟨linked_new tt topics, recorded_new tt topics⟩

def noQueues : TopicQueues where
  topicQueues := ∅
  topic_eq := fun _ q hq => absurd hq.symm (Option.some_ne_none q)

def pushFirst : List Action := [.catchupAndWait ["t"], .proceed, .proceed, .proceed, .proceed]

def leave : List Action := [.proceed, .proceed, .returnCancelled]

/-- A push that gives up leaves the message recorded as waiting and not counted. The next call
pushes it again, and so does the next call after one that has returned before a message it delivered
was marked. -/
theorem second_catchup_panics :
    (∃ s, run step (newCgSession noQueues ["t"])
        ([.push "t" [] none none, .cancel] ++ pushFirst ++ [.giveUp] ++ leave) = s ∧
      s.catchup.isNone = true ∧ s.wgMessages = 0 ∧ s.waitingMessages.keys = ["t-0"]) ∧
    (run step (newCgSession noQueues ["t"])
        ([.push "t" [] none none, .cancel] ++ pushFirst ++ [.giveUp] ++ leave ++
          pushFirst)).panicked.map
      SessionPanic.text
      = some ("There's a duplicate message offset in the same topic/partition t/0: 0. " ++
        "The tester has a bug!") ∧
    (run step (newCgSession noQueues ["t"])
        ([.push "t" [] none none] ++ pushFirst ++ [.send, .cancel] ++ leave ++ pushFirst)).panicked
      = some (.duplicateOffset "t" 0) := by
  refine ⟨⟨_, rfl, ?_, ?_, ?_⟩, ?_, ?_⟩
  · decide +kernel
  · decide +kernel
  · decide +kernel
  · decide +kernel
  · decide +kernel

end CgSession

end Tester

end Goka

import Goka.Proof.ConsumerGroup
import Mathlib.Data.List.Infix

/-!
# The tester's consumer group delivers exactly once

While the context is open, what a claim was sent is the first part of its queue. A call of
`catchupAndWait` begins with every message that was sent marked, so the mark reached last stands at
the end of that part, and the call goes on from there. It returns when the wait group is at zero,
and then the same holds again.
-/

namespace Goka

namespace Tester

namespace CatchupPc

def ahead : CatchupPc → List String
  | .ranging rest | .pushing _ _ rest | .adding _ _ _ rest | .sending _ _ _ rest => rest
  | .reading topic _ rest => topic :: rest
  | .waiting => []

def pending : CatchupPc → Option (String × List Message)
  | .pushing topic msgs _ => some (topic, msgs)
  | .adding topic msg msgs _ | .sending topic msg msgs _ => some (topic, msg :: msgs)
  | .ranging _ | .reading .. | .waiting => none

def inFlight : CatchupPc → Option (String × Nat)
  | .adding topic msg _ _ | .sending topic msg _ _ => some (topic, msg.offset)
  | .ranging _ | .reading .. | .pushing .. | .waiting => none

end CatchupPc

namespace CgSession

open Schedule Maps

variable {s s' : CgSession} {topic : String}

def messagesOf (s : CgSession) (topic : String) : List Message :=
  (s.queues.lookup topic).elim [] fun qs => qs.queue.messages

def hwmOf (s : CgSession) (topic : String) : Nat := (s.queues.lookup topic).elim 0 QueueSession.hwm

def sentOf (s : CgSession) (topic : String) : List ConsumerMessage :=
  (s.claims.lookup topic).elim [] CgClaim.sent

def inFlight (s : CgSession) : Option (String × Nat) := s.catchup.bind fun c => c.pc.inFlight

theorem messagesOf_eq {qs : QueueSession} (h : s.queues.lookup topic = some qs) :
    s.messagesOf topic = qs.queue.messages := by
  rw [messagesOf, h]
  rfl

theorem hwmOf_eq {qs : QueueSession} (h : s.queues.lookup topic = some qs) :
    s.hwmOf topic = qs.hwm := by
  rw [hwmOf, h]
  rfl

theorem sentOf_eq {claim : CgClaim} (h : s.claims.lookup topic = some claim) :
    s.sentOf topic = claim.sent := by
  rw [sentOf, h]
  rfl

theorem inFlight_eq {c : Catchup} {pc : CatchupPc} (hc : s.catchup = some c) (hpc : c.pc = pc) :
    s.inFlight = pc.inFlight := by
  rw [inFlight, hc, ← hpc]
  rfl

theorem offset_of_messagesOf {i : Nat} {msg : Message} (h : (s.messagesOf topic)[i]? = some msg) :
    msg.offset = i := by
  cases hqs : s.queues.lookup topic with
  | none =>
      rw [messagesOf, hqs] at h
      exact absurd h.symm (Option.some_ne_none msg)
  | some qs =>
      rw [messagesOf_eq hqs] at h
      exact qs.queue.offset_eq i msg h

/-! ### One topic -/

structure Lane (s : CgSession) (topic : String) : Prop where
  sent : s.sentOf topic <+: (s.messagesOf topic).map fun msg => msg.consumerMessage topic
  hwm_le : s.hwmOf topic ≤ (s.sentOf topic).length
  marked_lt : ∀ offset, .marked topic offset ∈ s.history → offset < s.hwmOf topic
  recorded_iff : ∀ offset, .recorded topic offset ∈ s.history ↔
    offset < (s.sentOf topic).length ∨ s.inFlight = some (topic, offset)

/-- Every message sent lies below the mark reached so far. -/
def CaughtUp (s : CgSession) (topic : String) : Prop := s.hwmOf topic = (s.sentOf topic).length

theorem Lane.of_eq (h : Lane s topic) (hmessages : s'.messagesOf topic = s.messagesOf topic)
    (hhwm : s'.hwmOf topic = s.hwmOf topic) (hsent : s'.sentOf topic = s.sentOf topic)
    (hhistory : s'.history = s.history) (hflight : s'.inFlight = s.inFlight) : Lane s' topic where
  sent := by rw [hmessages, hsent]; exact h.sent
  hwm_le := by rw [hhwm, hsent]; exact h.hwm_le
  marked_lt := by rw [hhistory, hhwm]; exact h.marked_lt
  recorded_iff := by rw [hhistory, hsent, hflight]; exact h.recorded_iff

theorem Lane.length_le (h : Lane s topic) :
    (s.sentOf topic).length ≤ (s.messagesOf topic).length := by
  have hle := h.sent.length_le
  rwa [List.length_map] at hle

theorem Lane.offset_of_sent (h : Lane s topic) {i : Nat} {msg : ConsumerMessage}
    (hmsg : (s.sentOf topic)[i]? = some msg) : msg.offset = i := by
  obtain ⟨hlt, rfl⟩ := List.getElem?_eq_some_iff.mp hmsg
  have hget := List.prefix_iff_getElem?.mp h.sent i hlt
  rw [List.getElem?_map] at hget
  obtain ⟨queued, hqueued, heq⟩ := Option.map_eq_some_iff.mp hget
  rw [← heq]
  exact offset_of_messagesOf hqueued

theorem getElem?_of_cons_prefix_drop {α : Type} {l rest : List α} {a : α} {n : Nat}
    (h : a :: rest <+: l.drop n) : l[n]? = some a ∧ rest <+: l.drop (n + 1) := by
  obtain ⟨after, hafter⟩ := h
  constructor
  · rw [← Nat.add_zero n, ← List.getElem?_drop, ← hafter]
    rfl
  · rw [← List.drop_drop, ← hafter]
    exact List.prefix_append rest after

theorem concat_prefix {α : Type} {l l' : List α} {a : α} (h : l <+: l')
    (ha : l'[l.length]? = some a) :
    l ++ [a] <+: l' := by
  obtain ⟨after, rfl⟩ := h
  rw [List.getElem?_append_right le_rfl, Nat.sub_self] at ha
  rw [List.prefix_append_right_inj]
  cases after with
  | nil => exact absurd ha.symm (Option.some_ne_none a)
  | cons b after =>
      obtain rfl := Option.some.inj ha
      exact List.prefix_append [b] after

/-- The next message of the queue. -/
theorem offset_of_pending {msg : Message} {msgs : List Message}
    (hpending : msg :: msgs <+: (s.messagesOf topic).drop (s.sentOf topic).length) :
    msg.offset = (s.sentOf topic).length :=
  offset_of_messagesOf (getElem?_of_cons_prefix_drop hpending).1

theorem recorded_of_unmarked {history : List HistoryEvent} {offset : Nat}
    (h : unmarked history topic offset = true) : .recorded topic offset ∈ history := by
  induction history with
  | nil => exact absurd h Bool.false_ne_true
  | cons event history ih =>
      cases event with
      | recorded topic' offset' =>
          rcases unmarked_recorded.mp h with ⟨rfl, rfl⟩ | h
          · exact List.mem_cons_self
          · exact List.mem_cons_of_mem _ (ih h)
      | marked topic' offset' => exact List.mem_cons_of_mem _ (ih (unmarked_marked.mp h).2)

theorem marked_of_recorded {history : List HistoryEvent} {offset : Nat}
    (hrecorded : .recorded topic offset ∈ history)
    (hunmarked : unmarked history topic offset = false) :
    .marked topic offset ∈ history := by
  induction history with
  | nil => exact absurd hrecorded List.not_mem_nil
  | cons event history ih =>
      cases event with
      | recorded topic' offset' =>
          obtain ⟨hother, hrest⟩ :=
            not_or.mp (mt unmarked_recorded.mpr (Bool.eq_false_iff.mp hunmarked))
          rcases List.mem_cons.mp hrecorded with heq | hrecorded
          · obtain ⟨rfl, rfl⟩ := HistoryEvent.recorded.inj heq
            exact absurd ⟨rfl, rfl⟩ hother
          · exact List.mem_cons_of_mem _ (ih hrecorded (Bool.eq_false_iff.mpr hrest))
      | marked topic' offset' =>
          by_cases hsame : topic' = topic ∧ offset' = offset
          · obtain ⟨rfl, rfl⟩ := hsame
            exact List.mem_cons_self
          · rcases List.mem_cons.mp hrecorded with heq | hrecorded
            · exact HistoryEvent.noConfusion heq
            · refine List.mem_cons_of_mem _ (ih hrecorded (Bool.eq_false_iff.mpr fun hrest => ?_))
              exact Bool.false_ne_true (hunmarked.symm.trans (unmarked_marked.mpr ⟨hsame, hrest⟩))

/-- Where nothing waits, everything that was sent is marked. -/
theorem Lane.marked (h : Lane s topic)
    (hsettled : ∀ offset, unmarked s.history topic offset = false) {offset : Nat}
    (hlt : offset < (s.sentOf topic).length) : .marked topic offset ∈ s.history :=
  marked_of_recorded ((h.recorded_iff offset).mpr (.inl hlt)) (hsettled offset)

theorem Lane.caughtUp (h : Lane s topic)
    (hsettled : ∀ offset, unmarked s.history topic offset = false) :
    CaughtUp s topic := by
  refine le_antisymm h.hwm_le ?_
  by_contra hlt
  have hmarked := h.marked hsettled (Nat.lt_of_not_le hlt)
  exact absurd (h.marked_lt _ hmarked) (Nat.lt_irrefl _)

/-! ### The call under way -/

structure Stage (s : CgSession) (c : Catchup) : Prop where
  nodup : c.pc.topics.Nodup
  caughtUp : ∀ topic ∈ c.pc.ahead, CaughtUp s topic
  reading : ∀ topic queueHwm rest, c.pc = .reading topic queueHwm rest → queueHwm = s.hwmOf topic
  pending : ∀ topic msgs, c.pc.pending = some (topic, msgs) →
    msgs <+: (s.messagesOf topic).drop (s.sentOf topic).length
  found : ∀ topic msg, (topic, msg) ∈ c.found → msg.consumerMessage topic ∈ s.sentOf topic ∨
    ∃ msgs, c.pc.pending = some (topic, msgs) ∧ msg ∈ msgs

structure Delivering (s : CgSession) : Prop where
  uncancelled : s.cancelled = false
  open_claims : ∀ topic claim, s.claims.lookup topic = some claim → claim.closed = false
  lanes : ∀ topic, Lane s topic
  free : s.catchup = none → ∀ topic, CaughtUp s topic
  stage : ∀ c, s.catchup = some c → Stage s c

theorem delivering_new (tt : TopicQueues) (topics : List String) :
    Delivering (newCgSession tt topics) := by
  have hsent : ∀ topic, (newCgSession tt topics).sentOf topic = [] := by
    intro topic
    rw [sentOf, lookup_claims_newCgSession]
    split <;> rfl
  have hhwm : ∀ topic, (newCgSession tt topics).hwmOf topic = 0 := by
    intro topic
    rw [hwmOf, lookup_newCgSession]
    split <;> rfl
  refine ⟨rfl, ?_, fun topic => ⟨?_, ?_, ?_, ?_⟩, ?_, ?_⟩
  · intro topic claim hclaim
    rw [lookup_claims_newCgSession] at hclaim
    obtain ⟨-, rfl⟩ := guard_eq_some.mp hclaim
    rfl
  · rw [hsent]
    exact List.nil_prefix
  · rw [hhwm]
    exact Nat.zero_le _
  · exact fun offset hmarked => absurd hmarked List.not_mem_nil
  · intro offset
    rw [hsent]
    refine iff_of_false List.not_mem_nil ?_
    rintro (hlt | hflight)
    · exact absurd hlt (Nat.not_lt_zero _)
    · exact absurd hflight.symm (Option.some_ne_none _)
  · intro _ topic
    rw [CaughtUp, hsent, hhwm]
    rfl
  · exact fun c hc => absurd hc.symm (Option.some_ne_none c)

/-! ### No step goes wrong -/

theorem exists_adding (h : 0 < s.uncounted) :
    ∃ c topic msg msgs rest, s.catchup = some c ∧ c.pc = .adding topic msg msgs rest := by
  unfold uncounted at h
  split at h
  · rename_i topic msg msgs rest msgPushed found hc
    exact ⟨_, topic, msg, msgs, rest, hc, rfl⟩
  · exact absurd h (Int.lt_irrefl 0)

/-- Where the wait group is at zero and no message is being pushed, none waits. -/
theorem unmarked_eq_false (hrecorded : Recorded s) (hsound : Sound s) (hwg : s.wgMessages = 0)
    (hcounted : s.uncounted = 0) (topic : String) (offset : Nat) :
    unmarked s.history topic offset = false := by
  rw [Bool.eq_false_iff]
  intro hunmarked
  have hlength := length_keys_erase (hrecorded.makeMsgKey_mem.mpr hunmarked)
  have hsum := hsound.counted
  omega

theorem Marks.panicked_eq_none {offset : Nat} {qs : QueueSession} (h : Marks s topic offset qs s')
    (hnone : s.panicked = none) (hsound : Sound s) (hsound' : Sound s') : s'.panicked = none := by
  cases h with
  | negative hwaiting hwg =>
      have hcounted := hsound.counted
      have hcounted' : s.wgMessages - 1 + s.uncounted = s.waitingMessages.keys.length :=
        hsound'.counted
      omega
  | waiting hwaiting hwg => exact hnone
  | again hdone => exact hnone

theorem Marks.catchup_eq {offset : Nat} {qs : QueueSession} (h : Marks s topic offset qs s') :
    s'.catchup = s.catchup := by
  cases h <;> rfl

namespace Delivering

/-- The message a call has recorded and not sent is not marked. -/
theorem unmarked_inFlight (h : Delivering s) {c : Catchup} {topic : String} {msg : Message}
    {msgs : List Message} (hc : s.catchup = some c)
    (hpending : c.pc.pending = some (topic, msg :: msgs))
    (hflight : c.pc.inFlight = some (topic, msg.offset)) :
    unmarked s.history topic msg.offset = true := by
  have hflight' : s.inFlight = some (topic, msg.offset) := (inFlight_eq hc rfl).trans hflight
  by_contra hunmarked
  have hrecorded := ((h.lanes topic).recorded_iff msg.offset).mpr (.inr hflight')
  have hmarked := marked_of_recorded hrecorded (Bool.eq_false_iff.mpr hunmarked)
  have hlt := ((h.lanes topic).marked_lt _ hmarked).trans_le (h.lanes topic).hwm_le
  rw [offset_of_pending ((h.stage c hc).pending topic _ hpending)] at hlt
  exact Nat.lt_irrefl _ hlt

/-- The offset of the message lies above all that was recorded, so it cannot be waiting. -/
theorem orderly_push (h : Delivering s) {c : Catchup} {topic : String} {msg : Message}
    {msgs : List Message} {rest : List String} (hc : s.catchup = some c)
    (hpc : c.pc = .pushing topic (msg :: msgs) rest) :
    unmarked s.history topic msg.offset = false := by
  have hoffset : msg.offset = (s.sentOf topic).length := by
    refine offset_of_pending ((h.stage c hc).pending topic (msg :: msgs) ?_)
    rw [hpc]
    rfl
  rw [Bool.eq_false_iff]
  intro hunmarked
  rcases ((h.lanes topic).recorded_iff _).mp (recorded_of_unmarked hunmarked) with hlt | hflight
  · exact absurd hoffset (Nat.ne_of_lt hlt)
  · rw [inFlight_eq hc hpc] at hflight
    exact absurd hflight.symm (Option.some_ne_none _)

/-- A message that waits is counted, or it is the one in flight, which no consumer has. -/
theorem orderly_mark (h : Delivering s) (hrecorded : Recorded s) (hsound : Sound s) {topic : String}
    {offset : Nat} (hlt : offset < (s.sentOf topic).length) (hzero : s.wgMessages = 0) :
    unmarked s.history topic offset = false := by
  rw [Bool.eq_false_iff]
  intro hunmarked
  have hcounted := hsound.counted
  have hmem := hrecorded.makeMsgKey_mem.mpr hunmarked
  have hlength := length_keys_erase hmem
  obtain ⟨c, topic', msg, msgs, rest, hc, hpc⟩ := exists_adding (s := s) (by omega)
  have hpending : c.pc.pending = some (topic', msg :: msgs) := by rw [hpc]; rfl
  have hflight := h.unmarked_inFlight hc hpending (by rw [hpc]; rfl)
  have hne : makeMsgKey topic' msg.offset ≠ makeMsgKey topic offset := by
    intro hkey
    obtain ⟨rfl, rfl⟩ := makeMsgKey_inj.mp hkey
    rw [offset_of_pending ((h.stage c hc).pending topic' _ hpending)] at hlt
    exact Nat.lt_irrefl _ hlt
  have htwo := two_le_length_keys hmem (hrecorded.makeMsgKey_mem.mpr hflight) hne
  have hone : s.uncounted = 1 := uncounted_eq hc hpc
  omega

theorem lt_of_sent (h : Delivering s) {i : Nat} {claim : CgClaim} {msg : ConsumerMessage}
    (hclaim : s.claims.lookup topic = some claim) (hmsg : claim.sent[i]? = some msg) :
    msg.offset < (s.sentOf topic).length := by
  rw [← sentOf_eq hclaim] at hmsg
  rw [(h.lanes topic).offset_of_sent hmsg]
  exact (List.getElem?_eq_some_iff.mp hmsg).1

theorem orderly (h : Delivering s) (hlinked : Linked s) (hrecorded : Recorded s) (hsound : Sound s)
    {action : Action} (hstep : Step s action s') : Orderly s action := by
  cases action with
  | giveUp =>
      cases hstep with
      | givesUp hc hpc hcancelled =>
          exact absurd (h.uncancelled.symm.trans hcancelled) Bool.false_ne_true
  | proceed => exact fun c topic msg msgs rest hc hpc => h.orderly_push hc hpc
  | markMessage topic i =>
      intro claim msg hclaim hmsg hzero
      rw [(hlinked.queue_of_sent hclaim hmsg).1]
      exact h.orderly_mark hrecorded hsound (h.lt_of_sent hclaim hmsg) hzero
  | _ => trivial

/-- A panic would need a claim that is closed or not there, a read behind the end of a queue, or a
session that is not sound any more. -/
theorem panicked_eq_none (h : Delivering s) (hlinked : Linked s) (hsound : Sound s)
    (hnone : s.panicked = none) {action : Action} (hstep : Step s action s') (hsound' : Sound s') :
    s'.panicked = none := by
  cases hstep with
  | marks hclaim hmsg =>
      obtain ⟨htopic, qs, hqs⟩ := hlinked.queue_of_sent hclaim hmsg
      rw [htopic] at hsound' ⊢
      exact (markOffset_cases hnone hqs).panicked_eq_none hnone hsound hsound'
  | @pullPanics c topic queueHwm rest qs hc hpc hqs hlt =>
      have hhwm := (h.stage c hc).reading topic queueHwm rest hpc
      have hle := (h.lanes topic).hwm_le.trans (h.lanes topic).length_le
      rw [← hhwm, messagesOf_eq hqs] at hle
      exact absurd hlt (Nat.not_lt_of_le hle)
  | duplicates hc hpc hclaim hwaiting => exact absurd rfl (hsound'.no_duplicate _ _)
  | recordPanics hc hpc hclaim =>
      refine absurd hclaim (hlinked.claim_of_visiting hc ?_)
      rw [hpc]
      exact List.mem_cons_self
  | sendPanics hc hpc hclaim hclosed =>
      exact absurd ((h.open_claims _ _ hclaim).symm.trans hclosed) Bool.false_ne_true
  | givesUp hc hpc hcancelled =>
      exact absurd (h.uncancelled.symm.trans hcancelled) Bool.false_ne_true
  | _ => exact hnone

end Delivering

/-! ### What a step keeps -/

theorem messagesOf_insert {qs : QueueSession} (hqueues : s'.queues = s.queues.insert topic qs)
    (other : String) :
    s'.messagesOf other = if other = topic then qs.queue.messages else s.messagesOf other := by
  rw [messagesOf, hqueues, Maps.lookup_insert]
  split <;> rfl

theorem hwmOf_insert {qs : QueueSession} (hqueues : s'.queues = s.queues.insert topic qs)
    (other : String) : s'.hwmOf other = if other = topic then qs.hwm else s.hwmOf other := by
  rw [hwmOf, hqueues, Maps.lookup_insert]
  split <;> rfl

theorem sentOf_insert {claim : CgClaim} (hclaims : s'.claims = s.claims.insert topic claim)
    (other : String) : s'.sentOf other = if other = topic then claim.sent else s.sentOf other := by
  rw [sentOf, hclaims, Maps.lookup_insert]
  split <;> rfl

theorem hwm_setHwmIfNewer (qs : QueueSession) (hwm : Nat) :
    (qs.setHwmIfNewer hwm).hwm = max qs.hwm hwm := by
  unfold QueueSession.setHwmIfNewer
  split
  · next hlt => exact (max_eq_right hlt.le).symm
  · next hle => exact (max_eq_left (Nat.le_of_not_lt hle)).symm

theorem sentOf_congr (hclaims : s'.claims = s.claims) (topic : String) :
    s'.sentOf topic = s.sentOf topic := by
  rw [sentOf, hclaims, sentOf]

/-- A message that was sent is marked. -/
theorem Lane.mark {other : String} (h : Lane s other) {offset : Nat}
    (hlt : offset < (s.sentOf topic).length)
    (hmessages : s'.messagesOf other = s.messagesOf other)
    (hsent : s'.sentOf other = s.sentOf other)
    (hhwm : s'.hwmOf other = if other = topic then max (s.hwmOf other) (offset + 1) else
      s.hwmOf other)
    (hhistory : s'.history = .marked topic offset :: s.history)
    (hflight : s'.inFlight = s.inFlight) :
    Lane s' other := by
  refine ⟨?_, ?_, fun offset' hmarked => ?_, fun offset' => ?_⟩
  · rw [hsent, hmessages]
    exact h.sent
  · rw [hsent, hhwm]
    split
    · next heq =>
        rw [← heq] at hlt
        exact max_le h.hwm_le hlt
    · exact h.hwm_le
  · rw [hhwm]
    rw [hhistory] at hmarked
    rcases List.mem_cons.mp hmarked with heq | hmarked
    · obtain ⟨rfl, rfl⟩ := HistoryEvent.marked.inj heq
      rw [if_pos rfl]
      exact Nat.le_max_right _ _
    · have hold := h.marked_lt offset' hmarked
      split
      · exact hold.trans_le (Nat.le_max_left _ _)
      · exact hold
  · rw [hhistory, hsent, hflight, ← h.recorded_iff]
    exact List.mem_cons.trans (or_iff_right HistoryEvent.noConfusion)

/-- The next message of the queue goes to the claim. -/
theorem Lane.send (h : Lane s topic) {msg : Message} {msgs : List Message}
    (hnext : msg :: msgs <+: (s.messagesOf topic).drop (s.sentOf topic).length)
    (hmessages : s'.messagesOf topic = s.messagesOf topic) (hhwm : s'.hwmOf topic = s.hwmOf topic)
    (hsent : s'.sentOf topic = s.sentOf topic ++ [msg.consumerMessage topic])
    (hhistory : s'.history = s.history) (hflight : s.inFlight = some (topic, msg.offset))
    (hflight' : s'.inFlight = none) : Lane s' topic := by
  have hlength : (s'.sentOf topic).length = (s.sentOf topic).length + 1 := by
    rw [hsent, List.length_append, List.length_singleton]
  refine ⟨?_, ?_, ?_, fun offset => ?_⟩
  · rw [hsent, hmessages]
    apply concat_prefix h.sent
    rw [List.getElem?_map, (getElem?_of_cons_prefix_drop hnext).1]
    rfl
  · rw [hhwm, hlength]
    exact h.hwm_le.trans (Nat.le_succ _)
  · rw [hhistory, hhwm]
    exact h.marked_lt
  · rw [hhistory, h.recorded_iff, hflight, hflight', hlength, offset_of_pending hnext]
    constructor
    · rintro (hlt | heq)
      · exact .inl (Nat.lt_succ_of_lt hlt)
      · obtain ⟨-, rfl⟩ := Prod.mk.inj (Option.some.inj heq)
        exact .inl (Nat.lt_succ_self _)
    · rintro (hlt | heq)
      · rcases Nat.lt_succ_iff_lt_or_eq.mp hlt with hlt | rfl
        · exact .inl hlt
        · exact .inr rfl
      · exact absurd heq.symm (Option.some_ne_none _)

/-- A message of another queue goes to its claim. -/
theorem Lane.send_other {other : String} (h : Lane s other) (hne : other ≠ topic) {offset : Nat}
    (hmessages : s'.messagesOf other = s.messagesOf other) (hhwm : s'.hwmOf other = s.hwmOf other)
    (hsent : s'.sentOf other = s.sentOf other) (hhistory : s'.history = s.history)
    (hflight : s.inFlight = some (topic, offset)) (hflight' : s'.inFlight = none) :
    Lane s' other := by
  refine ⟨?_, ?_, ?_, fun offset' => ?_⟩
  · rw [hsent, hmessages]
    exact h.sent
  · rw [hsent, hhwm]
    exact h.hwm_le
  · rw [hhistory, hhwm]
    exact h.marked_lt
  · rw [hhistory, h.recorded_iff, hflight, hflight', hsent]
    refine or_congr_right (iff_of_false (fun heq => ?_) (Option.some_ne_none _).symm)
    exact hne (Prod.mk.inj (Option.some.inj heq)).1.symm

/-- Queues may grow, and the mark of a queue that is not caught up may rise. -/
theorem Stage.mono {c : Catchup} (h : Stage s c)
    (hmessages : ∀ topic, s.messagesOf topic <+: s'.messagesOf topic)
    (hhwm : ∀ topic, CaughtUp s topic → s'.hwmOf topic = s.hwmOf topic)
    (hsent : ∀ topic, s'.sentOf topic = s.sentOf topic) : Stage s' c where
  nodup := h.nodup
  caughtUp := by
    intro topic htopic
    have hup := h.caughtUp topic htopic
    rw [CaughtUp, hhwm topic hup, hsent]
    exact hup
  reading := by
    intro topic queueHwm rest hpc
    have hup : CaughtUp s topic := by
      apply h.caughtUp
      rw [hpc]
      exact List.mem_cons_self
    rw [hhwm topic hup]
    exact h.reading topic queueHwm rest hpc
  pending := by
    intro topic msgs hpending
    rw [hsent]
    exact (h.pending topic msgs hpending).trans ((hmessages topic).drop _)
  found := by
    intro topic msg hfound
    rw [hsent]
    exact h.found topic msg hfound

namespace Delivering

/-- The call goes on without a word to anyone. -/
theorem goOn (h : Delivering s) {c : Catchup} (hqueues : s'.queues = s.queues)
    (hclaims : s'.claims = s.claims) (hcancelled : s'.cancelled = s.cancelled)
    (hhistory : s'.history = s.history) (hcatchup : s'.catchup = some c)
    (hflight : s'.inFlight = s.inFlight) (hstage : Stage s c) : Delivering s' := by
  have hmessages : ∀ topic, s'.messagesOf topic = s.messagesOf topic := fun topic => by
    rw [messagesOf, hqueues, messagesOf]
  have hhwm : ∀ topic, s'.hwmOf topic = s.hwmOf topic := fun topic => by rw [hwmOf, hqueues, hwmOf]
  have hsent := sentOf_congr hclaims
  refine ⟨hcancelled.trans h.uncancelled, hclaims ▸ h.open_claims, fun topic => ?_, fun hfree => ?_,
    fun c' hc' => ?_⟩
  · exact (h.lanes topic).of_eq (hmessages topic) (hhwm topic) (hsent topic) hhistory hflight
  · exact absurd (hcatchup.symm.trans hfree) (Option.some_ne_none c)
  · obtain rfl := Option.some.inj (hcatchup.symm.trans hc')
    exact hstage.mono (fun topic => (hmessages topic).symm ▸ List.prefix_rfl)
      (fun topic _ => hhwm topic) hsent

/-- Another goroutine does something to the queues. -/
theorem others (h : Delivering s) (hclaims : s'.claims = s.claims)
    (hcancelled : s'.cancelled = s.cancelled) (hcatchup : s'.catchup = s.catchup)
    (hlanes : ∀ topic, Lane s' topic)
    (hmessages : ∀ topic, s.messagesOf topic <+: s'.messagesOf topic)
    (hhwm : ∀ topic, CaughtUp s topic → s'.hwmOf topic = s.hwmOf topic) : Delivering s' := by
  have hsent := sentOf_congr hclaims
  refine ⟨hcancelled.trans h.uncancelled, hclaims ▸ h.open_claims, hlanes, fun hfree topic => ?_,
    fun c hc => ?_⟩
  · have hup := h.free (hcatchup.symm.trans hfree) topic
    rw [CaughtUp, hhwm topic hup, hsent]
    exact hup
  · exact (h.stage c (hcatchup.symm.trans hc)).mono hmessages hhwm hsent

theorem push (h : Delivering s) {qs : QueueSession} {key : Bytes} {value : Option Bytes}
    {hdr : Headers} (hqs : s.queues.lookup topic = some qs)
    (hqueues : s'.queues = s.queues.insert topic { qs with queue := qs.queue.push key value hdr })
    (hclaims : s'.claims = s.claims) (hcancelled : s'.cancelled = s.cancelled)
    (hhistory : s'.history = s.history) (hcatchup : s'.catchup = s.catchup) : Delivering s' := by
  have hmessages : ∀ other, s.messagesOf other <+: s'.messagesOf other := by
    intro other
    rw [messagesOf_insert hqueues]
    split
    · next heq =>
        rw [heq, messagesOf_eq hqs]
        exact List.prefix_append _ _
    · exact List.prefix_rfl
  have hhwm : ∀ other, s'.hwmOf other = s.hwmOf other := by
    intro other
    rw [hwmOf_insert hqueues]
    split
    · next heq => rw [heq, hwmOf_eq hqs]
    · rfl
  have hflight : s'.inFlight = s.inFlight := by rw [inFlight, hcatchup, inFlight]
  refine h.others hclaims hcancelled hcatchup (fun other => ?_) hmessages fun other _ => hhwm other
  have hlane := h.lanes other
  refine ⟨?_, ?_, ?_, ?_⟩
  · rw [sentOf_congr hclaims]
    exact hlane.sent.trans ((hmessages other).map _)
  · rw [hhwm, sentOf_congr hclaims]
    exact hlane.hwm_le
  · rw [hhwm, hhistory]
    exact hlane.marked_lt
  · rw [hhistory, sentOf_congr hclaims, hflight]
    exact hlane.recorded_iff

theorem mark (h : Delivering s) {offset : Nat} {qs : QueueSession}
    (hqs : s.queues.lookup topic = some qs)
    (hlt : offset < (s.sentOf topic).length)
    (hqueues : s'.queues = s.queues.insert topic (qs.setHwmIfNewer (offset + 1)))
    (hclaims : s'.claims = s.claims) (hcancelled : s'.cancelled = s.cancelled)
    (hhistory : s'.history = .marked topic offset :: s.history)
    (hcatchup : s'.catchup = s.catchup) :
    Delivering s' := by
  have hmessages : ∀ other, s'.messagesOf other = s.messagesOf other := by
    intro other
    rw [messagesOf_insert hqueues, queue_setHwmIfNewer]
    split
    · next heq => rw [heq, messagesOf_eq hqs]
    · rfl
  have hflight : s'.inFlight = s.inFlight := by rw [inFlight, hcatchup, inFlight]
  have hhwm : ∀ other, s'.hwmOf other
      = if other = topic then max (s.hwmOf other) (offset + 1) else s.hwmOf other := by
    intro other
    rw [hwmOf_insert hqueues, hwm_setHwmIfNewer]
    split
    · next heq => rw [heq, hwmOf_eq hqs]
    · rfl
  refine h.others hclaims hcancelled hcatchup (fun other => ?_)
    (fun other => (hmessages other).symm ▸ List.prefix_rfl) fun other hup => ?_
  · exact (h.lanes other).mark hlt (hmessages other) (sentOf_congr hclaims other)
      (hhwm other) hhistory hflight
  -- a mark below what was sent does not move a queue that is caught up
  · rw [hhwm]
    split
    · next heq =>
        rw [← heq] at hlt
        exact max_eq_left (hlt.trans_eq hup.symm)
    · rfl

theorem marks (h : Delivering s) {offset : Nat} {qs : QueueSession}
    (hqs : s.queues.lookup topic = some qs) (hlt : offset < (s.sentOf topic).length)
    (hmarks : Marks s topic offset qs s') (hnone : s'.panicked = none) : Delivering s' := by
  cases hmarks with
  | waiting hwaiting hwg => exact h.mark hqs hlt rfl rfl rfl rfl rfl
  | negative hwaiting hwg => exact absurd hnone (Option.some_ne_none _)
  | again hdone => exact h.mark hqs hlt rfl rfl rfl rfl rfl

theorem begins (h : Delivering s) {order : List String} (hfree : s.catchup = none)
    (hperm : order.Perm s.queues.keys) :
    Delivering { s with catchup := some ⟨.ranging order, 0, []⟩ } := by
  refine h.goOn rfl rfl rfl rfl rfl ?_ ⟨?_, fun topic _ => h.free hfree topic, ?_, ?_, ?_⟩
  · rw [inFlight, inFlight, hfree]
    rfl
  · exact hperm.nodup_iff.mpr s.queues.keys_nodup
  · exact fun _ _ _ hpc => CatchupPc.noConfusion hpc
  · exact fun _ _ hpending => absurd hpending.symm (Option.some_ne_none _)
  · exact fun _ _ hfound => absurd hfound List.not_mem_nil

/-- The call leaves a queue, or the loop over the queues. -/
theorem leaves (h : Delivering s) {c : Catchup} {pc : CatchupPc} (hc : s.catchup = some c)
    (hempty : ∀ topic msgs, c.pc.pending = some (topic, msgs) → msgs = [])
    (hflight : c.pc.inFlight = none) (hflight' : pc.inFlight = none) (hpending : pc.pending = none)
    (hnodup : pc.topics.Nodup) (hahead : ∀ topic ∈ pc.ahead, topic ∈ c.pc.ahead)
    (hreading : ∀ topic queueHwm rest, pc = .reading topic queueHwm rest →
      queueHwm = s.hwmOf topic) :
    Delivering (s.goTo c pc) := by
  have hstage := h.stage c hc
  refine h.goOn rfl rfl rfl rfl rfl ?_ ⟨hnodup, ?_, hreading, ?_, ?_⟩
  · rw [inFlight_eq hc rfl, hflight]
    exact hflight'
  · exact fun topic htopic => hstage.caughtUp topic (hahead topic htopic)
  · exact fun topic msgs hsome => absurd (hsome.symm.trans hpending) (Option.some_ne_none _)
  · intro topic msg hfound
    rcases hstage.found topic msg hfound with hsent | ⟨msgs, hold, hmem⟩
    · exact .inl hsent
    · rw [hempty topic msgs hold] at hmem
      exact absurd hmem List.not_mem_nil

/-- What the call takes from a queue begins where the last one has ended. -/
theorem pulls (h : Delivering s) (hlinked : Linked s) {c : Catchup} {queueHwm : Nat}
    {rest : List String} {qs : QueueSession} (hc : s.catchup = some c)
    (hpc : c.pc = .reading topic queueHwm rest) (hqs : s.queues.lookup topic = some qs) :
    Delivering (s.goTo { c with found := c.found ++ qs.queue.messages.map fun msg => (topic, msg) }
      (.pushing qs.queue.topic (qs.queue.messages.drop queueHwm) rest)) := by
  have hstage := h.stage c hc
  have hup : CaughtUp s topic := by
    apply hstage.caughtUp
    rw [hpc]
    exact List.mem_cons_self
  have hhwm : queueHwm = (s.sentOf topic).length :=
    (hstage.reading topic queueHwm rest hpc).trans hup
  rw [hlinked.queue_topic topic qs hqs, ← messagesOf_eq hqs, hhwm]
  refine h.goOn rfl rfl rfl rfl rfl (inFlight_eq hc hpc).symm ⟨?_, ?_, ?_, ?_, ?_⟩
  · have hnodup := hstage.nodup
    rw [hpc] at hnodup
    exact hnodup
  · intro other hother
    apply hstage.caughtUp
    rw [hpc]
    exact List.mem_cons_of_mem _ hother
  · exact fun _ _ _ heq => CatchupPc.noConfusion heq
  · intro other msgs hpending
    obtain ⟨rfl, rfl⟩ := Prod.mk.inj (Option.some.inj hpending)
    exact List.prefix_rfl
  · intro other msg hfound
    rcases List.mem_append.mp hfound with hfound | hfound
    · rcases hstage.found other msg hfound with hsent | ⟨msgs, hpending, -⟩
      · exact .inl hsent
      · rw [hpc] at hpending
        exact absurd hpending.symm (Option.some_ne_none _)
    · obtain ⟨msg', hmsg, heq⟩ := List.mem_map.mp hfound
      obtain ⟨rfl, rfl⟩ := Prod.mk.inj heq
      rw [← List.take_append_drop (s.sentOf topic).length (s.messagesOf topic)] at hmsg
      rcases List.mem_append.mp hmsg with hmsg | hmsg
      · left
        rw [List.prefix_iff_eq_take.mp (h.lanes topic).sent, ← List.map_take]
        exact List.mem_map_of_mem hmsg
      · exact .inr ⟨_, rfl, hmsg⟩

end Delivering

/-- The call stays at its message. -/
theorem Stage.repc {c : Catchup} {pc : CatchupPc} (h : Stage s c)
    (htopics : pc.topics = c.pc.topics) (hahead : pc.ahead = c.pc.ahead)
    (hpending : pc.pending = c.pc.pending)
    (hreading : ∀ topic queueHwm rest, pc ≠ .reading topic queueHwm rest) :
    Stage s { c with pc := pc } where
  nodup := htopics ▸ h.nodup
  caughtUp := fun topic htopic => h.caughtUp topic (hahead ▸ htopic)
  reading := fun topic queueHwm rest hpc => absurd hpc (hreading topic queueHwm rest)
  pending := fun topic msgs hmsgs => h.pending topic msgs (hpending.symm.trans hmsgs)
  found := by
    intro topic msg hfound
    dsimp only
    rw [hpending]
    exact h.found topic msg hfound

namespace Delivering

theorem records (h : Delivering s) {c : Catchup} {msg : Message} {msgs : List Message}
    {rest : List String} {waitingMessages : GoMap String Bool} (hc : s.catchup = some c)
    (hpc : c.pc = .pushing topic (msg :: msgs) rest) :
    Delivering ({ s with
      waitingMessages := waitingMessages
      history := .recorded topic msg.offset ::
        s.history }.goTo c (.adding topic msg msgs rest)) := by
  have hnone : s.inFlight = none := inFlight_eq hc hpc
  refine ⟨h.uncancelled, h.open_claims, fun other => ?_, nofun, fun c' hc' => ?_⟩
  · have hlane := h.lanes other
    refine ⟨hlane.sent, hlane.hwm_le, fun offset hmarked => ?_, fun offset => ?_⟩
    · rcases List.mem_cons.mp hmarked with heq | hmarked
      · exact HistoryEvent.noConfusion heq
      · exact hlane.marked_lt offset hmarked
    · have hold := hlane.recorded_iff offset
      rw [hnone, or_iff_left (Option.some_ne_none _).symm] at hold
      refine List.mem_cons.trans ((or_congr ?_ hold).trans or_comm)
      constructor
      · intro heq
        obtain ⟨rfl, rfl⟩ := HistoryEvent.recorded.inj heq
        rfl
      · intro heq
        obtain ⟨rfl, rfl⟩ := Prod.mk.inj (Option.some.inj heq)
        rfl
  · obtain rfl := Option.some.inj hc'
    have hstage : Stage s { c with pc := .adding topic msg msgs rest } :=
      (h.stage c hc).repc (by rw [hpc]; rfl) (by rw [hpc]; rfl) (by rw [hpc]; rfl)
        fun _ _ _ => CatchupPc.noConfusion
    exact hstage.mono (fun _ => List.prefix_rfl) (fun _ _ => rfl) fun _ => rfl

theorem adds (h : Delivering s) {c : Catchup} {msg : Message} {msgs : List Message}
    {rest : List String} {wg : Int} (hc : s.catchup = some c)
    (hpc : c.pc = .adding topic msg msgs rest) :
    Delivering ({ s with wgMessages := wg }.goTo c (.sending topic msg msgs rest)) := by
  refine h.goOn rfl rfl rfl rfl rfl (inFlight_eq hc hpc).symm ?_
  refine (h.stage c hc).repc ?_ ?_ ?_ fun _ _ _ => CatchupPc.noConfusion
  · rw [hpc]
    rfl
  · rw [hpc]
    rfl
  · rw [hpc]
    rfl

theorem stage_sends (h : Delivering s) {c : Catchup} {claim : CgClaim} {msg : Message}
    {msgs : List Message} {rest : List String} (hc : s.catchup = some c)
    (hpc : c.pc = .sending topic msg msgs rest) (hqueues : s'.queues = s.queues)
    (hclaims : s'.claims = s.claims.insert topic claim)
    (hsent : claim.sent = s.sentOf topic ++ [msg.consumerMessage topic]) (msgPushed : Nat) :
    Stage s' ⟨.pushing topic msgs rest, msgPushed, c.found⟩ := by
  have hstage := h.stage c hc
  have hpending : c.pc.pending = some (topic, msg :: msgs) := by rw [hpc]; rfl
  have hnodup := hstage.nodup
  rw [hpc] at hnodup
  have hown : s'.sentOf topic = s.sentOf topic ++ [msg.consumerMessage topic] := by
    rw [sentOf_insert hclaims, if_pos rfl, hsent]
  have hother : ∀ other, other ≠ topic → s'.sentOf other = s.sentOf other :=
    fun other hne => by rw [sentOf_insert hclaims, if_neg hne]
  refine ⟨hnodup, fun other hrest => ?_, fun _ _ _ heq => CatchupPc.noConfusion heq,
    fun other msgs' hmsgs => ?_, fun other msg' hfound => ?_⟩
  · have hne : other ≠ topic := by
      rintro rfl
      exact (List.nodup_cons.mp hnodup).1 hrest
    have hup := hstage.caughtUp other (by rw [hpc]; exact hrest)
    rw [CaughtUp, hother other hne, hwmOf, hqueues]
    exact hup
  · obtain ⟨rfl, rfl⟩ := Prod.mk.inj (Option.some.inj hmsgs)
    rw [hown, List.length_append, List.length_singleton, messagesOf, hqueues]
    exact (getElem?_of_cons_prefix_drop (hstage.pending topic _ hpending)).2
  · rcases hstage.found other msg' hfound with hmem | ⟨msgs', hmsgs, hmem⟩
    · left
      rcases eq_or_ne other topic with rfl | hne
      · rw [hown]
        exact List.mem_append_left _ hmem
      · rw [hother other hne]
        exact hmem
    · obtain ⟨rfl, rfl⟩ := Prod.mk.inj (Option.some.inj (hpending.symm.trans hmsgs))
      rcases List.mem_cons.mp hmem with rfl | hmem
      · left
        rw [hown]
        exact List.mem_append_right _ List.mem_cons_self
      · exact .inr ⟨msgs, rfl, hmem⟩

/-- The message is the next one of its topic. -/
theorem sends (h : Delivering s) (hlinked : Linked s) {c : Catchup} {msg : Message}
    {msgs : List Message} {rest : List String} {claim : CgClaim} (hc : s.catchup = some c)
    (hpc : c.pc = .sending topic msg msgs rest) (hclaim : s.claims.lookup topic = some claim) :
    Delivering ({ s with
      claims := s.claims.insert topic
        { claim with sent := claim.sent ++ [msg.consumerMessage claim.topic] } }.goTo
      { c with msgPushed := c.msgPushed + 1 } (.pushing topic msgs rest)) := by
  have hnext := (h.stage c hc).pending topic (msg :: msgs) (by rw [hpc]; rfl)
  have hsent : claim.sent ++ [msg.consumerMessage claim.topic]
      = s.sentOf topic ++ [msg.consumerMessage topic] := by
    rw [(hlinked.claim_topic topic claim hclaim).1, sentOf_eq hclaim]
  refine ⟨h.uncancelled, ?_, ?_, fun hfree => absurd hfree (Option.some_ne_none _),
    fun c' hc' => ?_⟩
  · exact forall_lookup_insert (P := fun _ (claim : CgClaim) => claim.closed = false)
      (h.open_claims topic claim hclaim) h.open_claims
  · intro other
    rcases eq_or_ne other topic with rfl | hne
    · refine (h.lanes other).send hnext rfl rfl ?_ rfl (inFlight_eq hc hpc) rfl
      rw [sentOf_insert rfl, if_pos rfl]
      exact hsent
    · refine (h.lanes other).send_other hne rfl rfl ?_ rfl (inFlight_eq hc hpc) rfl
      rw [sentOf_insert rfl, if_neg hne]
  · obtain rfl := Option.some.inj hc'
    refine h.stage_sends hc hpc ?_ rfl ?_ _
    · rfl
    · exact hsent

theorem returnsDone (h : Delivering s) (hrecorded : Recorded s) (hsound : Sound s) {c : Catchup}
    (hc : s.catchup = some c) (hpc : c.pc = .waiting) (hwg : s.wgMessages = 0)
    (results : List Nat) :
    Delivering { s with catchup := none, results := results } := by
  have hsettled := unmarked_eq_false hrecorded hsound hwg (uncounted_eq hc hpc)
  have hflight : s.inFlight = none := inFlight_eq hc hpc
  refine ⟨h.uncancelled, h.open_claims, fun topic => ?_, fun _ topic => ?_, fun c hc => ?_⟩
  · exact (h.lanes topic).of_eq rfl rfl rfl rfl hflight.symm
  · exact (h.lanes topic).caughtUp (hsettled topic)
  · exact absurd hc.symm (Option.some_ne_none c)

end Delivering

/-- One case for each constructor of `Step`; a step that panics is excluded by `panicked_eq_none`.
-/
theorem delivering_step {action : Action} (hlinked : Linked s) (hrecorded : Recorded s)
    (hsound : Sound s) (h : Delivering s) (hnone : s.panicked = none) (haction : action ≠ .cancel)
    (hstep : Step s action s') (hnone' : s'.panicked = none) : Delivering s' := by
  cases hstep with
  | pushes key value hdr hqs => exact h.push hqs rfl rfl rfl rfl rfl
  | marks hclaim hmsg =>
      obtain ⟨htopic, qs, hqs⟩ := hlinked.queue_of_sent hclaim hmsg
      rw [htopic] at hnone' ⊢
      exact h.marks hqs (h.lt_of_sent hclaim hmsg) (markOffset_cases hnone hqs) hnone'
  | begins hfree hperm => exact h.begins hfree hperm
  | waits hc hpc =>
      refine h.leaves hc ?_ (hpc ▸ rfl) rfl rfl List.nodup_nil ?_ fun _ _ _ => CatchupPc.noConfusion
      · rw [hpc]
        exact fun _ _ hpending => absurd hpending.symm (Option.some_ne_none _)
      · exact fun _ htopic => absurd htopic List.not_mem_nil
  | reads hc hpc hqs =>
      have hnodup := (h.stage _ hc).nodup
      rw [hpc] at hnodup
      refine h.leaves hc ?_ (hpc ▸ rfl) rfl rfl hnodup ?_ ?_
      · rw [hpc]
        exact fun _ _ hpending => absurd hpending.symm (Option.some_ne_none _)
      · rw [hpc]
        exact fun _ htopic => htopic
      · intro _ _ _ heq
        obtain ⟨rfl, rfl, -⟩ := CatchupPc.reading.inj heq
        exact (hwmOf_eq hqs).symm
  | pulls hc hpc hqs hle => exact h.pulls hlinked hc hpc hqs
  | leaves hc hpc =>
      have hnodup := (h.stage _ hc).nodup
      rw [hpc] at hnodup
      refine h.leaves hc ?_ (hpc ▸ rfl) rfl rfl hnodup.of_cons ?_ fun _ _ _ => CatchupPc.noConfusion
      · rw [hpc]
        intro _ _ hpending
        exact (Prod.mk.inj (Option.some.inj hpending)).2.symm
      · rw [hpc]
        exact fun _ htopic => htopic
  | records hc hpc hclaim hnew =>
      rw [(hlinked.claim_topic _ _ hclaim).1]
      exact h.records hc hpc
  | adds hc hpc => exact h.adds hc hpc
  | sends hc hpc hclaim hopen => exact h.sends hlinked hc hpc hclaim
  | returnsDone hc hpc hwg => exact h.returnsDone hrecorded hsound hc hpc hwg _
  | givesUp hc hpc hcancelled =>
      exact absurd (h.uncancelled.symm.trans hcancelled) Bool.false_ne_true
  | returnsCancelled hc hpc hcancelled =>
      exact absurd (h.uncancelled.symm.trans hcancelled) Bool.false_ne_true
  | closes hclaim hcancelled hopen =>
      exact absurd (h.uncancelled.symm.trans hcancelled) Bool.false_ne_true
  | cancels => exact absurd rfl haction
  | pullPanics hc hpc hqs hlt => exact absurd hnone' (Option.some_ne_none _)
  | duplicates hc hpc hclaim hwaiting => exact absurd hnone' (Option.some_ne_none _)
  | recordPanics hc hpc hclaim => exact absurd hnone' (Option.some_ne_none _)
  | sendPanics hc hpc hclaim hclosed => exact absurd hnone' (Option.some_ne_none _)

structure Live (s : CgSession) : Prop where
  panicked : s.panicked = none
  linked : Linked s
  recorded : Recorded s
  sound : Sound s
  delivering : Delivering s

theorem live_new (tt : TopicQueues) (topics : List String) : Live (newCgSession tt topics) where
  panicked := rfl
  linked := linked_new tt topics
  recorded := recorded_new tt topics
  sound := sound_new tt topics
  delivering := delivering_new tt topics

theorem live_step {action : Action} (h : Live s) (haction : action ≠ .cancel)
    (hstep : s.step action = some s') : Live s' := by
  obtain ⟨hnone, hlinked, hrecorded, hsound, hdelivering⟩ := h
  have hstep := (step_cases hstep).2
  have horderly := hdelivering.orderly hlinked hrecorded hsound hstep
  have hsound' := (sound_step_iff hlinked hrecorded hsound hnone hstep).mpr horderly
  have hnone' := hdelivering.panicked_eq_none hlinked hsound hnone hstep hsound'
  exact ⟨hnone', linked_step hlinked hnone hstep,
    recorded_step hlinked hrecorded hnone hstep hnone', hsound',
    delivering_step hlinked hrecorded hsound hdelivering hnone haction hstep hnone'⟩

theorem Live.pairwise_offset (h : Live s) (topic : String) :
    ((s.sentOf topic).map ConsumerMessage.offset).Pairwise (· < ·) := by
  rw [List.pairwise_map, List.pairwise_iff_getElem]
  intro i j hi hj hlt
  rw [(h.delivering.lanes topic).offset_of_sent (List.getElem?_eq_getElem hi),
    (h.delivering.lanes topic).offset_of_sent (List.getElem?_eq_getElem hj)]
  exact hlt

/-- A call leaves a session that is not cancelled only when the wait group is at zero. -/
theorem Step.of_return {action : Action} {c : Catchup} (h : Step s action s') (hlinked : Linked s)
    (hnone : s.panicked = none) (huncancelled : s.cancelled = false) (hc : s.catchup = some c)
    (hreturn : s'.catchup = none) : c.pc = .waiting ∧ s.wgMessages = 0 := by
  have hstill : s.catchup ≠ none := hc ▸ Option.some_ne_none c
  cases h with
  | returnsDone hc' hpc hwg =>
      obtain rfl := Option.some.inj (hc.symm.trans hc')
      exact ⟨hpc, hwg⟩
  | returnsCancelled hc' hpc hcancelled =>
      exact absurd (huncancelled.symm.trans hcancelled) Bool.false_ne_true
  | givesUp hc' hpc hcancelled =>
      exact absurd (huncancelled.symm.trans hcancelled) Bool.false_ne_true
  | marks hclaim hmsg =>
      obtain ⟨htopic, qs, hqs⟩ := hlinked.queue_of_sent hclaim hmsg
      rw [htopic] at hreturn
      exact absurd ((markOffset_cases hnone hqs).catchup_eq.symm.trans hreturn) hstill
  | begins hfree hperm => exact absurd hfree hstill
  | waits | reads | pulls | leaves | records | adds | sends =>
      exact absurd hreturn (Option.some_ne_none _)
  | _ => exact absurd hreturn hstill

/-- At the return of a call, what it found is delivered and marked. -/
theorem Live.found {action : Action} (h : Live s) (hstep : s.step action = some s') {c : Catchup}
    (hc : s.catchup = some c) (hreturn : s'.catchup = none) {msg : Message}
    (hmsg : (topic, msg) ∈ c.found) :
    msg.consumerMessage topic ∈ s.sentOf topic ∧ .marked topic msg.offset ∈ s.history := by
  obtain ⟨hpc, hwg⟩ :=
    (step_cases hstep).2.of_return h.linked h.panicked h.delivering.uncancelled hc hreturn
  have hlane := h.delivering.lanes topic
  have hsettled := unmarked_eq_false h.recorded h.sound hwg (uncounted_eq hc hpc) topic
  rcases (h.delivering.stage c hc).found topic msg hmsg with hsent | ⟨msgs, hpending, -⟩
  · refine ⟨hsent, hlane.marked hsettled ?_⟩
    obtain ⟨i, hi⟩ := List.mem_iff_getElem?.mp hsent
    have hoffset : msg.offset = i := hlane.offset_of_sent hi
    rw [hoffset]
    exact (List.getElem?_eq_some_iff.mp hi).1
  · rw [hpc] at hpending
    exact absurd hpending.symm (Option.some_ne_none _)

/-- **Delivery is exactly once.** While the context is open no panic is reached, a claim is sent the
messages of its queue each once and in the order of their offsets, and a call returns when
everything it found is delivered and marked. -/
theorem delivers_exactly_once (tt : TopicQueues) (topics : List String) (actions : List Action)
    (hopen : Action.cancel ∉ actions) :
    (∀ n, (run step (newCgSession tt topics) (actions.take n)).panicked = none) ∧
    (∀ n topic, ∃ s, run step (newCgSession tt topics) (actions.take n) = s ∧
      (s.sentOf topic <+: (s.messagesOf topic).map fun msg => msg.consumerMessage topic) ∧
      ((s.sentOf topic).map ConsumerMessage.offset).Pairwise (· < ·)) ∧
    ∀ t ∈ transitions step (newCgSession tt topics) actions,
      ∀ c, t.1.catchup = some c → t.2.2.catchup = none → ∀ topic msg, (topic, msg) ∈ c.found →
        msg.consumerMessage topic ∈ t.1.sentOf topic ∧ .marked topic msg.offset ∈ t.1.history := by
  have hallowed : ∀ actions' : List Action, (∀ action ∈ actions', action ∈ actions) →
      ∀ t ∈ transitions step (newCgSession tt topics) actions', t.2.1 ≠ .cancel := by
    intro actions' hsub t ht heq
    exact hopen (heq ▸ hsub _ (mem_actions_of_mem_transitions ht))
  have hlive : ∀ n, Live (run step (newCgSession tt topics) (actions.take n)) := fun n =>
    run_invariant_of_allowed (fun _ action => action ≠ .cancel) (fun _ _ _ h => live_step h)
      (live_new tt topics) (hallowed _ fun _ => List.mem_of_mem_take)
  refine ⟨fun n => (hlive n).panicked, fun n topic => ⟨_, rfl, ?_, (hlive n).pairwise_offset topic⟩,
    ?_⟩
  · exact ((hlive n).delivering.lanes topic).sent
  · intro t ht c hc hreturn topic msg hmsg
    have hsteps : ∀ t ∈ transitions step (newCgSession tt topics) actions,
        Live t.1 ∧ step t.1 t.2.1 = some t.2.2 :=
      transitions_invariant_of_allowed (fun _ action => action ≠ .cancel)
        (fun _ _ _ h => live_step h)
        (live_new tt topics) (hallowed _ fun _ => id)
    obtain ⟨hlive, hstep⟩ := hsteps t ht
    exact hlive.found hstep hc hreturn hmsg

def markedOutOfOrder : List Action :=
  [.push "t" [] none none, .push "t" [] none none, .catchupAndWait ["t"], .proceed, .proceed,
    .push "t" [] none none, .proceed, .proceed, .send, .proceed, .proceed, .send,
    .markMessage "t" 1, .proceed, .proceed, .markMessage "t" 0, .returnDone]

theorem delivers_markedOutOfOrder :
    ∃ s, run step (newCgSession noQueues ["t"]) markedOutOfOrder = s ∧
    s.results = [2] ∧ (s.sentOf "t").map ConsumerMessage.offset = [0, 1] ∧
    (s.messagesOf "t").length = 3 ∧ s.panicked = none := by
  refine ⟨_, rfl, ?_, ?_, ?_, ?_⟩
  · decide +kernel
  · decide +kernel
  · decide +kernel
  · refine (delivers_exactly_once noQueues ["t"] markedOutOfOrder ?_).1 17
    simp [markedOutOfOrder]

end CgSession

end Tester

end Goka

import Goka.Flush
import Goka.Proof.ExactlyOnce

/-!
# When the tester has waited for its clients, there is nothing left to do

In the last pass over the clients nothing was sent to any of them. A handler emits only while it has
a message, so in that pass nothing was pushed to a topic either, and each client still is where it
was left: at the end of all its topics.
-/

namespace Goka

namespace Tester

open Schedule Maps

/-! ### A session -/

namespace CgSession

variable {s s' : CgSession}

def Unpushed (c : Catchup) : Prop := c.msgPushed = 0 ∧ c.pc.inFlight = none

/-- Messages wait only for a call that has taken them. -/
structure Quiet (s : CgSession) : Prop where
  free : s.catchup = none → s.waitingMessages.keys = []
  call : ∀ c, s.catchup = some c → Unpushed c → s.waitingMessages.keys = []

theorem quiet_new (tt : TopicQueues) (topics : List String) : Quiet (newCgSession tt topics) where
  free := fun _ => rfl
  call := fun c hc => absurd hc.symm (Option.some_ne_none c)

theorem Quiet.goTo (h : Quiet s) {c c' : Catchup} (hc : s.catchup = some c)
    (hcatchup : s'.catchup = some c') (hflight : c.pc.inFlight = none)
    (hpushed : c'.msgPushed = c.msgPushed) (hwaiting : s'.waitingMessages = s.waitingMessages) :
    Quiet s' := by
  refine ⟨fun hfree => absurd (hfree.symm.trans hcatchup).symm (Option.some_ne_none _),
    fun c'' hc'' hunpushed => ?_⟩
  obtain rfl := Option.some.inj (hcatchup.symm.trans hc'')
  rw [hwaiting]
  exact h.call c hc ⟨hpushed ▸ hunpushed.1, hflight⟩

theorem Quiet.of_pushed {c : Catchup} (hcatchup : s.catchup = some c) (hpushed : ¬ Unpushed c) :
    Quiet s := by
  refine ⟨fun hfree => absurd (hfree.symm.trans hcatchup).symm (Option.some_ne_none _),
    fun c' hc' hunpushed => ?_⟩
  obtain rfl := Option.some.inj (hcatchup.symm.trans hc')
  exact absurd hunpushed hpushed

theorem Quiet.mark {topic : String} {offset : Nat} {qs : QueueSession} (h : Quiet s)
    (hmarks : Marks s topic offset qs s') : Quiet s' := by
  have hkeys : s.waitingMessages.keys = [] → s'.waitingMessages.keys = [] := by
    intro hnil
    cases hmarks with
    | waiting => rw [AList.keys_erase, hnil]; rfl
    | negative | again => exact hnil
  refine ⟨fun hfree => hkeys (h.free (hmarks.catchup_eq ▸ hfree)),
    fun c hc hunpushed => hkeys (h.call c ?_ hunpushed)⟩
  rw [← hmarks.catchup_eq]
  exact hc

theorem quiet_step {action : Action} (hlive : Live s) (h : Quiet s) (haction : action ≠ .cancel)
    (hstep : s.step action = some s') : Quiet s' := by
  have huncancelled := hlive.delivering.uncancelled
  cases (step_cases hstep).2 with
  | pushes => exact ⟨h.free, h.call⟩
  | marks hclaim hmsg =>
      obtain ⟨htopic, qs, hqs⟩ := hlive.linked.queue_of_sent hclaim hmsg
      rw [htopic]
      exact h.mark (markOffset_cases hlive.panicked hqs)
  | begins hfree =>
      exact ⟨fun hnone => absurd hnone.symm (Option.some_ne_none _).symm, fun _ _ _ => h.free hfree⟩
  | waits hc hpc | reads hc hpc | pulls hc hpc | leaves hc hpc =>
      exact h.goTo hc rfl (by rw [hpc]; rfl) rfl rfl
  | records hc | adds hc => exact .of_pushed rfl fun hunpushed => Option.some_ne_none _ hunpushed.2
  | sends hc => exact .of_pushed rfl fun hunpushed => Nat.succ_ne_zero _ hunpushed.1
  | returnsDone hc hpc hwg =>
      have hcounted := hlive.sound.counted
      rw [hwg, uncounted_eq hc hpc] at hcounted
      have hkeys : s.waitingMessages.keys = [] :=
        List.length_eq_zero_iff.mp (by simpa using hcounted.symm)
      exact ⟨fun _ => hkeys, fun _ _ _ => hkeys⟩
  | givesUp _ _ hcancelled | returnsCancelled _ _ hcancelled | closes _ hcancelled =>
      exact absurd (huncancelled.symm.trans hcancelled) Bool.false_ne_true
  | cancels => exact absurd rfl haction
  | pullPanics | duplicates | recordPanics | sendPanics => exact ⟨h.free, h.call⟩

def Drained (s : CgSession) : Prop := ∀ topic, (s.sentOf topic).length = (s.messagesOf topic).length

/-- What a call still has to do before all is sent, if nothing comes in between. -/
def Pulled (s : CgSession) (c : Catchup) : Prop :=
  ∀ topic, topic ∈ c.pc.ahead ∨
    c.pc.pending = some (topic, (s.messagesOf topic).drop (s.sentOf topic).length) ∨
      (s.sentOf topic).length = (s.messagesOf topic).length

def Finds (s : CgSession) : Prop := ∀ c, s.catchup = some c → Unpushed c → Pulled s c

theorem Finds.of_free (h : s.catchup = none) : Finds s :=
  fun c hc => absurd (h.symm.trans hc).symm (Option.some_ne_none c)

theorem Finds.of_pushed {c : Catchup} (hcatchup : s.catchup = some c) (hpushed : ¬ Unpushed c) :
    Finds s := by
  intro c' hc' hunpushed
  obtain rfl := Option.some.inj (hcatchup.symm.trans hc')
  exact absurd hunpushed hpushed

/-- The messages stay what they are. -/
theorem Finds.of_same (h : Finds s) (hcatchup : s'.catchup = s.catchup)
    (hmessages : ∀ topic, s'.messagesOf topic = s.messagesOf topic)
    (hsent : ∀ topic, s'.sentOf topic = s.sentOf topic) : Finds s' := by
  intro c hc hunpushed topic
  rw [hmessages, hsent]
  exact h c (hcatchup ▸ hc) hunpushed topic

/-- The call goes on. -/
theorem Finds.goTo (h : Finds s) {c c' : Catchup} (hc : s.catchup = some c)
    (hcatchup : s'.catchup = some c') (hflight : c.pc.inFlight = none)
    (hpushed : c'.msgPushed = c.msgPushed) (hqueues : s'.queues = s.queues)
    (hclaims : s'.claims = s.claims) (hpulled : Pulled s c → Pulled s c') : Finds s' := by
  intro c'' hc'' hunpushed topic
  obtain rfl := Option.some.inj (hcatchup.symm.trans hc'')
  have hmessages : s'.messagesOf topic = s.messagesOf topic := by
    rw [messagesOf, hqueues, messagesOf]
  rw [hmessages, sentOf_congr hclaims]
  exact hpulled (h c hc ⟨hpushed ▸ hunpushed.1, hflight⟩) topic

theorem Marks.messagesOf_eq {topic : String} {offset : Nat} {qs : QueueSession}
    (h : Marks s topic offset qs s') (hqs : s.queues.lookup topic = some qs) (other : String) :
    s'.messagesOf other = s.messagesOf other := by
  have hset : ∀ {s'' : CgSession},
      s''.queues = s.queues.insert topic (qs.setHwmIfNewer (offset + 1)) →
      s''.messagesOf other = s.messagesOf other := by
    intro s'' hqueues
    rw [messagesOf_insert hqueues]
    split
    · next heq => rw [heq, CgSession.messagesOf_eq hqs, queue_setHwmIfNewer]
    · rfl
  cases h with
  | waiting | again => exact hset rfl
  | negative => rfl

theorem Marks.sentOf_eq {topic : String} {offset : Nat} {qs : QueueSession}
    (h : Marks s topic offset qs s') (other : String) : s'.sentOf other = s.sentOf other := by
  cases h <;> rfl

/-- What the call still has to pull shrinks as it goes, unless something is pushed in between. -/
theorem finds_step {action : Action} (hlive : Live s) (h : Finds s) (haction : action ≠ .cancel)
    (hpush : ∀ topic key value hdr, action ≠ .push topic key value hdr)
    (hstep : s.step action = some s') :
    Finds s' := by
  have huncancelled := hlive.delivering.uncancelled
  cases (step_cases hstep).2 with
  | pushes => exact absurd rfl (hpush _ _ _ _)
  | @marks topic i claim msg hclaim hmsg =>
      obtain ⟨htopic, qs, hqs⟩ := hlive.linked.queue_of_sent hclaim hmsg
      rw [htopic]
      have hmarks : Marks s topic msg.offset qs _ := markOffset_cases hlive.panicked hqs
      exact h.of_same hmarks.catchup_eq (hmarks.messagesOf_eq hqs) hmarks.sentOf_eq
  | @begins order hfree hperm =>
      intro c hc _ topic
      obtain rfl := Option.some.inj hc
      by_cases hmem : topic ∈ s.queues
      · exact .inl (hperm.mem_iff.mpr hmem)
      · refine .inr (.inr ?_)
        have hsent := (hlive.delivering.lanes topic).length_le
        have hnone : s.messagesOf topic = [] := by
          rw [messagesOf, AList.lookup_eq_none.mpr hmem]
          rfl
        change (s.sentOf topic).length = (s.messagesOf topic).length
        rw [hnone] at hsent ⊢
        exact Nat.le_zero.mp hsent
  | waits hc hpc =>
      refine h.goTo hc rfl (by rw [hpc]; rfl) rfl rfl rfl fun hpulled topic => ?_
      rcases hpulled topic with hahead | hpending | hall
      · rw [hpc] at hahead
        exact absurd hahead List.not_mem_nil
      · rw [hpc] at hpending
        exact absurd hpending.symm (Option.some_ne_none _)
      · exact .inr (.inr hall)
  | reads hc hpc =>
      refine h.goTo hc rfl (by rw [hpc]; rfl) rfl rfl rfl fun hpulled topic => ?_
      rcases hpulled topic with hahead | hpending | hall
      · rw [hpc] at hahead
        exact .inl hahead
      · rw [hpc] at hpending
        exact absurd hpending.symm (Option.some_ne_none _)
      · exact .inr (.inr hall)
  | @pulls c topic queueHwm rest qs hc hpc hqs hle =>
      have hstage := hlive.delivering.stage c hc
      have hcaughtUp : CaughtUp s topic :=
        hstage.caughtUp topic (by rw [hpc]; exact List.mem_cons_self ..)
      refine h.goTo hc rfl (by rw [hpc]; rfl) rfl rfl rfl fun hpulled other => ?_
      rcases hpulled other with hahead | hpending | hall
      · rw [hpc] at hahead
        rcases List.mem_cons.mp hahead with rfl | hrest
        · refine .inr (.inl ?_)
          rw [messagesOf_eq hqs, ← hcaughtUp, ← hstage.reading _ _ _ hpc]
          dsimp only [CatchupPc.pending]
          rw [hlive.linked.queue_topic other qs hqs]
        · exact .inl hrest
      · rw [hpc] at hpending
        exact absurd hpending.symm (Option.some_ne_none _)
      · exact .inr (.inr hall)
  | leaves hc hpc =>
      refine h.goTo hc rfl (by rw [hpc]; rfl) rfl rfl rfl fun hpulled topic => ?_
      rcases hpulled topic with hahead | hpending | hall
      · rw [hpc] at hahead
        exact .inl hahead
      · rw [hpc] at hpending
        have hnil := congrArg Prod.snd (Option.some.inj hpending)
        exact .inr (.inr (le_antisymm (hlive.delivering.lanes topic).length_le
          (List.drop_eq_nil_iff.mp hnil.symm)))
      · exact .inr (.inr hall)
  | records hc | adds hc => exact .of_pushed rfl fun hunpushed => Option.some_ne_none _ hunpushed.2
  | sends hc => exact .of_pushed rfl fun hunpushed => Nat.succ_ne_zero _ hunpushed.1
  | returnsDone => exact .of_free rfl
  | givesUp _ _ hcancelled | returnsCancelled _ _ hcancelled | closes _ hcancelled =>
      exact absurd (huncancelled.symm.trans hcancelled) Bool.false_ne_true
  | cancels => exact absurd rfl haction
  | pullPanics | duplicates | recordPanics | sendPanics =>
      exact h.of_same rfl (fun _ => rfl) fun _ => rfl

theorem unpushed_of_return {c : Catchup} (hc : s.catchup = some c) (hpushed : c.msgPushed = 0)
    (hstep : s.step .returnDone = some s') : Unpushed c := by
  cases (step_cases hstep).2 with
  | returnsDone hc' hpc =>
      obtain rfl := Option.some.inj (hc.symm.trans hc')
      exact ⟨hpushed, by rw [hpc]; rfl⟩

/-- A call that returns without having sent anything leaves nothing behind. -/
theorem Finds.drained {c : Catchup} (h : Finds s) (hc : s.catchup = some c) (hunpushed : Unpushed c)
    (hstep : s.step .returnDone = some s') : Drained s' := by
  intro topic
  cases (step_cases hstep).2 with
  | returnsDone hc' hpc =>
      obtain rfl := Option.some.inj (hc.symm.trans hc')
      have hpulled := h c hc hunpushed topic
      rw [hpc] at hpulled
      rcases hpulled with hahead | hpending | hall
      · exact absurd hahead List.not_mem_nil
      · exact absurd hpending.symm (Option.some_ne_none _)
      · exact hall

end CgSession

namespace Clients

variable {s s' : Clients}

/-! ### What an action can do -/

inductive Step (s : Clients) : Action → Clients → Prop where
  | consumes {topic : String} {key : Bytes} {data : Option Bytes} {hdr : Headers}
      (hfree : s.flush = none) :
      Step s (.consume topic key data hdr)
        { s.pushMessage topic key data hdr with flush := some ⟨.passing, 0⟩ }
  | catchesUp (hfree : s.flush = none) : Step s .catchup { s with flush := some ⟨.passing, 0⟩ }
  | emits {i : Nat} {topic : String} {key : Bytes} {data : Option Bytes} {hdr : Headers}
      {client : Client} {session : CgSession} (hclient : s.clients[i]? = some client)
      (hsession : client.session = some session) (hwaiting : session.waitingMessages.keys ≠ []) :
      Step s (.emit i topic key data hdr) (s.pushMessage topic key data hdr)
  | moves {i : Nat} {action : CgSession.Action} {client : Client} {session session' : CgSession}
      (hin : inSession action = true) (hclient : s.clients[i]? = some client)
      (hsession : client.session = some session) (hstep : session.step action = some session') :
      Step s (.session i action) { s with
        clients := s.clients.set i { client with session := some session' } }
  | stores {i : Nat} {topic : String} {client : Client} {pcm : PartConsumerMock}
      (hclient : s.clients[i]? = some client) (hpcm : client.partConsumers.lookup topic = some pcm)
      (hstoring : pcm.storing = true) :
      Step s (.stored i topic) { s with
        clients := s.clients.set i { client with
          partConsumers := client.partConsumers.insert topic { pcm with storing := false } } }
  | passes {order : List Nat} {total : Nat} (hflush : s.flush = some ⟨.passing, total⟩)
      (hperm : order.Perm (List.range s.clients.length)) :
      Step s (.pass order) { s with flush := some ⟨.clients order, 0⟩ }
  | returns {order : List String} (hflush : s.flush = some ⟨.clients [], 0⟩) :
      Step s (.nextClient order) { s with flush := none }
  | repeats {order : List String} {total : Nat} (hflush : s.flush = some ⟨.clients [], total⟩)
      (hsome : total ≠ 0) :
      Step s (.nextClient order) { s with flush := some ⟨.passing, total⟩ }
  | visits {order : List String} {i : Nat} {rest : List Nat} {total : Nat} {client : Client}
      (hflush : s.flush = some ⟨.clients (i :: rest), total⟩)
      (hclient : s.clients[i]? = some client) (hsession : client.session = none)
      (hperm : order.Perm client.partConsumers.keys) :
      Step s (.nextClient order) { s with flush := some ⟨.consumers i order rest, total⟩ }
  | enters {order : List String} {i : Nat} {rest : List Nat} {total : Nat} {client : Client}
      {session session' : CgSession} (hflush : s.flush = some ⟨.clients (i :: rest), total⟩)
      (hclient : s.clients[i]? = some client) (hsession : client.session = some session)
      (hstep : session.step (.catchupAndWait order) = some session') :
      Step s (.nextClient order) { s with
        clients := s.clients.set i { client with session := some session' }
        flush := some ⟨.group i rest, total⟩ }
  | groupReturns {order : List String} {i : Nat} {rest : List Nat} {total : Nat} {client : Client}
      {session session' : CgSession} {call : Catchup}
      (hflush : s.flush = some ⟨.group i rest, total⟩) (hclient : s.clients[i]? = some client)
      (hsession : client.session = some session) (hcall : session.catchup = some call)
      (hstep : session.step .returnDone = some session')
      (hperm : order.Perm client.partConsumers.keys) :
      Step s (.groupReturns order) { s with
        clients := s.clients.set i { client with session := some session' }
        flush := some ⟨.consumers i order rest, total + call.msgPushed⟩ }
  | leavesClient {i : Nat} {rest : List Nat} {total : Nat}
      (hflush : s.flush = some ⟨.consumers i [] rest, total⟩) :
      Step s .nextConsumer { s with flush := some ⟨.clients rest, total⟩ }
  | pulls {i : Nat} {topic : String} {topics : List String} {rest : List Nat} {total : Nat}
      {client : Client} {pcm : PartConsumerMock}
      (hflush : s.flush = some ⟨.consumers i (topic :: topics) rest, total⟩)
      (hclient : s.clients[i]? = some client) (hpcm : client.partConsumers.lookup topic = some pcm)
      (hle : pcm.hwm ≤ pcm.queue.messages.length) :
      Step s .nextConsumer { s with
        flush := some ⟨.pushing i topic (pcm.queue.messages.drop pcm.hwm) topics rest, total⟩ }
  | pullPanics : Step s .nextConsumer { s with panicked := true }
  | leavesConsumer {i : Nat} {topic : String} {topics : List String} {rest : List Nat} {total : Nat}
      (hflush : s.flush = some ⟨.pushing i topic [] topics rest, total⟩) :
      Step s .sendNext { s with flush := some ⟨.consumers i topics rest, total⟩ }
  | sends {i : Nat} {topic : String} {msg : Message} {msgs : List Message} {topics : List String}
      {rest : List Nat} {total : Nat} {client : Client} {pcm : PartConsumerMock}
      (hflush : s.flush = some ⟨.pushing i topic (msg :: msgs) topics rest, total⟩)
      (hclient : s.clients[i]? = some client) (hpcm : client.partConsumers.lookup topic = some pcm)
      (hstoring : pcm.storing = false) :
      Step s .sendNext { s with
        clients := s.clients.set i { client with
          partConsumers := client.partConsumers.insert topic { pcm with
            storing := true
            sent := pcm.sent ++ [msg.consumerMessage pcm.queue.topic] } }
        flush := some ⟨.nilling i topic msg msgs topics rest, total⟩ }
  | sendsNil {i : Nat} {topic : String} {msg : Message} {msgs : List Message} {topics : List String}
      {rest : List Nat} {total : Nat} {client : Client} {pcm : PartConsumerMock}
      (hflush : s.flush = some ⟨.nilling i topic msg msgs topics rest, total⟩)
      (hclient : s.clients[i]? = some client) (hpcm : client.partConsumers.lookup topic = some pcm)
      (hstoring : pcm.storing = false) :
      Step s .sendNext { s with
        clients := s.clients.set i { client with
          partConsumers := client.partConsumers.insert topic { pcm with hwm := msg.offset + 1 } }
        flush := some ⟨.pushing i topic msgs topics rest, total + 1⟩ }

theorem withSession_cases {i : Nat} {move : CgSession → Option CgSession}
    (h : s.withSession i move = some s') :
    ∃ client session session', s.clients[i]? = some client ∧ client.session = some session ∧
      move session = some session' ∧
      s' = { s with clients := s.clients.set i { client with session := some session' } } := by
  unfold withSession at h
  split at h
  · cases h
  · next client hclient =>
      split at h
      · cases h
      · next session hsession =>
          obtain ⟨session', hmove, rfl⟩ := Option.map_eq_some_iff.mp h
          exact ⟨client, session, session', hclient, hsession, hmove, rfl⟩

theorem withConsumer_cases {i : Nat} {topic : String}
    {move : PartConsumerMock → Option PartConsumerMock}
    (h : s.withConsumer i topic move = some s') :
    ∃ client pcm pcm', s.clients[i]? = some client ∧ client.partConsumers.lookup topic = some pcm ∧
      move pcm = some pcm' ∧
      s' = { s with
        clients := s.clients.set i { client with
          partConsumers := client.partConsumers.insert topic pcm' } } := by
  unfold withConsumer at h
  split at h
  · cases h
  · next client hclient =>
      split at h
      · cases h
      · next pcm hpcm =>
          obtain ⟨pcm', hmove, rfl⟩ := Option.map_eq_some_iff.mp h
          exact ⟨client, pcm, pcm', hclient, hpcm, hmove, rfl⟩

theorem visitConsumers_cases {i : Nat} {order : List String} {rest : List Nat}
    {caughtUp total : Nat} {pc : FlushPc} (hflush : s.flush = some ⟨pc, total⟩)
    (h : s.visitConsumers i order rest caughtUp = some s') :
    ∃ client, s.clients[i]? = some client ∧ order.Perm client.partConsumers.keys ∧
      s' = { s with flush := some ⟨.consumers i order rest, total + caughtUp⟩ } := by
  unfold visitConsumers at h
  split at h
  · cases h
  · next client hclient =>
      obtain ⟨hperm, rfl⟩ := guard_eq_some.mp h
      refine ⟨client, hclient, hperm, ?_⟩
      rw [goTo, hflush]
      rfl

theorem goTo_eq {pc pc' : FlushPc} {total caughtUp : Nat} (hflush : s.flush = some ⟨pc, total⟩) :
    s.goTo pc' caughtUp = { s with flush := some ⟨pc', total + caughtUp⟩ } := by
  rw [goTo, hflush]
  rfl

theorem emit_cases {i : Nat} {topic : String} {key : Bytes} {data : Option Bytes} {hdr : Headers}
    (h : s.emit i topic key data hdr = some s') : Step s (.emit i topic key data hdr) s' := by
  unfold emit at h
  split at h
  · cases h
  · next client hclient =>
      split at h
      · cases h
      · next session hsession =>
          obtain ⟨hwaiting, rfl⟩ := guard_eq_some.mp h
          exact .emits hclient hsession hwaiting

theorem nextClient_cases {order : List String} (h : s.nextClient order = some s') :
    Step s (.nextClient order) s' := by
  unfold nextClient at h
  split at h
  · next total hflush =>
      split at h
      · next hzero =>
          obtain rfl := Option.some.inj h
          subst hzero
          exact .returns hflush
      · next hsome =>
          obtain rfl := Option.some.inj h
          rw [goTo_eq hflush]
          exact .repeats hflush hsome
  · next i rest total hflush =>
      split at h
      · cases h
      · next client hclient =>
          split at h
          · next hsession =>
              obtain ⟨client', hclient', hperm, rfl⟩ := visitConsumers_cases hflush h
              obtain rfl := Option.some.inj (hclient.symm.trans hclient')
              exact .visits hflush hclient hsession hperm
          · obtain ⟨_, hmove, rfl⟩ := Option.map_eq_some_iff.mp h
            obtain ⟨client', session, session', hclient', hsession, hstep, rfl⟩ :=
              withSession_cases hmove
            rw [goTo_eq (by exact hflush)]
            exact .enters hflush hclient' hsession hstep
  · cases h

theorem groupReturns_cases {order : List String} (h : s.groupReturns order = some s') :
    Step s (.groupReturns order) s' := by
  unfold groupReturns at h
  split at h
  · next i rest total hflush =>
      split at h
      · cases h
      · next client hclient =>
          split at h
          · cases h
          · next call hcall =>
              obtain ⟨_, hmove, h⟩ := Option.bind_eq_some_iff.mp h
              obtain ⟨client', session, session', hclient', hsession, hstep, rfl⟩ :=
                withSession_cases hmove
              obtain rfl := Option.some.inj (hclient.symm.trans hclient')
              obtain ⟨moved, hmoved, hperm, rfl⟩ := visitConsumers_cases (by exact hflush) h
              dsimp only at hmoved
              rw [List.getElem?_set_self', hclient] at hmoved
              obtain rfl := Option.some.inj hmoved
              rw [hsession] at hcall
              exact .groupReturns hflush hclient hsession hcall hstep hperm
  · cases h

theorem nextConsumer_cases (h : s.nextConsumer = some s') : Step s .nextConsumer s' := by
  unfold nextConsumer at h
  split at h
  · next hflush =>
      obtain rfl := Option.some.inj h
      rw [goTo_eq hflush]
      exact .leavesClient hflush
  · next i topic topics rest total hflush =>
      split at h
      · cases h
      · next client hclient =>
          split at h
          · cases h
          · next pcm hpcm =>
              unfold Queue.messagesFromOffset at h
              by_cases hle : pcm.hwm ≤ pcm.queue.messages.length
              · rw [if_pos hle] at h
                obtain rfl := Option.some.inj h
                rw [goTo_eq hflush]
                exact .pulls hflush hclient hpcm hle
              · rw [if_neg hle] at h
                obtain rfl := Option.some.inj h
                exact .pullPanics
  · cases h

theorem sendNext_cases (h : s.sendNext = some s') : Step s .sendNext s' := by
  unfold sendNext at h
  split at h
  · next hflush =>
      obtain rfl := Option.some.inj h
      rw [goTo_eq hflush]
      exact .leavesConsumer hflush
  · next hflush =>
      obtain ⟨_, hon, rfl⟩ := Option.map_eq_some_iff.mp h
      obtain ⟨client, pcm, pcm', hclient, hpcm, hmove, rfl⟩ := withConsumer_cases hon
      obtain ⟨hstoring, hmoved⟩ := Option.ite_none_left_eq_some.mp hmove
      obtain rfl := Option.some.inj hmoved
      rw [goTo_eq (by exact hflush)]
      exact .sends hflush hclient hpcm (Bool.eq_false_iff.mpr hstoring)
  · next hflush =>
      obtain ⟨_, hon, rfl⟩ := Option.map_eq_some_iff.mp h
      obtain ⟨client, pcm, pcm', hclient, hpcm, hmove, rfl⟩ := withConsumer_cases hon
      obtain ⟨hstoring, hmoved⟩ := Option.ite_none_left_eq_some.mp hmove
      obtain rfl := Option.some.inj hmoved
      rw [goTo_eq (by exact hflush)]
      exact .sendsNil hflush hclient hpcm (Bool.eq_false_iff.mpr hstoring)
  · cases h

theorem step_cases {action : Action} (h : s.step action = some s') : Step s action s' := by
  obtain ⟨-, h⟩ := Option.ite_none_left_eq_some.mp h
  cases action with
  | consume topic key data hdr =>
      obtain ⟨hfree, rfl⟩ := guard_eq_some.mp h
      exact .consumes (Option.isNone_iff_eq_none.mp hfree)
  | catchup =>
      obtain ⟨hfree, rfl⟩ := guard_eq_some.mp h
      exact .catchesUp (Option.isNone_iff_eq_none.mp hfree)
  | emit i topic key data hdr => exact emit_cases h
  | session i action =>
      obtain ⟨hin, h⟩ := Option.ite_none_right_eq_some.mp h
      obtain ⟨client, session, session', hclient, hsession, hstep, rfl⟩ := withSession_cases h
      exact .moves hin hclient hsession hstep
  | stored i topic =>
      obtain ⟨client, pcm, pcm', hclient, hpcm, hmove, rfl⟩ := withConsumer_cases h
      obtain ⟨hstoring, rfl⟩ := guard_eq_some.mp hmove
      exact .stores hclient hpcm hstoring
  | pass order =>
      change s.pass order = some s' at h
      unfold pass at h
      split at h
      · next hflush =>
          obtain ⟨hperm, rfl⟩ := guard_eq_some.mp h
          exact .passes hflush hperm
      · cases h
  | nextClient order => exact nextClient_cases h
  | groupReturns order => exact groupReturns_cases h
  | nextConsumer => exact nextConsumer_cases h
  | sendNext => exact sendNext_cases h

/-! ### The sessions -/

/-- The sessions deliver as they should, and only the call that `waitForClients` waits for is under
way. -/
structure Sessions (s : Clients) : Prop where
  holds : ∀ client ∈ s.clients, ∀ session ∈ client.session, session.Live ∧ session.Quiet ∧
    session.Finds
  calls : ∀ (i : Nat) (client : Client), s.clients[i]? = some client → ∀ session ∈ client.session,
    session.catchup ≠ none → ∃ rest total, s.flush = some ⟨.group i rest, total⟩

def Unpushed (s : Clients) (i : Nat) : Prop :=
  ∀ (client : Client) (session : CgSession) (call : Catchup), s.clients[i]? = some client →
    client.session = some session → session.catchup = some call → CgSession.Unpushed call

/-- Then there is no message that any handler could work on. -/
theorem Sessions.silent (h : Sessions s)
    (hunpushed : ∀ i rest total, s.flush = some ⟨.group i rest, total⟩ → s.Unpushed i) {i : Nat}
    {client : Client} {session : CgSession} (hclient : s.clients[i]? = some client)
    (hsession : client.session = some session) : session.waitingMessages.keys = [] := by
  obtain ⟨-, hquiet, -⟩ := h.holds client (List.mem_of_getElem? hclient) session hsession
  cases hcatchup : session.catchup with
  | none => exact hquiet.free hcatchup
  | some call =>
      obtain ⟨rest, total, hflush⟩ :=
        h.calls i client hclient session hsession (hcatchup ▸ Option.some_ne_none call)
      exact hquiet.call call hcatchup
        (hunpushed i rest total hflush client session call hclient hsession hcatchup)

theorem sessions_new (tt : TopicQueues)
    (clients : List (Option (List String) × List (String × Nat))) :
    Sessions (new tt clients) where
  holds := by
    refine List.forall_mem_map.mpr fun client _ session hsession => ?_
    obtain ⟨topics, -, rfl⟩ := Option.map_eq_some_iff.mp hsession
    exact ⟨CgSession.live_new tt topics, CgSession.quiet_new tt topics, .of_free rfl⟩
  calls := by
    intro i client hclient session hsession hcall
    obtain ⟨spec, -, rfl⟩ := List.mem_map.mp (List.mem_of_getElem? hclient)
    obtain ⟨topics, -, rfl⟩ := Option.map_eq_some_iff.mp hsession
    exact absurd rfl hcall

section Push

variable {topic : String} {key : Bytes} {data : Option Bytes} {hdr : Headers}

theorem catchup_push (topic : String) (key : Bytes) (data : Option Bytes) (hdr : Headers)
    (session : CgSession) :
    ((session.push topic key data hdr).getD session).catchup = session.catchup := by
  cases hpush : session.push topic key data hdr with
  | none => rfl
  | some pushed =>
      obtain ⟨qs, -, rfl⟩ := Option.map_eq_some_iff.mp hpush
      rfl

/-- A message comes to a session while no call could overlook it. -/
theorem push_keeps {session : CgSession} (hlive : session.Live) (hquiet : session.Quiet)
    (hcall : ∀ call, session.catchup = some call → ¬ CgSession.Unpushed call) :
    ((session.push topic key data hdr).getD session).Live ∧
    ((session.push topic key data hdr).getD session).Quiet ∧
      ((session.push topic key data hdr).getD session).Finds := by
  have hfinds : ∀ {session' : CgSession}, session'.catchup = session.catchup → session'.Finds := by
    intro session' heq call hcatchup hunpushed
    exact absurd hunpushed (hcall call (heq ▸ hcatchup))
  have hcatchup := catchup_push topic key data hdr session
  cases hpush : session.push topic key data hdr with
  | none => exact ⟨hlive, hquiet, hfinds rfl⟩
  | some pushed =>
      rw [hpush, Option.getD_some] at hcatchup
      rw [Option.getD_some]
      have hstep : session.step (.push topic key data hdr) = some pushed := by
        rw [CgSession.step, if_pos hlive.panicked]
        exact hpush
      exact ⟨CgSession.live_step hlive CgSession.Action.noConfusion hstep,
        CgSession.quiet_step hlive hquiet CgSession.Action.noConfusion hstep, hfinds hcatchup⟩

theorem Sessions.pushMessage (h : Sessions s)
    (hcalls : ∀ client ∈ s.clients, ∀ session ∈ client.session, ∀ call,
      session.catchup = some call → ¬ CgSession.Unpushed call) :
    Sessions (s.pushMessage topic key data hdr) := by
  constructor
  · refine List.forall_mem_map.mpr fun client hclient session' hsession' => ?_
    obtain ⟨session, hsession, rfl⟩ := Option.map_eq_some_iff.mp hsession'
    obtain ⟨hlive, hquiet, -⟩ := h.holds client hclient session hsession
    exact push_keeps hlive hquiet (hcalls client hclient session hsession)
  · intro i client' hclient' session' hsession' hcall
    dsimp only [Clients.pushMessage] at hclient'
    rw [List.getElem?_map] at hclient'
    obtain ⟨client, hclient, rfl⟩ := Option.map_eq_some_iff.mp hclient'
    obtain ⟨session, hsession, rfl⟩ := Option.map_eq_some_iff.mp hsession'
    refine h.calls i client hclient session hsession ?_
    rwa [catchup_push] at hcall

end Push

/-- A session moves on. -/
theorem Sessions.move (h : Sessions s) {i : Nat} {client : Client} {session session' : CgSession}
    {action : CgSession.Action} {flush : Option Flush} (hclient : s.clients[i]? = some client)
    (hsession : client.session = some session) (hstep : session.step action = some session')
    (haction : action ≠ .cancel) (hpush : ∀ topic key value hdr, action ≠ .push topic key value hdr)
    (hcall : session'.catchup ≠ none → ∃ rest total, flush = some ⟨.group i rest, total⟩)
    (hothers : ∀ j rest total, j ≠ i → s.flush = some ⟨.group j rest, total⟩ → flush = s.flush) :
    Sessions { s with
      clients := s.clients.set i { client with session := some session' }, flush := flush } := by
  obtain ⟨hlive, hquiet, hfinds⟩ := h.holds client (List.mem_of_getElem? hclient) session hsession
  refine ⟨Threads.forall_mem_set h.holds ?_, Threads.forall_getElem?_set ?_ ?_⟩
  · rintro _ ⟨rfl⟩
    exact ⟨CgSession.live_step hlive haction hstep, CgSession.quiet_step hlive hquiet haction hstep,
      CgSession.finds_step hlive hfinds haction hpush hstep⟩
  · rintro _ ⟨rfl⟩
    exact hcall
  · intro j other hne hother session hsession hbusy
    obtain ⟨rest, total, hflush⟩ := h.calls j other hother session hsession hbusy
    exact ⟨rest, total, (hothers j rest total hne hflush).trans hflush⟩

/-- No call of a session is under way, and none is after the step. -/
theorem Sessions.of_flush (h : Sessions s)
    (hfree : ∀ i rest total, s.flush ≠ some ⟨.group i rest, total⟩) (flush : Option Flush) :
    Sessions { s with flush := flush } := by
  refine ⟨h.holds, fun i client hclient session hsession hcall => ?_⟩
  obtain ⟨rest, total, hflush⟩ := h.calls i client hclient session hsession hcall
  exact absurd hflush (hfree i rest total)

/-- A partition consumer moves on. -/
theorem Sessions.of_consumer (h : Sessions s) {i : Nat} {client : Client}
    (hclient : s.clients[i]? = some client) (partConsumers : GoMap String PartConsumerMock) :
    Sessions { s with
      clients := s.clients.set i { client with partConsumers := partConsumers } } := by
  refine ⟨Threads.forall_mem_set h.holds (h.holds client (List.mem_of_getElem? hclient)), ?_⟩
  refine Threads.forall_getElem?_set (h.calls i client hclient) fun j other _ hother =>
    h.calls j other hother

theorem catchup_none_of_inSession {session session' : CgSession} {action : CgSession.Action}
    (hlive : session.Live) (hin : inSession action = true)
    (hstep : session.step action = some session') (hnone : session.catchup = none) :
    session'.catchup = none := by
  have hbusy : ∀ {call : Catchup}, session.catchup = some call → session'.catchup = none :=
    fun hcall => absurd (hnone.symm.trans hcall).symm (Option.some_ne_none _)
  cases (CgSession.step_cases hstep).2 with
  | marks hclaim hmsg =>
      obtain ⟨htopic, qs, hqs⟩ := hlive.linked.queue_of_sent hclaim hmsg
      rw [htopic, (CgSession.markOffset_cases hlive.panicked hqs).catchup_eq]
      exact hnone
  | pushes | begins | givesUp | returnsDone | returnsCancelled | cancels | closes => cases hin
  | waits hc | reads hc | pulls hc | leaves hc | records hc | adds hc | sends hc => exact hbusy hc
  | pullPanics | duplicates | recordPanics | sendPanics => exact hnone

theorem inSession_kind {action : CgSession.Action} (hin : inSession action = true) :
    action ≠ .cancel ∧ ∀ topic key value hdr, action ≠ .push topic key value hdr := by
  constructor
  · rintro rfl
    cases hin
  · rintro topic key value hdr rfl
    cases hin

/-- A session is moved by its own steps and by `waitForClients`, which waits for one call at a time.
-/
theorem sessions_step {action : Action} (h : Sessions s) (hstep : s.step action = some s') :
    Sessions s' := by
  have hnone : s.flush = none → ∀ i rest total, s.flush ≠ some ⟨.group i rest, total⟩ :=
    fun hfree i rest total hflush => Option.some_ne_none _ (hflush.symm.trans hfree)
  have hother : ∀ {pc : FlushPc} {total : Nat}, s.flush = some ⟨pc, total⟩ →
      (∀ i rest, pc ≠ .group i rest) → ∀ i rest total, s.flush ≠ some ⟨.group i rest, total⟩ := by
    intro pc total hflush hpc i rest total' hflush'
    exact hpc i rest (congrArg Flush.pc (Option.some.inj (hflush.symm.trans hflush')))
  cases step_cases hstep with
  | consumes hfree =>
      refine Sessions.of_flush (s := s.pushMessage _ _ _ _) (h.pushMessage ?_) (hnone hfree) _
      intro client hclient session hsession call hcall
      obtain ⟨i, hi⟩ := List.mem_iff_getElem?.mp hclient
      obtain ⟨rest, total, hflush⟩ :=
        h.calls i client hi session hsession (hcall ▸ Option.some_ne_none call)
      exact absurd hflush (hnone hfree i rest total)
  | catchesUp hfree => exact h.of_flush (hnone hfree) _
  | emits hclient hsession hwaiting =>
      refine h.pushMessage ?_
      intro client' hclient' session' hsession' call hcall hunpushed
      obtain ⟨i, hi⟩ := List.mem_iff_getElem?.mp hclient'
      obtain ⟨rest, total, hflush⟩ :=
        h.calls i client' hi session' hsession' (hcall ▸ Option.some_ne_none call)
      refine absurd (h.silent ?_ hclient hsession) hwaiting
      rintro j rest' total' hflush' client'' session'' call'' hclient'' hsession'' hcall''
      obtain ⟨rfl, -⟩ := FlushPc.group.inj
        (congrArg Flush.pc (Option.some.inj (hflush.symm.trans hflush')))
      obtain rfl := Option.some.inj (hi.symm.trans hclient'')
      obtain rfl := Option.some.inj (hsession'.symm.trans hsession'')
      obtain rfl := Option.some.inj (hcall.symm.trans hcall'')
      exact hunpushed
  | @moves i action client session session' hin hclient hsession hon =>
      obtain ⟨hcancel, hpush⟩ := inSession_kind hin
      obtain ⟨hlive, -, -⟩ := h.holds client (List.mem_of_getElem? hclient) session hsession
      refine h.move hclient hsession hon hcancel hpush (fun hcall => ?_) fun _ _ _ _ _ => rfl
      exact h.calls i client hclient session hsession fun hfree =>
        hcall (catchup_none_of_inSession hlive hin hon hfree)
  | stores hclient => exact h.of_consumer hclient _
  | passes hflush | returns hflush | repeats hflush | visits hflush | leavesClient hflush
  | pulls hflush
  | leavesConsumer hflush => exact h.of_flush (hother hflush fun _ _ => FlushPc.noConfusion) _
  | enters hflush hclient hsession hon =>
      refine h.move hclient hsession hon CgSession.Action.noConfusion
        (fun _ _ _ _ => CgSession.Action.noConfusion)
        (fun _ => ⟨_, _, rfl⟩) fun j rest total _ hflush' => ?_
      exact absurd hflush' (hother hflush (fun _ _ => FlushPc.noConfusion) j rest total)
  | groupReturns hflush hclient hsession hcall hon =>
      refine h.move hclient hsession hon CgSession.Action.noConfusion
        (fun _ _ _ _ => CgSession.Action.noConfusion)
        (fun hbusy => ?_) fun j rest total hne hflush' => ?_
      · cases (CgSession.step_cases hon).2 with
        | returnsDone => exact absurd rfl hbusy
      · obtain ⟨rfl, -⟩ :=
          FlushPc.group.inj (congrArg Flush.pc (Option.some.inj (hflush.symm.trans hflush')))
        exact absurd rfl hne
  | pullPanics => exact ⟨h.holds, h.calls⟩
  | sends hflush hclient | sendsNil hflush hclient =>
      exact (h.of_consumer hclient _).of_flush (hother hflush fun _ _ => FlushPc.noConfusion) _

/-! ### One queue for each topic -/

structure Synced (s : Clients) : Prop where
  sessions : ∀ client ∈ s.clients, ∀ session ∈ client.session, ∀ topic qs,
    session.queues.lookup topic = some qs → qs.queue = s.tt.getOrCreateQueue topic
  consumers : ∀ client ∈ s.clients, ∀ topic pcm,
    client.partConsumers.lookup topic = some pcm → pcm.queue = s.tt.getOrCreateQueue topic

theorem getOrCreateQueue_pushMessage (tt : TopicQueues) (topic : String) (key : Bytes)
    (data : Option Bytes) (hdr : Headers) (other : String) :
    (tt.pushMessage topic key data hdr).getOrCreateQueue other
      = if other = topic then (tt.getOrCreateQueue topic).push key data hdr
        else tt.getOrCreateQueue other := by
  rw [TopicQueues.getOrCreateQueue, TopicQueues.pushMessage]
  dsimp only
  rw [Maps.lookup_insert]
  split <;> rfl

theorem lookup_newPartConsumers (tt : TopicQueues) (tables : List (String × Nat))
    (consumers : GoMap String PartConsumerMock) {topic : String} {pcm : PartConsumerMock}
    (h : (tables.foldl (fun consumers table =>
      consumers.insert table.1 (tt.newPartConsumer table.1 table.2))
      consumers).lookup topic = some pcm) :
    consumers.lookup topic = some pcm ∨ ∃ offset, pcm = tt.newPartConsumer topic offset := by
  induction tables generalizing consumers with
  | nil => exact .inl h
  | cons table tables ih =>
      rcases ih _ h with hlookup | hnew
      · rw [Maps.lookup_insert] at hlookup
        split at hlookup
        · next heq => exact .inr ⟨table.2, heq ▸ (Option.some.inj hlookup).symm⟩
        · exact .inl hlookup
      · exact .inr hnew

theorem newPartConsumer_of_new {tt : TopicQueues} {group : Option (List String)}
    {tables : List (String × Nat)} {topic : String} {pcm : PartConsumerMock}
    (h : (Client.new tt group tables).partConsumers.lookup topic = some pcm) :
    ∃ offset, pcm = tt.newPartConsumer topic offset :=
  (lookup_newPartConsumers tt tables ∅ h).resolve_left fun hnone =>
    absurd hnone.symm (Option.some_ne_none pcm)

theorem synced_new (tt : TopicQueues)
    (clients : List (Option (List String) × List (String × Nat))) :
    Synced (new tt clients) where
  sessions := by
    refine List.forall_mem_map.mpr fun client _ session hsession topic qs hqs => ?_
    obtain ⟨topics, -, rfl⟩ := Option.map_eq_some_iff.mp hsession
    rw [CgSession.lookup_newCgSession] at hqs
    obtain ⟨-, rfl⟩ := guard_eq_some.mp hqs
    rfl
  consumers := by
    refine List.forall_mem_map.mpr fun client _ topic pcm hpcm => ?_
    obtain ⟨offset, rfl⟩ := newPartConsumer_of_new hpcm
    rfl

theorem lookup_push_session {session : CgSession} {topic : String} {key : Bytes}
    {data : Option Bytes} {hdr : Headers} {other : String} {qs' : QueueSession}
    (h : ((session.push topic key data hdr).getD session).queues.lookup other = some qs') :
    ∃ qs, session.queues.lookup other = some qs ∧
      qs'.queue = if other = topic then qs.queue.push key data hdr else qs.queue := by
  rw [CgSession.push] at h
  cases hqs : session.queues.lookup topic with
  | none =>
      rw [hqs] at h
      refine ⟨qs', h, ?_⟩
      rw [if_neg]
      rintro rfl
      exact absurd (hqs.symm.trans h).symm (Option.some_ne_none qs')
  | some qs =>
      rw [hqs] at h
      dsimp only [Option.map_some, Option.getD_some] at h
      rw [Maps.lookup_insert] at h
      split at h
      · next heq =>
          obtain rfl := Option.some.inj h
          exact ⟨qs, heq ▸ hqs, (if_pos heq).symm⟩
      · next hne => exact ⟨qs', h, (if_neg hne).symm⟩

theorem lookup_push_consumer {client : Client} {topic : String} {key : Bytes} {data : Option Bytes}
    {hdr : Headers} {other : String} {pcm' : PartConsumerMock}
    (h : (client.push topic key data hdr).partConsumers.lookup other = some pcm') :
    ∃ pcm, client.partConsumers.lookup other = some pcm ∧
      pcm' = { pcm with
        queue := if other = topic then pcm.queue.push key data hdr else pcm.queue } := by
  rw [Client.push] at h
  dsimp only at h
  split at h
  · next hnone =>
      refine ⟨pcm', h, ?_⟩
      rw [if_neg]
      rintro rfl
      exact absurd (hnone.symm.trans h).symm (Option.some_ne_none pcm')
  · next pcm hpcm =>
      rw [Maps.lookup_insert] at h
      split at h
      · next heq =>
          obtain rfl := Option.some.inj h
          exact ⟨pcm, heq ▸ hpcm, by rw [if_pos heq]⟩
      · next hne => exact ⟨pcm', h, by rw [if_neg hne]⟩

/-- A push goes to the queue of the tester and to all that look at it. -/
theorem Synced.pushMessage (h : Synced s) (topic : String) (key : Bytes) (data : Option Bytes)
    (hdr : Headers) :
    Synced (s.pushMessage topic key data hdr) where
  sessions := by
    refine List.forall_mem_map.mpr fun client hclient session' hsession' other qs' hqs' => ?_
    obtain ⟨session, hsession, rfl⟩ := Option.map_eq_some_iff.mp hsession'
    obtain ⟨qs, hqs, hqueue⟩ := lookup_push_session hqs'
    change qs'.queue = (s.tt.pushMessage topic key data hdr).getOrCreateQueue other
    rw [hqueue, getOrCreateQueue_pushMessage,
      h.sessions client hclient session hsession other qs hqs]
    split
    · next heq => rw [heq]
    · rfl
  consumers := by
    refine List.forall_mem_map.mpr fun client hclient other pcm' hpcm' => ?_
    obtain ⟨pcm, hpcm, rfl⟩ := lookup_push_consumer hpcm'
    change _ = (s.tt.pushMessage topic key data hdr).getOrCreateQueue other
    rw [getOrCreateQueue_pushMessage, h.consumers client hclient other pcm hpcm]
    split
    · next heq => rw [heq]
    · rfl

/-- Nothing but a push changes the queues of a session. -/
theorem queue_step {session session' : CgSession} {action : CgSession.Action} (hlive : session.Live)
    (hpush : ∀ topic key value hdr, action ≠ .push topic key value hdr) (hcancel : action ≠ .cancel)
    (hstep : session.step action = some session') {topic : String} {qs' : QueueSession}
    (hqs' : session'.queues.lookup topic = some qs') :
    ∃ qs, session.queues.lookup topic = some qs ∧ qs'.queue = qs.queue := by
  have hset : ∀ {marked : String} {offset : Nat} {qs : QueueSession},
      session.queues.lookup marked = some qs →
      (session.queues.insert marked (qs.setHwmIfNewer (offset + 1))).lookup topic = some qs' →
      ∃ qs, session.queues.lookup topic = some qs ∧ qs'.queue = qs.queue := by
    intro marked offset qs hqs hinsert
    rw [Maps.lookup_insert] at hinsert
    split at hinsert
    · next heq =>
        obtain rfl := Option.some.inj hinsert
        exact ⟨qs, heq ▸ hqs, CgSession.queue_setHwmIfNewer qs _⟩
    · exact ⟨qs', hinsert, rfl⟩
  cases (CgSession.step_cases hstep).2 with
  | pushes => exact absurd rfl (hpush _ _ _ _)
  | @marks topic' i claim msg hclaim hmsg =>
      obtain ⟨htopic, qs, hqs⟩ := hlive.linked.queue_of_sent hclaim hmsg
      rw [htopic] at hqs'
      have hmarks : CgSession.Marks session topic' msg.offset qs _ :=
        CgSession.markOffset_cases hlive.panicked hqs
      generalize session.markOffset topic' msg.offset = session' at hmarks hqs'
      cases hmarks with
      | waiting | again => exact hset hqs hqs'
      | negative => exact ⟨qs', hqs', rfl⟩
  | givesUp _ _ hcancelled =>
      exact absurd (hlive.delivering.uncancelled.symm.trans hcancelled) Bool.false_ne_true
  | _ => exact ⟨qs', hqs', rfl⟩

theorem Synced.move (h : Synced s) (hsessions : Sessions s) {i : Nat} {client : Client}
    {session session' : CgSession} {action : CgSession.Action} (flush : Option Flush)
    (hclient : s.clients[i]? = some client) (hsession : client.session = some session)
    (hstep : session.step action = some session') (haction : action ≠ .cancel)
    (hpush : ∀ topic key value hdr, action ≠ .push topic key value hdr) :
    Synced { s with
      clients := s.clients.set i { client with session := some session' }, flush := flush } := by
  have hmem := List.mem_of_getElem? hclient
  obtain ⟨hlive, -, -⟩ := hsessions.holds client hmem session hsession
  refine ⟨Threads.forall_mem_set h.sessions ?_,
    Threads.forall_mem_set h.consumers (h.consumers client hmem)⟩
  rintro _ ⟨rfl⟩ topic qs' hqs'
  obtain ⟨qs, hqs, hqueue⟩ := queue_step hlive hpush haction hstep hqs'
  rw [hqueue]
  exact h.sessions client hmem session hsession topic qs hqs

theorem Synced.of_consumer (h : Synced s) {i : Nat} {client : Client} {topic : String}
    {pcm pcm' : PartConsumerMock} (flush : Option Flush) (hclient : s.clients[i]? = some client)
    (hpcm : client.partConsumers.lookup topic = some pcm) (hqueue : pcm'.queue = pcm.queue) :
    Synced { s with
      clients := s.clients.set i { client with
        partConsumers := client.partConsumers.insert topic pcm' }
      flush := flush } := by
  have hmem := List.mem_of_getElem? hclient
  refine ⟨Threads.forall_mem_set h.sessions (h.sessions client hmem),
    Threads.forall_mem_set h.consumers ?_⟩
  refine Maps.forall_lookup_insert ?_ (h.consumers client hmem)
  rw [hqueue]
  exact h.consumers client hmem topic pcm hpcm

theorem synced_step {action : Action} (hsessions : Sessions s) (h : Synced s)
    (hstep : s.step action = some s') :
    Synced s' := by
  cases step_cases hstep with
  | consumes => exact ⟨(h.pushMessage _ _ _ _).sessions, (h.pushMessage _ _ _ _).consumers⟩
  | emits => exact h.pushMessage _ _ _ _
  | moves hin hclient hsession hon =>
      obtain ⟨hcancel, hpush⟩ := inSession_kind hin
      exact h.move hsessions s.flush hclient hsession hon hcancel hpush
  | enters _ hclient hsession hon | groupReturns _ hclient hsession _ hon =>
      exact h.move hsessions _ hclient hsession hon CgSession.Action.noConfusion
        fun _ _ _ _ => CgSession.Action.noConfusion
  | stores hclient hpcm => exact h.of_consumer s.flush hclient hpcm rfl
  | sends _ hclient hpcm | sendsNil _ hclient hpcm => exact h.of_consumer _ hclient hpcm rfl
  | _ => exact ⟨h.sessions, h.consumers⟩

/-! ### The partition consumers -/

def sending : Option Flush → Option (Nat × String)
  | some ⟨.nilling i topic _ _ _ _, _⟩ => some (i, topic)
  | _ => none

/-- The consumer that is visited, and the messages that its offset has not passed. -/
def visiting : Option Flush → Option (Nat × String × List Message)
  | some ⟨.pushing i topic msgs _ _, _⟩ => some (i, topic, msgs)
  | some ⟨.nilling i topic msg msgs _ _, _⟩ => some (i, topic, msg :: msgs)
  | _ => none

/-- What a partition consumer was sent, and what it is going to be sent. -/
structure Feeds (s : Clients) : Prop where
  sent : ∀ (i : Nat) (client : Client), s.clients[i]? = some client → ∀ topic pcm,
    client.partConsumers.lookup topic = some pcm →
    pcm.sent <+: (pcm.queue.messages.drop pcm.start).map fun msg => msg.consumerMessage topic
  hwm : ∀ (i : Nat) (client : Client), s.clients[i]? = some client → ∀ topic pcm,
    client.partConsumers.lookup topic = some pcm →
    pcm.hwm + (if sending s.flush = some (i, topic) then 1 else 0) = pcm.start + pcm.sent.length
  storing : ∀ (i : Nat) (client : Client), s.clients[i]? = some client → ∀ topic pcm,
    client.partConsumers.lookup topic = some pcm → pcm.storing = true →
    sending s.flush = some (i, topic)
  left : ∀ i topic msgs, visiting s.flush = some (i, topic, msgs) →
    ∀ client, s.clients[i]? = some client →
    ∀ pcm, client.partConsumers.lookup topic = some pcm → msgs <+: pcm.queue.messages.drop pcm.hwm

theorem feeds_new (tt : TopicQueues) (clients : List (Option (List String) × List (String × Nat))) :
    Feeds (new tt clients) := by
  have hnew : ∀ (i : Nat) (client : Client), (new tt clients).clients[i]? = some client →
      ∀ topic pcm, client.partConsumers.lookup topic = some pcm →
        ∃ offset, pcm = tt.newPartConsumer topic offset := by
    intro i client hclient topic pcm hpcm
    obtain ⟨spec, -, rfl⟩ := List.mem_map.mp (List.mem_of_getElem? hclient)
    exact newPartConsumer_of_new hpcm
  refine ⟨?_, ?_, ?_, fun _ _ _ hleft => absurd hleft.symm (Option.some_ne_none _)⟩
  · intro i client hclient topic pcm hpcm
    obtain ⟨offset, rfl⟩ := hnew i client hclient topic pcm hpcm
    exact List.nil_prefix
  · intro i client hclient topic pcm hpcm
    obtain ⟨offset, rfl⟩ := hnew i client hclient topic pcm hpcm
    rfl
  · intro i client hclient topic pcm hpcm hstoring
    obtain ⟨offset, rfl⟩ := hnew i client hclient topic pcm hpcm
    cases hstoring

/-- The partition consumers stay what they are, but for messages that are new in their queues. -/
theorem Feeds.of_same (h : Feeds s)
    (hclients : ∀ (i : Nat) (client' : Client), s'.clients[i]? = some client' →
      ∀ topic pcm', client'.partConsumers.lookup topic = some pcm' → ∃ client pcm,
        s.clients[i]? = some client ∧ client.partConsumers.lookup topic = some pcm ∧
        pcm.queue.messages <+: pcm'.queue.messages ∧ pcm' = { pcm with queue := pcm'.queue })
    (hsending : sending s'.flush = sending s.flush)
    (hleft : visiting s'.flush = none ∨ visiting s'.flush = visiting s.flush) : Feeds s' := by
  refine ⟨?_, ?_, ?_, ?_⟩
  · intro i client' hclient' topic pcm' hpcm'
    obtain ⟨client, pcm, hclient, hpcm, hmessages, heq⟩ :=
      hclients i client' hclient' topic pcm' hpcm'
    rw [heq]
    exact (h.sent i client hclient topic pcm hpcm).trans ((hmessages.drop pcm.start).map _)
  · intro i client' hclient' topic pcm' hpcm'
    obtain ⟨client, pcm, hclient, hpcm, -, heq⟩ := hclients i client' hclient' topic pcm' hpcm'
    rw [heq, hsending]
    exact h.hwm i client hclient topic pcm hpcm
  · intro i client' hclient' topic pcm' hpcm' hstoring
    obtain ⟨client, pcm, hclient, hpcm, -, heq⟩ := hclients i client' hclient' topic pcm' hpcm'
    rw [heq] at hstoring
    rw [hsending]
    exact h.storing i client hclient topic pcm hpcm hstoring
  · intro i topic msgs hmsgs client' hclient' pcm' hpcm'
    obtain ⟨client, pcm, hclient, hpcm, hmessages, heq⟩ :=
      hclients i client' hclient' topic pcm' hpcm'
    have hbefore : visiting s.flush = some (i, topic, msgs) :=
      (hleft.resolve_left fun hnone => Option.some_ne_none _ (hmsgs.symm.trans hnone)) ▸ hmsgs
    rw [heq]
    exact (h.left i topic msgs hbefore client hclient pcm hpcm).trans (hmessages.drop pcm.hwm)

theorem same_clients (i : Nat) (client' : Client) (hclient' : s.clients[i]? = some client')
    (topic : String) (pcm' : PartConsumerMock)
    (hpcm' : client'.partConsumers.lookup topic = some pcm') :
    ∃ client pcm, s.clients[i]? = some client ∧ client.partConsumers.lookup topic = some pcm ∧
      pcm.queue.messages <+: pcm'.queue.messages ∧ pcm' = { pcm with queue := pcm'.queue } :=
  ⟨client', pcm', hclient', hpcm', List.prefix_rfl, rfl⟩

/-- `waitForClients` goes on without a partition consumer. -/
theorem Feeds.of_flush (h : Feeds s) {flush : Option Flush}
    (hsending : sending flush = sending s.flush) (hleft : visiting flush = none) :
    Feeds { s with flush := flush } :=
  h.of_same same_clients hsending (.inl hleft)

theorem Feeds.of_session (h : Feeds s) {i : Nat} {client : Client}
    (hclient : s.clients[i]? = some client) (session : Option CgSession) {flush : Option Flush}
    (hsending : sending flush = sending s.flush)
    (hleft : visiting flush = none ∨ visiting flush = visiting s.flush) :
    Feeds { s with
      clients := s.clients.set i { client with session := session }, flush := flush } := by
  refine h.of_same ?_ hsending hleft
  exact Threads.forall_getElem?_set (fun topic pcm hpcm => ⟨client, pcm, hclient, hpcm,
    List.prefix_rfl, rfl⟩)
    fun j other _ hother => same_clients j other hother

theorem Feeds.pushMessage (h : Feeds s) (topic : String) (key : Bytes) (data : Option Bytes)
    (hdr : Headers) :
    Feeds (s.pushMessage topic key data hdr) := by
  refine h.of_same ?_ rfl (.inr rfl)
  intro i client' hclient' other pcm' hpcm'
  dsimp only [Clients.pushMessage] at hclient'
  rw [List.getElem?_map] at hclient'
  obtain ⟨client, hclient, rfl⟩ := Option.map_eq_some_iff.mp hclient'
  obtain ⟨pcm, hpcm, rfl⟩ := lookup_push_consumer hpcm'
  refine ⟨client, pcm, hclient, hpcm, ?_, rfl⟩
  dsimp only
  split
  · exact List.prefix_append _ _
  · exact List.prefix_rfl

/-- A partition consumer moves on. -/
theorem Feeds.of_consumer (h : Feeds s) {i : Nat} {topic : String} {client : Client}
    {pcm' : PartConsumerMock}
    {flush : Option Flush} (hclient : s.clients[i]? = some client)
    (hsent : pcm'.sent <+: (pcm'.queue.messages.drop pcm'.start).map fun msg =>
      msg.consumerMessage topic)
    (hhwm : pcm'.hwm + (if sending flush = some (i, topic) then 1 else 0)
      = pcm'.start + pcm'.sent.length)
    (hstoring : pcm'.storing = true → sending flush = some (i, topic))
    (hothers : ∀ j other, (j, other) ≠ (i, topic) →
      (sending flush = some (j, other) ↔ sending s.flush = some (j, other)))
    (hleft : ∀ j other msgs, visiting flush = some (j, other, msgs) →
      (j, other) = (i, topic) ∧ msgs <+: pcm'.queue.messages.drop pcm'.hwm) :
    Feeds { s with
      clients := s.clients.set i { client with
        partConsumers := client.partConsumers.insert topic pcm' }
      flush := flush } := by
  have hne : ∀ {j : Nat} {other : String}, j ≠ i → (j, other) ≠ (i, topic) :=
    fun hne heq => hne (congrArg Prod.fst heq)
  have hne' : ∀ {other : String}, other ≠ topic → (i, other) ≠ (i, topic) :=
    fun hne heq => hne (congrArg Prod.snd heq)
  refine ⟨?_, ?_, ?_, ?_⟩
  · refine Threads.forall_getElem?_set ?_ fun j other _ hother => h.sent j other hother
    exact Maps.forall_lookup_insert hsent (h.sent i client hclient)
  · refine Threads.forall_getElem?_set ?_ fun j other hji hother topic' pcm hpcm => ?_
    · intro topic' pcm hpcm
      dsimp only at hpcm
      rw [Maps.lookup_insert] at hpcm
      split at hpcm
      · next heq =>
          obtain rfl := Option.some.inj hpcm
          rw [heq]
          exact hhwm
      · next htopic =>
          have hbefore := h.hwm i client hclient topic' pcm hpcm
          rwa [if_congr (hothers i topic' (hne' htopic)).symm rfl rfl] at hbefore
    · have hbefore := h.hwm j other hother topic' pcm hpcm
      rwa [if_congr (hothers j topic' (hne hji)).symm rfl rfl] at hbefore
  · refine Threads.forall_getElem?_set ?_ fun j other hji hother topic' pcm hpcm hbusy => ?_
    · intro topic' pcm hpcm hbusy
      dsimp only at hpcm
      rw [Maps.lookup_insert] at hpcm
      split at hpcm
      · next heq =>
          obtain rfl := Option.some.inj hpcm
          rw [heq]
          exact hstoring hbusy
      · next htopic =>
          exact (hothers i topic' (hne' htopic)).mpr
            (h.storing i client hclient topic' pcm hpcm hbusy)
    · exact (hothers j topic' (hne hji)).mpr (h.storing j other hother topic' pcm hpcm hbusy)
  · intro j other msgs hmsgs client' hclient' pcm hpcm
    obtain ⟨heq, hprefix⟩ := hleft j other msgs hmsgs
    obtain ⟨rfl, rfl⟩ := Prod.mk.inj heq
    dsimp only at hclient'
    rw [List.getElem?_set_self', hclient] at hclient'
    obtain rfl := Option.some.inj hclient'
    rw [Function.const_apply, AList.lookup_insert] at hpcm
    obtain rfl := Option.some.inj hpcm
    exact hprefix

theorem visiting_of_sending {flush : Option Flush} {i : Nat} {topic : String}
    (h : sending flush = some (i, topic)) :
    ∃ msgs, visiting flush = some (i, topic, msgs) := by
  unfold sending at h
  split at h
  · cases h
    exact ⟨_, rfl⟩
  · cases h

theorem topic_queue (h : Synced s) {i : Nat} {client : Client} {topic : String}
    {pcm : PartConsumerMock} (hclient : s.clients[i]? = some client)
    (hpcm : client.partConsumers.lookup topic = some pcm) :
    pcm.queue.topic = topic := by
  rw [h.consumers client (List.mem_of_getElem? hclient) topic pcm hpcm]
  exact CgSession.topic_getOrCreateQueue s.tt topic

/-- Only the consumer that is visited is sent anything. -/
theorem feeds_step {action : Action} (hsynced : Synced s) (h : Feeds s)
    (hstep : s.step action = some s') :
    Feeds s' := by
  cases step_cases hstep with
  | consumes hfree =>
      exact (h.pushMessage _ _ _ _).of_flush
        (by rw [show (s.pushMessage _ _ _ _).flush = _ from hfree]; rfl) rfl
  | emits => exact h.pushMessage _ _ _ _
  | catchesUp hflush | passes hflush | returns hflush | repeats hflush | visits hflush
  | leavesClient hflush
  | leavesConsumer hflush => exact h.of_flush (by rw [hflush]; rfl) rfl
  | moves _ hclient => exact h.of_session hclient _ rfl (.inr rfl)
  | enters hflush hclient | groupReturns hflush hclient =>
      exact h.of_session hclient _ (by rw [hflush]; rfl) (.inl rfl)
  | pullPanics => exact ⟨h.sent, h.hwm, h.storing, h.left⟩
  | @pulls i topic topics rest total client pcm hflush hclient hpcm hle =>
      have hnone : sending s.flush = none := by
        rw [hflush]
        rfl
      refine ⟨h.sent, fun j other hother topic' pcm' hpcm' => ?_,
        fun j other hother topic' pcm' hpcm' hbusy => ?_, ?_⟩
      · have hbefore := h.hwm j other hother topic' pcm' hpcm'
        rw [hnone] at hbefore
        exact hbefore
      · have hbefore := h.storing j other hother topic' pcm' hpcm' hbusy
        rw [hnone] at hbefore
        exact absurd hbefore.symm (Option.some_ne_none _)
      · intro j other msgs hleft client' hclient' pcm' hpcm'
        obtain ⟨rfl, hmsgs⟩ := Prod.mk.inj (Option.some.inj hleft)
        obtain ⟨rfl, rfl⟩ := Prod.mk.inj hmsgs
        obtain rfl := Option.some.inj (hclient.symm.trans hclient')
        obtain rfl := Option.some.inj (hpcm.symm.trans hpcm')
        exact List.prefix_rfl
  | @stores i topic client pcm hclient hpcm hstoring =>
      refine h.of_consumer hclient (h.sent i client hclient topic pcm hpcm)
        (h.hwm i client hclient topic pcm hpcm)
        (fun hbusy => Bool.noConfusion hbusy) (fun _ _ _ => Iff.rfl) fun j other msgs hleft => ?_
      have hsending := h.storing i client hclient topic pcm hpcm hstoring
      obtain ⟨msgs', hvisiting⟩ := visiting_of_sending hsending
      obtain ⟨rfl, hrest⟩ := Prod.mk.inj (Option.some.inj (hleft.symm.trans hvisiting))
      obtain ⟨rfl, rfl⟩ := Prod.mk.inj hrest
      exact ⟨rfl, h.left j other msgs hleft client hclient pcm hpcm⟩
  | @sends i topic msg msgs topics rest total client pcm hflush hclient hpcm hstoring =>
      have hnone : sending s.flush = none := by
        rw [hflush]
        rfl
      have hleft : msg :: msgs <+: pcm.queue.messages.drop pcm.hwm :=
        h.left i topic (msg :: msgs) (by rw [hflush]; rfl) client hclient pcm hpcm
      have hhwm := h.hwm i client hclient topic pcm hpcm
      rw [hnone, if_neg (Option.some_ne_none _).symm, Nat.add_zero] at hhwm
      refine h.of_consumer hclient ?_ ?_ (fun _ => rfl)
        (fun j other hne => ?_) fun j other msgs' heq => ?_
      · refine CgSession.concat_prefix (h.sent i client hclient topic pcm hpcm) ?_
        rw [List.getElem?_map, List.getElem?_drop, ← hhwm,
          (CgSession.getElem?_of_cons_prefix_drop hleft).1, topic_queue hsynced hclient hpcm]
        rfl
      · have hafter : sending (some ⟨.nilling i topic msg msgs topics rest, total⟩)
            = some (i, topic) := rfl
        rw [if_pos hafter, List.length_append, List.length_singleton, hhwm, Nat.add_assoc]
      · rw [hnone]
        exact iff_of_false (fun heq => hne (Option.some.inj heq).symm) (Option.some_ne_none _).symm
      · obtain ⟨rfl, hrest⟩ := Prod.mk.inj (Option.some.inj heq)
        obtain ⟨rfl, rfl⟩ := Prod.mk.inj hrest
        exact ⟨rfl, hleft⟩
  | @sendsNil i topic msg msgs topics rest total client pcm hflush hclient hpcm hstoring =>
      have hsome : sending s.flush = some (i, topic) := by
        rw [hflush]
        rfl
      have hleft : msg :: msgs <+: pcm.queue.messages.drop pcm.hwm :=
        h.left i topic (msg :: msgs) (by rw [hflush]; rfl) client hclient pcm hpcm
      obtain ⟨hmsg, hmsgs⟩ := CgSession.getElem?_of_cons_prefix_drop hleft
      have hoffset : msg.offset = pcm.hwm := pcm.queue.offset_eq pcm.hwm msg hmsg
      have hhwm := h.hwm i client hclient topic pcm hpcm
      rw [hsome, if_pos rfl] at hhwm
      refine h.of_consumer hclient (h.sent i client hclient topic pcm hpcm) ?_ ?_
        (fun j other hne => ?_)
        fun j other msgs' heq => ?_
      · have hafter : sending (some ⟨.pushing i topic msgs topics rest, total + 1⟩)
            ≠ some (i, topic) :=
          (Option.some_ne_none _).symm
        rw [if_neg hafter, hoffset, Nat.add_zero]
        exact hhwm
      · exact fun hbusy => Bool.noConfusion (hstoring.symm.trans hbusy)
      · rw [hsome]
        exact iff_of_false (Option.some_ne_none _).symm fun heq => hne (Option.some.inj heq).symm
      · obtain ⟨rfl, hrest⟩ := Prod.mk.inj (Option.some.inj heq)
        obtain ⟨rfl, rfl⟩ := Prod.mk.inj hrest
        refine ⟨rfl, ?_⟩
        dsimp only
        rw [hoffset]
        exact hmsgs

/-! ### The last pass -/

def AllBut (client : Client) (topics : List String) : Prop :=
  (∀ session ∈ client.session, session.Drained) ∧
    ∀ topic pcm, client.partConsumers.lookup topic = some pcm → topic ∉ topics →
    pcm.hwm = pcm.queue.messages.length

def DrainedBut (s : Clients) (rest : List Nat) : Prop :=
  ∀ (i : Nat) (client : Client), s.clients[i]? = some client → i ∉ rest → AllBut client []

def Clean (s : Clients) : FlushPc → Prop
  | .passing | .nilling .. => True
  | .clients rest => s.DrainedBut rest
  | .group i rest => s.Unpushed i → s.DrainedBut (i :: rest)
  | .consumers i topics rest =>
      s.DrainedBut (i :: rest) ∧ ∀ client, s.clients[i]? = some client → AllBut client topics
  | .pushing i topic msgs topics rest =>
      s.DrainedBut (i :: rest) ∧ ∀ client, s.clients[i]? = some client →
        AllBut client (topic :: topics) ∧
        ∀ pcm, client.partConsumers.lookup topic = some pcm →
          pcm.hwm ≤ pcm.queue.messages.length ∧ msgs = pcm.queue.messages.drop pcm.hwm

def Clears (s : Clients) : Prop := ∀ pc, s.flush = some ⟨pc, 0⟩ → s.Clean pc

theorem Clears.of_flush {pc : FlushPc} {total : Nat} (hflush : s.flush = some ⟨pc, total⟩)
    (hclean : total = 0 → Clean s pc) : Clears s := by
  intro pc' hflush'
  obtain ⟨rfl, rfl⟩ := Flush.mk.inj (Option.some.inj (hflush.symm.trans hflush'))
  exact hclean rfl

theorem not_mem_cons {i j : Nat} {rest : List Nat} (hne : j ≠ i) (hmem : j ∉ rest) :
    j ∉ i :: rest :=
  fun h => (List.mem_cons.mp h).elim hne hmem

/-- A client outside of what is asked for may change. -/
theorem DrainedBut.set {rest : List Nat} {i : Nat} (h : s.DrainedBut (i :: rest)) (client : Client)
    (flush : Option Flush) :
    DrainedBut { s with clients := s.clients.set i client, flush := flush } (i :: rest) :=
  Threads.forall_getElem?_set (fun hmem => absurd (List.mem_cons_self ..) hmem)
    fun j other _ hother hmem => h j other hother hmem

structure Keeps (client client' : Client) : Prop where
  session : ∀ session' ∈ client'.session, ∃ session ∈ client.session, session.Drained →
    session'.Drained
  consumers : ∀ topic pcm', client'.partConsumers.lookup topic = some pcm' →
    ∃ pcm, client.partConsumers.lookup topic = some pcm ∧ pcm'.hwm = pcm.hwm ∧
    pcm'.queue = pcm.queue

theorem Keeps.refl (client : Client) : Keeps client client :=
  ⟨fun session hsession => ⟨session, hsession, id⟩, fun _ pcm hpcm => ⟨pcm, hpcm, rfl, rfl⟩⟩

theorem Keeps.allBut {client client' : Client} {topics : List String} (h : Keeps client client')
    (hall : AllBut client topics) : AllBut client' topics := by
  constructor
  · intro session' hsession'
    obtain ⟨session, hsession, hdrained⟩ := h.session session' hsession'
    exact hdrained (hall.1 session hsession)
  · intro topic pcm' hpcm' hmem
    obtain ⟨pcm, hpcm, hhwm, hqueue⟩ := h.consumers topic pcm' hpcm'
    rw [hhwm, hqueue]
    exact hall.2 topic pcm hpcm hmem

/-- A pass that has sent nothing stays so while the clients stay where they are. -/
theorem Clean.mono {pc : FlushPc} (h : s.Clean pc)
    (hkeeps : ∀ (i : Nat) (client' : Client), s'.clients[i]? = some client' →
      ∃ client, s.clients[i]? = some client ∧ Keeps client client')
    (hunpushed : ∀ i, s'.Unpushed i → s.Unpushed i) : s'.Clean pc := by
  have hdrained : ∀ {rest : List Nat}, s.DrainedBut rest → s'.DrainedBut rest := by
    intro rest hrest i client' hclient' hmem
    obtain ⟨client, hclient, hkeep⟩ := hkeeps i client' hclient'
    exact hkeep.allBut (hrest i client hclient hmem)
  cases pc with
  | passing | nilling => exact trivial
  | clients rest => exact hdrained h
  | group i rest => exact fun hcall => hdrained (h (hunpushed i hcall))
  | consumers i topics rest =>
      refine ⟨hdrained h.1, fun client' hclient' => ?_⟩
      obtain ⟨client, hclient, hkeep⟩ := hkeeps i client' hclient'
      exact hkeep.allBut (h.2 client hclient)
  | pushing i topic msgs topics rest =>
      refine ⟨hdrained h.1, fun client' hclient' => ?_⟩
      obtain ⟨client, hclient, hkeep⟩ := hkeeps i client' hclient'
      refine ⟨hkeep.allBut (h.2 client hclient).1, fun pcm' hpcm' => ?_⟩
      obtain ⟨pcm, hpcm, hhwm, hqueue⟩ := hkeep.consumers topic pcm' hpcm'
      rw [hhwm, hqueue]
      exact (h.2 client hclient).2 pcm hpcm

/-- Without a call, a session only takes marks. -/
theorem drained_of_free {session session' : CgSession} {action : CgSession.Action}
    (hlive : session.Live) (hin : inSession action = true)
    (hstep : session.step action = some session') (hfree : session.catchup = none)
    (h : session.Drained) : session'.Drained := by
  have hbusy : ∀ {call : Catchup}, session.catchup = some call → session'.Drained :=
    fun hcall => absurd (hfree.symm.trans hcall).symm (Option.some_ne_none _)
  cases (CgSession.step_cases hstep).2 with
  | @marks topic i claim msg hclaim hmsg =>
      obtain ⟨htopic, qs, hqs⟩ := hlive.linked.queue_of_sent hclaim hmsg
      have hmarks : CgSession.Marks session topic msg.offset qs _ :=
        CgSession.markOffset_cases hlive.panicked hqs
      intro other
      rw [htopic, hmarks.messagesOf_eq hqs, hmarks.sentOf_eq]
      exact h other
  | pushes | begins | givesUp | returnsDone | returnsCancelled | cancels | closes => cases hin
  | waits hc | reads hc | pulls hc | leaves hc | records hc | adds hc | sends hc => exact hbusy hc
  | pullPanics hc | duplicates hc | recordPanics hc | sendPanics hc => exact hbusy hc

/-- A call that has taken nothing has taken nothing before. -/
theorem unpushed_before {session session' : CgSession} {action : CgSession.Action}
    (hlive : session.Live) (hin : inSession action = true)
    (hstep : session.step action = some session') {call : Catchup}
    (hcall : session.catchup = some call)
    (hunpushed : ∀ call', session'.catchup = some call' → CgSession.Unpushed call') :
    CgSession.Unpushed call := by
  cases (CgSession.step_cases hstep).2 with
  | @marks topic i claim msg hclaim hmsg =>
      obtain ⟨htopic, qs, hqs⟩ := hlive.linked.queue_of_sent hclaim hmsg
      have hmarks : CgSession.Marks session topic msg.offset qs _ :=
        CgSession.markOffset_cases hlive.panicked hqs
      refine hunpushed call ?_
      rw [htopic, hmarks.catchup_eq]
      exact hcall
  | pushes | begins | givesUp | returnsDone | returnsCancelled | cancels | closes => cases hin
  | waits hc hpc | reads hc hpc | pulls hc hpc | leaves hc hpc =>
      obtain rfl := Option.some.inj (hcall.symm.trans hc)
      exact ⟨(hunpushed _ rfl).1, by rw [hpc]; rfl⟩
  | records hc | adds hc => exact absurd (hunpushed _ rfl).2 (Option.some_ne_none _)
  | sends hc => exact absurd (hunpushed _ rfl).1 (Nat.succ_ne_zero _)
  | pullPanics | duplicates | recordPanics | sendPanics => exact hunpushed call hcall

/-- What is asked of a client whose tables are all still to be visited. -/
theorem allBut_keys {client : Client} {order : List String}
    (hperm : order.Perm client.partConsumers.keys)
    (hsession : ∀ session ∈ client.session, session.Drained) : AllBut client order := by
  refine ⟨hsession, fun topic pcm hpcm hmem => absurd ?_ hmem⟩
  rw [hperm.mem_iff, ← AList.mem_keys, ← AList.lookup_isSome, hpcm]
  rfl

theorem Clears.moves {i : Nat} {action : CgSession.Action} {client : Client}
    {session session' : CgSession} (h : Clears s) (hsessions : Sessions s)
    (hin : inSession action = true) (hclient : s.clients[i]? = some client)
    (hsession : client.session = some session) (hstep : session.step action = some session') :
    Clears { s with clients := s.clients.set i { client with session := some session' } } := by
  intro pc hflush
  obtain ⟨hlive, -, -⟩ := hsessions.holds client (List.mem_of_getElem? hclient) session hsession
  have hclean := h pc hflush
  -- the call of this session has sent nothing before either
  have hunpushed : ∀ j,
      Unpushed { s with clients := s.clients.set i { client with session := some session' } } j →
      s.Unpushed j := by
    intro j hafter client' other call hclient' hother hcall
    rcases eq_or_ne i j with rfl | hne
    · obtain rfl := Option.some.inj (hclient.symm.trans hclient')
      obtain rfl := Option.some.inj (hsession.symm.trans hother)
      refine unpushed_before hlive hin hstep hcall fun call' hcall' => ?_
      refine hafter { client with session := some session' } session' call' ?_ rfl hcall'
      dsimp only
      rw [List.getElem?_set_self', hclient]
      rfl
    · refine hafter client' other call ?_ hother hcall
      dsimp only
      rw [List.getElem?_set_ne hne]
      exact hclient'
  cases hcatchup : session.catchup with
  | none =>
      refine hclean.mono ?_ hunpushed
      refine Threads.forall_getElem?_set ⟨client, hclient, ?_,
        fun _ pcm hpcm => ⟨pcm, hpcm, rfl, rfl⟩⟩
        fun j other _ hother => ⟨other, hother, .refl other⟩
      rintro _ ⟨rfl⟩
      exact ⟨session, hsession, drained_of_free hlive hin hstep hcatchup⟩
  | some call =>
      obtain ⟨rest, total, hgroup⟩ :=
        hsessions.calls i client hclient session hsession (hcatchup ▸ Option.some_ne_none _)
      obtain ⟨rfl, -⟩ := Flush.mk.inj (Option.some.inj (hflush.symm.trans hgroup))
      exact fun hafter => (hclean (hunpushed i hafter)).set _ s.flush

/-- With nothing left to pull, a partition consumer is at its end. -/
theorem AllBut.tail {client : Client} {topic : String} {topics : List String}
    (h : AllBut client (topic :: topics))
    (hend : ∀ pcm, client.partConsumers.lookup topic = some pcm →
      pcm.hwm = pcm.queue.messages.length) :
    AllBut client topics := by
  refine ⟨h.1, fun other pcm hpcm hmem => ?_⟩
  rcases eq_or_ne other topic with rfl | hne
  · exact hend pcm hpcm
  · exact h.2 other pcm hpcm fun hcons => (List.mem_cons.mp hcons).elim hne hmem

theorem DrainedBut.tail {i : Nat} {rest : List Nat} (h : s.DrainedBut (i :: rest))
    (hclient : ∀ client, s.clients[i]? = some client → AllBut client []) : s.DrainedBut rest := by
  intro j client hj hmem
  rcases eq_or_ne j i with rfl | hne
  · exact hclient client hj
  · exact h j client hj (not_mem_cons hne hmem)

/-- The message of a handler comes while its pass has sent one. -/
theorem Clears.emits (h : Sessions s) {i : Nat} {client : Client} {session : CgSession}
    (hclient : s.clients[i]? = some client) (hsession : client.session = some session)
    (hwaiting : session.waitingMessages.keys ≠ []) {topic : String} {key : Bytes}
    {data : Option Bytes} {hdr : Headers} :
    Clears (s.pushMessage topic key data hdr) := by
  intro pc hflush
  have hbusy : ¬ ∀ i rest total, s.flush = some ⟨.group i rest, total⟩ → s.Unpushed i :=
    fun hunpushed => hwaiting (h.silent hunpushed hclient hsession)
  have hother : (∀ i rest, pc ≠ .group i rest) → (s.pushMessage topic key data hdr).Clean pc :=
    fun hpc => absurd (fun i rest total heq =>
      absurd (Flush.mk.inj (Option.some.inj (hflush.symm.trans heq))).1 (hpc i rest)) hbusy
  cases pc with
  | passing | nilling => exact trivial
  | clients | consumers | pushing => exact hother fun _ _ => FlushPc.noConfusion
  | group j rest =>
      refine fun hunpushed => absurd ?_ hbusy
      intro i rest' total heq client' session' call hclient' hsession' hcall
      obtain ⟨rfl, -⟩ := FlushPc.group.inj
        (Flush.mk.inj (Option.some.inj (hflush.symm.trans heq))).1
      refine hunpushed (client'.push topic key data hdr)
        ((session'.push topic key data hdr).getD session') call ?_ ?_ ?_
      · dsimp only [Clients.pushMessage]
        rw [List.getElem?_map, hclient']
        rfl
      · dsimp only [Client.push]
        rw [hsession']
        rfl
      · rw [catchup_push]
        exact hcall

theorem Unpushed.of_consumer {i j : Nat} {client : Client}
    {partConsumers : GoMap String PartConsumerMock}
    (h : Unpushed { s with
      clients := s.clients.set i { client with partConsumers := partConsumers } } j)
    (hclient : s.clients[i]? = some client) : s.Unpushed j := by
  intro client' session call hclient' hsession hcall
  rcases eq_or_ne i j with rfl | hne
  · obtain rfl := Option.some.inj (hclient.symm.trans hclient')
    refine h { client with partConsumers := partConsumers } session call ?_ hsession hcall
    dsimp only
    rw [List.getElem?_set_self', hclient]
    rfl
  · refine h client' session call ?_ hsession hcall
    dsimp only
    rw [List.getElem?_set_ne hne]
    exact hclient'

/-- The total of a pass counts what it sends, so at zero nothing was sent. -/
theorem clears_step {action : Action} (hsessions : Sessions s) (h : Clears s)
    (hstep : s.step action = some s') :
    Clears s' := by
  cases step_cases hstep with
  | consumes => exact .of_flush rfl fun _ => trivial
  | catchesUp | repeats | sends => exact .of_flush rfl fun _ => trivial
  | emits hclient hsession hwaiting => exact .emits hsessions hclient hsession hwaiting
  | moves hin hclient hsession hon => exact h.moves hsessions hin hclient hsession hon
  | @stores i topic client pcm hclient hpcm hstoring =>
      refine fun pc hflush => (h pc hflush).mono ?_ fun j hunpushed => hunpushed.of_consumer hclient
      refine Threads.forall_getElem?_set ⟨client, hclient,
        fun session hsession => ⟨session, hsession, id⟩, ?_⟩
        fun j other _ hother => ⟨other, hother, .refl other⟩
      exact Maps.forall_lookup_insert ⟨pcm, hpcm, rfl, rfl⟩ fun _ pcm' hother =>
        ⟨pcm', hother, rfl, rfl⟩
  | @passes order total hflush hperm =>
      refine .of_flush rfl fun _ i client hclient hmem =>
        absurd (hperm.mem_iff.mpr (List.mem_range.mpr ?_)) hmem
      exact (List.getElem?_eq_some_iff.mp hclient).1
  | returns => exact fun pc hflush => absurd hflush.symm (Option.some_ne_none _)
  | @visits order i rest total client hflush hclient hsession hperm =>
      refine .of_flush rfl fun htotal => ⟨?_, fun client' hclient' => ?_⟩
      · subst htotal
        exact fun j other hother hmem => h _ hflush j other hother hmem
      · obtain rfl := Option.some.inj (hclient.symm.trans hclient')
        exact allBut_keys hperm fun session hmem =>
          absurd (hsession.symm.trans hmem).symm (Option.some_ne_none _)
  | enters hflush hclient hsession hon =>
      refine .of_flush rfl fun htotal _ => ?_
      subst htotal
      exact DrainedBut.set (h _ hflush) _ _
  | @groupReturns order i rest total client session session' call hflush hclient hsession hcall hon
      hperm =>
      refine .of_flush rfl fun htotal => ?_
      obtain ⟨rfl, hpushed⟩ := Nat.add_eq_zero_iff.mp htotal
      obtain ⟨-, -, hfinds⟩ :=
        hsessions.holds client (List.mem_of_getElem? hclient) session hsession
      have hunpushed := CgSession.unpushed_of_return hcall hpushed hon
      refine ⟨(h _ hflush ?_).set _ _, fun client' hclient' => ?_⟩
      · intro client' session'' call' hclient' hsession' hcall'
        obtain rfl := Option.some.inj (hclient.symm.trans hclient')
        obtain rfl := Option.some.inj (hsession.symm.trans hsession')
        obtain rfl := Option.some.inj (hcall.symm.trans hcall')
        exact hunpushed
      · dsimp only at hclient'
        rw [List.getElem?_set_self', hclient] at hclient'
        obtain rfl := Option.some.inj hclient'
        refine allBut_keys hperm ?_
        rintro _ ⟨rfl⟩
        exact hfinds.drained hcall hunpushed hon
  | leavesClient hflush =>
      refine .of_flush rfl fun htotal => ?_
      subst htotal
      exact (h _ hflush).1.tail (h _ hflush).2
  | @pulls i topic topics rest total client pcm hflush hclient hpcm hle =>
      refine .of_flush rfl fun htotal => ?_
      subst htotal
      refine ⟨(h _ hflush).1,
        fun client' hclient' => ⟨(h _ hflush).2 client' hclient', fun pcm' hpcm' => ?_⟩⟩
      obtain rfl := Option.some.inj (hclient.symm.trans hclient')
      obtain rfl := Option.some.inj (hpcm.symm.trans hpcm')
      exact ⟨hle, rfl⟩
  | pullPanics =>
      exact fun pc hflush =>
        (h pc hflush).mono (fun _ client hclient => ⟨client, hclient, .refl client⟩) fun _ => id
  | @leavesConsumer i topic topics rest total hflush =>
      refine .of_flush rfl fun htotal => ?_
      subst htotal
      refine ⟨(h _ hflush).1, fun client hclient => ?_⟩
      obtain ⟨hall, hdrop⟩ := (h _ hflush).2 client hclient
      refine hall.tail fun pcm hpcm => ?_
      obtain ⟨hle, hnil⟩ := hdrop pcm hpcm
      exact Nat.le_antisymm hle (List.drop_eq_nil_iff.mp hnil.symm)
  | sendsNil => exact .of_flush rfl fun htotal => absurd htotal (Nat.succ_ne_zero _)

/-- All that is in the topics has come to the clients that read them and is worked off. -/
structure AllProcessed (s : Clients) : Prop where
  waiting : ∀ client ∈ s.clients, ∀ session ∈ client.session, session.waitingMessages.keys = []
  sessions : ∀ client ∈ s.clients, ∀ session ∈ client.session, ∀ topic ∈ session.queues,
    session.sentOf topic
      = (s.tt.getOrCreateQueue topic).messages.map (fun msg => msg.consumerMessage topic) ∧
      ∀ msg ∈ (s.tt.getOrCreateQueue topic).messages, .marked topic msg.offset ∈ session.history
  consumers : ∀ client ∈ s.clients, ∀ topic pcm, client.partConsumers.lookup topic = some pcm →
    pcm.storing = false ∧ pcm.sent
      = ((s.tt.getOrCreateQueue topic).messages.drop pcm.start).map fun msg =>
        msg.consumerMessage topic

structure Flushing (s : Clients) : Prop where
  sessions : Sessions s
  synced : Synced s
  feeds : Feeds s
  clears : Clears s

theorem flushing_new (tt : TopicQueues)
    (clients : List (Option (List String) × List (String × Nat))) :
    Flushing (new tt clients) where
  sessions := sessions_new tt clients
  synced := synced_new tt clients
  feeds := feeds_new tt clients
  clears := fun _ hflush => absurd hflush.symm (Option.some_ne_none _)

/-- The invariants in the order in which they need each other. -/
theorem flushing_step {action : Action} (h : Flushing s) (hstep : s.step action = some s') :
    Flushing s' where
  sessions := sessions_step h.sessions hstep
  synced := synced_step h.sessions h.synced hstep
  feeds := feeds_step h.synced h.feeds hstep
  clears := clears_step h.sessions h.clears hstep

/-- The end of a pass that has sent nothing. -/
theorem AllProcessed.of_drained (h : Flushing s) (hflush : s.flush = some ⟨.clients [], 0⟩) :
    AllProcessed s := by
  have hdrained : s.DrainedBut [] := h.clears _ hflush
  have hsilent : ∀ client ∈ s.clients, ∀ session ∈ client.session,
      session.waitingMessages.keys = [] := by
    intro client hclient session hsession
    obtain ⟨i, hi⟩ := List.mem_iff_getElem?.mp hclient
    refine h.sessions.silent (fun j rest total hgroup => ?_) hi hsession
    exact FlushPc.noConfusion (Flush.mk.inj (Option.some.inj (hflush.symm.trans hgroup))).1
  refine ⟨hsilent, fun client hclient session hsession topic htopic => ?_,
    fun client hclient topic pcm hpcm => ?_⟩
  · obtain ⟨i, hi⟩ := List.mem_iff_getElem?.mp hclient
    obtain ⟨hlive, -, -⟩ := h.sessions.holds client hclient session hsession
    obtain ⟨qs, hqs⟩ := Option.isSome_iff_exists.mp (AList.lookup_isSome.mpr htopic)
    have hqueue : session.messagesOf topic = (s.tt.getOrCreateQueue topic).messages := by
      rw [CgSession.messagesOf_eq hqs,
        h.synced.sessions client hclient session hsession topic qs hqs]
    have hlength : (session.sentOf topic).length = (session.messagesOf topic).length :=
      (hdrained i client hi List.not_mem_nil).1 session hsession topic
    have hlane := hlive.delivering.lanes topic
    have hsettled : ∀ offset, CgSession.unmarked session.history topic offset = false := by
      intro offset
      refine Bool.eq_false_iff.mpr fun hunmarked => ?_
      have hmem := AList.mem_keys.mp (hlive.recorded.makeMsgKey_mem.mpr hunmarked)
      rw [hsilent client hclient session hsession] at hmem
      exact List.not_mem_nil hmem
    rw [← hqueue]
    refine ⟨hlane.sent.eq_of_length (by rw [List.length_map, hlength]), fun msg hmsg => ?_⟩
    obtain ⟨n, hn⟩ := List.mem_iff_getElem?.mp hmsg
    rw [CgSession.offset_of_messagesOf hn]
    refine hlane.marked hsettled ?_
    rw [hlength]
    exact (List.getElem?_eq_some_iff.mp hn).1
  · obtain ⟨i, hi⟩ := List.mem_iff_getElem?.mp hclient
    have hnone : sending s.flush = none := by
      rw [hflush]
      rfl
    have hend : pcm.hwm = pcm.queue.messages.length :=
      (hdrained i client hi List.not_mem_nil).2 topic pcm hpcm List.not_mem_nil
    have hhwm := h.feeds.hwm i client hi topic pcm hpcm
    rw [hnone, if_neg (Option.some_ne_none _).symm, Nat.add_zero] at hhwm
    constructor
    · refine Bool.eq_false_iff.mpr fun hbusy => ?_
      exact Option.some_ne_none _
        ((h.feeds.storing i client hi topic pcm hpcm hbusy).symm.trans hnone)
    · rw [← h.synced.consumers client hclient topic pcm hpcm]
      refine (h.feeds.sent i client hi topic pcm hpcm).eq_of_length ?_
      rw [List.length_map, List.length_drop]
      omega

/-- `Consume` and `Catchup` return only when all that is in any topic, what the handlers have
emitted on the way included, has been delivered to every session and table that reads it and has
been worked off. -/
theorem consume_waits_for_everything (tt : TopicQueues)
    (clients : List (Option (List String) × List (String × Nat))) (actions : List Action)
    (action : Action) (s' : Clients)
    (hwaiting : (run step (new tt clients) actions).flush.isSome = true)
    (hstep : (run step (new tt clients) actions).step action = some s')
    (hreturned : s'.flush = none) :
    s'.AllProcessed := by
  have h : Flushing (run step (new tt clients) actions) :=
    run_invariant (fun _ _ _ => flushing_step) (flushing_new tt clients) actions
  obtain ⟨flush, hflush⟩ := Option.isSome_iff_exists.mp hwaiting
  have hstays : s'.flush = (run step (new tt clients) actions).flush → s'.AllProcessed :=
    fun hsame => absurd (hflush.symm.trans (hsame.symm.trans hreturned)) (Option.some_ne_none _)
  cases step_cases hstep with
  | returns hlast =>
      have hall := AllProcessed.of_drained h hlast
      exact ⟨hall.waiting, hall.sessions, hall.consumers⟩
  | emits | moves | stores | pullPanics => exact hstays rfl
  | _ => exact absurd hreturned (Option.some_ne_none _)

/-- A processor gets the message, emits to a table while it works on it, and a view reads the
table. -/
def processed : List Action :=
  [.consume "in" [] none none, .pass [1, 0], .nextClient ["table"], .nextConsumer, .sendNext,
    .nextConsumer, .nextClient ["in"], .session 0 .proceed, .session 0 .proceed,
    .session 0 .proceed, .session 0 .proceed, .session 0 .send, .emit 0 "table" [] none none,
    .session 0 (.markMessage "in" 0), .session 0 .proceed, .session 0 .proceed, .groupReturns [],
    .nextConsumer, .nextClient []]

def passedOn : List Action :=
  [.pass [1, 0], .nextClient ["table"], .nextConsumer, .sendNext, .stored 1 "table", .sendNext,
    .sendNext, .nextConsumer, .nextClient ["in"], .session 0 .proceed, .session 0 .proceed,
    .session 0 .proceed, .session 0 .proceed, .groupReturns [], .nextConsumer, .nextClient []]

def foundNothing : List Action :=
  [.pass [0, 1], .nextClient ["in"], .session 0 .proceed, .session 0 .proceed, .session 0 .proceed,
    .session 0 .proceed, .groupReturns [], .nextConsumer, .nextClient ["table"], .nextConsumer,
    .sendNext, .nextConsumer]

theorem foundNothing_returns :
    ((run step (new CgSession.noQueues [(some ["in"], []), (none, [("table", 0)])])
      (processed ++ passedOn ++ foundNothing)).step (.nextClient [])).isSome = true := by
  decide +kernel

theorem consume_waits_for_emitted :
    ∃ s', (run step (new CgSession.noQueues [(some ["in"], []), (none, [("table", 0)])])
        (processed ++ passedOn ++ foundNothing)).step (.nextClient []) = some s' ∧
      s'.clients.map (fun client => (client.partConsumers.lookup "table").map fun pcm =>
        pcm.sent.length)
        = [none, some 1] ∧ s'.AllProcessed := by
  have hstep := (Option.some_get foundNothing_returns).symm
  refine ⟨_, hstep, by decide +kernel, ?_⟩
  refine consume_waits_for_everything CgSession.noQueues _ (processed ++ passedOn ++
    foundNothing) _ _ ?_ hstep ?_
  · decide +kernel
  · refine Option.isNone_iff_eq_none.mp ?_
    decide +kernel

end Clients

end Tester

end Goka

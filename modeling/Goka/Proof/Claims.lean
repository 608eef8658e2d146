import Goka.Claims
import Goka.Library.Progress
import Goka.Library.Threads
import Goka.Proof.PartitionProcessor

/-!
# What passes between the claims, the runners and `Stop`

The messages of a topic enter the processor in the order in which they were delivered, none of them
twice and none left out. What the runners fail with goes to one of those that wait for it, and only
to one. And once the context of the runners is cancelled, whatever the order of the remaining steps,
all of them come to an end.
-/

namespace Goka

open Schedule

namespace ClaimRun

variable {claim claim' : ClaimRun}

theorem arrive_eq_some {msg : Message} (h : claim.arrive msg = some claim') :
    msg.topic = claim.topic ∧ claim' =
      { claim with
        messages := claim.messages ++ [msg], delivered := claim.delivered ++ [msg] } := by
  obtain ⟨⟨-, htopic⟩, rfl⟩ := guard_eq_some.mp h
  exact ⟨htopic, rfl⟩

theorem receive_eq_some (h : claim.receive = some claim') :
    ∃ msg messages, claim.pc = .selecting ∧ claim.messages = msg :: messages ∧
      claim' = { claim with pc := .sending msg, messages := messages } := by
  unfold receive at h
  split at h
  · next msg messages hpc hmessages =>
      obtain rfl := Option.some.inj h
      exact ⟨msg, messages, hpc, hmessages, rfl⟩
  · cases h

def held (claim : ClaimRun) : List Message :=
  match claim.pc with
  | .selecting => []
  | .sending msg => [msg]
  | .returned _ dropped => dropped.toList

theorem length_held_le (claim : ClaimRun) : claim.held.length ≤ 1 := by
  unfold held
  split
  · exact Nat.zero_le 1
  · exact le_rfl
  · next dropped _ => cases dropped <;> simp

theorem takeError_eq_some {err : Option String} (h : claim.takeError err = some claim') :
    claim.hasReturned = false ∧ ∃ dropped, dropped.toList = claim.held ∧
      claim' = { claim with pc := .returned err dropped } := by
  unfold takeError at h
  split at h
  · next hpc =>
      obtain rfl := Option.some.inj h
      exact ⟨by simp [hasReturned, hpc], none, by simp [held, hpc], rfl⟩
  · next msg hpc =>
      obtain rfl := Option.some.inj h
      exact ⟨by simp [hasReturned, hpc], some msg, by simp [held, hpc], rfl⟩
  · cases h

theorem reported_of_not_returned (h : claim.hasReturned = false) : claim.reported = none := by
  unfold reported
  split
  · next hpc => simp [hasReturned, hpc] at h
  · rfl

end ClaimRun

namespace Consuming

variable {α Callback σ : Type} {cfg : Config α Callback} {s s' : Consuming σ}

theorem onClaim_eq_some {i : Nat} {move : ClaimRun → Option ClaimRun}
    (h : s.onClaim i move = some s') :
    ∃ claim claim', s.claims[i]? = some claim ∧ move claim = some claim' ∧
      s' = { s with claims := s.claims.set i claim' } := by
  unfold onClaim at h
  split at h
  · cases h
  · next claim hclaim =>
      obtain ⟨claim', hmove, rfl⟩ := Option.map_eq_some_iff.mp h
      exact ⟨claim, claim', hclaim, hmove, rfl⟩

theorem receiveError_eq_some {err : Option String} (h : s.receiveError = some (err, s')) :
    err = s.runnerErrors ∧ s' = { s with runnerErrors := none } ∧
    (err = none → s.waiter = .closed) := by
  unfold receiveError at h
  split at h
  · next value hvalue =>
      obtain ⟨rfl, rfl⟩ := Prod.mk.inj (Option.some.inj h)
      exact ⟨hvalue.symm, rfl, nofun⟩
  · next hempty =>
      obtain ⟨hclosed, heq⟩ := guard_eq_some.mp h
      obtain ⟨rfl, rfl⟩ := Prod.mk.inj heq
      exact ⟨hempty.symm, by rw [← hempty], fun _ => hclosed⟩

/-- One constructor for each thing a step can do. -/
inductive Step [TableStore σ] (cfg : Config α Callback) (s : Consuming σ) :
    Action α → Consuming σ → Prop where
  | arrive {i : Nat} {claim : ClaimRun} {msg : Message} (hclaim : s.claims[i]? = some claim)
      (htopic : msg.topic = claim.topic) :
      Step cfg s (.arrive i msg) { s with
        claims := s.claims.set i { claim with
          messages := claim.messages ++ [msg], delivered := claim.delivered ++ [msg] } }
  | closeMessages {i : Nat} {claim : ClaimRun} (hclaim : s.claims[i]? = some claim) :
      Step cfg s (.closeMessages i) { s with
        claims := s.claims.set i { claim with closed := true } }
  | receive {i : Nat} {claim : ClaimRun} {msg : Message} {messages : List Message}
      (hclaim : s.claims[i]? = some claim) (hpc : claim.pc = .selecting)
      (hmessages : claim.messages = msg :: messages) :
      Step cfg s (.receive i) { s with
        claims := s.claims.set i { claim with pc := .sending msg, messages := messages } }
  | messagesClosed {i : Nat} {claim : ClaimRun} (hclaim : s.claims[i]? = some claim)
      (hpc : claim.pc = .selecting) :
      Step cfg s (.messagesClosed i) { s with
        claims := s.claims.set i { claim with pc := .returned none none } }
  | forward {i : Nat} {claim : ClaimRun} {msg : Message} (hclaim : s.claims[i]? = some claim)
      (hpc : claim.pc = .sending msg) :
      Step cfg s (.forward i) { s with
        pp := { s.pp with input := s.pp.input ++ [msg] }, claims :=
          s.claims.set i (claim.forward msg) }
  | handOff {i : Nat} {claim : ClaimRun} {msg : Message} {pp : PartitionProcessor σ}
      (hclaim : s.claims[i]? = some claim) (hpc : claim.pc = .sending msg)
      (hinput : s.pp.input = []) (htake : { s.pp with input := [msg] }.take cfg = some pp) :
      Step cfg s (.handOff i) { s with pp := pp, claims := s.claims.set i (claim.forward msg) }
  | takeError {i : Nat} {claim : ClaimRun} {dropped : Option Message}
      (hclaim : s.claims[i]? = some claim) (hopen : claim.hasReturned = false)
      (hdropped : dropped.toList = claim.held)
      (hclosed : s.runnerErrors = none → s.waiter = .closed) :
      Step cfg s (.takeError i) { s with
        runnerErrors := none
        claims := s.claims.set i { claim with pc := .returned s.runnerErrors dropped } }
  | runner {action : PartitionProcessor.Action α} {pp : PartitionProcessor σ}
      (hstep : s.pp.step cfg action = some pp) : Step cfg s (.runner action) { s with pp := pp }
  | runReturns (hpc : s.pp.pc = .exited) (hrun : s.runResult = none) (err : Option String) :
      Step cfg s .runReturns ({ s with runResult := some err }.collect err)
  | joinReturns {i : Nat} {err : Option String} (hjoin : s.joins[i]? = some none) :
      Step cfg s (.joinReturns i err) ({ s with joins := s.joins.set i (some err) }.collect err)
  | groupDone (hwaiter : s.waiter = .waiting) (hrun : s.runResult.isSome = true)
      (hjoins : ∀ join ∈ s.joins, join.isSome = true) :
      Step cfg s .groupDone { s with
        pp := { s.pp with cancelled := true }
        waiter := .sent
        runnerErrors := nilOrError s.groupErrs }
  | closeErrors (hwaiter : s.waiter = .sent) : Step cfg s .closeErrors { s with waiter := .closed }
  | callStop (hstop : s.stop = .idle) :
      Step cfg s .callStop { s with pp := { s.pp with cancelled := true }, stop := .waiting }
  | stopReceives (hstop : s.stop = .waiting)
      (hclosed : s.runnerErrors = none → s.waiter = .closed) :
      Step cfg s .stopReceives { s with runnerErrors := none, stop := .received s.runnerErrors }

/-- All invariants below go through these cases. -/
theorem step_cases [TableStore σ] {action : Action α} (h : s.step cfg action = some s') :
    Step cfg s action s' := by
  cases action with
  | arrive i msg =>
      obtain ⟨claim, claim', hclaim, hmove, rfl⟩ := onClaim_eq_some h
      obtain ⟨htopic, rfl⟩ := ClaimRun.arrive_eq_some hmove
      exact .arrive hclaim htopic
  | closeMessages i =>
      obtain ⟨claim, claim', hclaim, hmove, rfl⟩ := onClaim_eq_some h
      obtain rfl := Option.some.inj hmove
      exact .closeMessages hclaim
  | receive i =>
      obtain ⟨claim, claim', hclaim, hmove, rfl⟩ := onClaim_eq_some h
      obtain ⟨msg, messages, hpc, hmessages, rfl⟩ := ClaimRun.receive_eq_some hmove
      exact .receive hclaim hpc hmessages
  | messagesClosed i =>
      obtain ⟨claim, claim', hclaim, hmove, rfl⟩ := onClaim_eq_some h
      obtain ⟨⟨hpc, -⟩, rfl⟩ := guard_eq_some.mp hmove
      exact .messagesClosed hclaim hpc
  | forward i =>
      simp only [step, forward] at h
      split at h
      · cases h
      · next claim hclaim =>
          split at h
          · next msg hpc =>
              obtain ⟨-, rfl⟩ := guard_eq_some.mp h
              exact .forward hclaim hpc
          · cases h
  | handOff i =>
      simp only [step, handOff] at h
      split at h
      · cases h
      · next claim hclaim =>
          split at h
          · next msg hpc =>
              split at h
              · next hinput =>
                  obtain ⟨pp, htake, rfl⟩ := Option.map_eq_some_iff.mp h
                  exact .handOff hclaim hpc hinput htake
              · cases h
          · cases h
  | takeError i =>
      simp only [step, takeError] at h
      split at h
      · cases h
      · next err s₁ hreceived =>
          obtain ⟨rfl, rfl, hclosed⟩ := receiveError_eq_some hreceived
          obtain ⟨claim, claim', hclaim, hmove, rfl⟩ := onClaim_eq_some h
          obtain ⟨hopen, dropped, hdropped, rfl⟩ := ClaimRun.takeError_eq_some hmove
          exact .takeError hclaim hopen hdropped hclosed
  | runner action =>
      have hstep : (s.pp.step cfg action).map (fun pp => { s with pp := pp }) = some s' := by
        cases action with
        | inputClosed => cases h
        | _ => exact h
      obtain ⟨pp, hpp, rfl⟩ := Option.map_eq_some_iff.mp hstep
      exact .runner hpp
  | runReturns =>
      obtain ⟨⟨hpc, hrun⟩, rfl⟩ := guard_eq_some.mp h
      exact .runReturns hpc hrun _
  | joinReturns i err =>
      obtain ⟨hjoin, rfl⟩ := guard_eq_some.mp h
      exact .joinReturns hjoin
  | groupDone =>
      obtain ⟨⟨hwaiter, hrun, hjoins⟩, rfl⟩ := guard_eq_some.mp h
      exact .groupDone hwaiter hrun hjoins
  | closeErrors =>
      obtain ⟨hwaiter, rfl⟩ := guard_eq_some.mp h
      exact .closeErrors hwaiter
  | callStop =>
      obtain ⟨hstop, rfl⟩ := guard_eq_some.mp h
      exact .callStop hstop
  | stopReceives =>
      obtain ⟨hstop, hmap⟩ := Option.ite_none_right_eq_some.mp h
      obtain ⟨⟨err, s₁⟩, hreceived, rfl⟩ := Option.map_eq_some_iff.mp hmap
      obtain ⟨rfl, rfl, hclosed⟩ := receiveError_eq_some hreceived
      exact .stopReceives hstop hclosed

/-! ### The error of the runners -/

def failures (s : Consuming σ) : List String :=
  s.runResult.join.toList ++ s.joins.filterMap Option.join

def RunnersEnded (s : Consuming σ) : Prop :=
  s.runResult.isSome = true ∧ ∀ join ∈ s.joins, join.isSome = true

structure Reported (s : Consuming σ) : Prop where
  collected : s.groupErrs.Perm s.failures
  -- the error is in the channel, or with one of those that wait for it
  balance : (s.reports ++ s.runnerErrors.toList).Perm
    (if s.waiter = .waiting then [] else (nilOrError s.groupErrs).toList)
  ended : s.waiter ≠ .waiting → s.RunnersEnded
  stopped : ∀ err, s.stop = .received err → s.runnerErrors = none ∧ s.waiter ≠ .waiting

theorem reported_start (topics : List String) (capacity joins : Nat) (table : Option σ)
    (marked : Int) :
    Reported (start topics capacity joins table marked) where
  collected := by
    have hjoins : (List.replicate joins (none : Option (Option String))).filterMap Option.join
        = [] := by
      refine List.filterMap_eq_nil_iff.mpr fun join hjoin => ?_
      rw [List.eq_of_mem_replicate hjoin]
      rfl
    simp [start, failures, hjoins]
  balance := by
    have hclaims : (topics.map ClaimRun.new).filterMap ClaimRun.reported = [] := by
      refine List.filterMap_eq_nil_iff.mpr fun claim hclaim => ?_
      obtain ⟨topic, -, rfl⟩ := List.mem_map.mp hclaim
      rfl
    simp [start, reports, hclaims]
  ended h := absurd rfl h
  stopped err h := by cases h

namespace Reported

/-- A claim moves on and has nothing new to report. -/
theorem of_claim {i : Nat} {claim claim' : ClaimRun} (h : Reported s)
    (hclaim : s.claims[i]? = some claim) (hreported : claim'.reported = claim.reported)
    (pp : PartitionProcessor σ) :
    Reported { s with pp := pp, claims := s.claims.set i claim' } where
  collected := h.collected
  balance := by
    have hset := Threads.filterMap_set_perm (a := claim') ClaimRun.reported hclaim
    rw [hreported, List.perm_append_right_iff] at hset
    exact ((hset.append_right _).append_right _).trans h.balance
  ended := h.ended
  stopped := h.stopped

/-- The first to receive takes the error out of the channel, and no other will. -/
theorem takeError {i : Nat} {claim : ClaimRun} (h : Reported s) (hclaim : s.claims[i]? = some claim)
    (hopen : claim.hasReturned = false) (dropped : Option Message) :
    Reported { s with
      runnerErrors := none
      claims := s.claims.set i { claim with pc := .returned s.runnerErrors dropped } } where
  collected := h.collected
  balance := by
    have hset := Threads.filterMap_set_perm
      (a := { claim with pc := .returned s.runnerErrors dropped })
      ClaimRun.reported hclaim
    rw [ClaimRun.reported_of_not_returned hopen, Option.toList_none, List.append_nil] at hset
    have hmoved : ∀ rest : List String,
        (s.claims.filterMap ClaimRun.reported ++ s.runnerErrors.toList ++
        rest).Perm (s.claims.filterMap ClaimRun.reported ++ rest ++ s.runnerErrors.toList) := by
      intro rest
      rw [List.append_assoc, List.append_assoc]
      exact List.perm_append_comm.append_left _
    refine List.Perm.trans ?_ h.balance
    rw [Option.toList_none, List.append_nil]
    exact (hset.append_right _).trans (hmoved _)
  ended := h.ended
  stopped err hstop := ⟨rfl, (h.stopped err hstop).2⟩

/-- A goroutine of the group returns, so the group is still being waited for. -/
theorem of_collect (h : Reported s) {s₁ : Consuming σ} {err : Option String}
    (hwaiting : s.waiter = .waiting)
    (hsame : s₁.groupErrs = s.groupErrs ∧ s₁.waiter = s.waiter ∧ s₁.claims = s.claims ∧
      s₁.runnerErrors = s.runnerErrors ∧ s₁.stop = s.stop)
    (hfailures : s₁.failures.Perm (s.failures ++ err.toList)) : Reported (s₁.collect err) := by
  obtain ⟨herrs, hwaiter, hclaims, hrunner, hstop⟩ := hsame
  have hreports : s₁.reports = s.reports := by simp only [reports, hclaims, hstop]
  have hbalance : (s₁.reports ++ s₁.runnerErrors.toList).Perm [] := by
    rw [hreports, hrunner]
    simpa [hwaiting] using h.balance
  have hstopped : ∀ err, s₁.stop ≠ .received err := fun err hreceived =>
    (h.stopped err (hstop ▸ hreceived)).2 hwaiting
  rw [hwaiting] at hwaiter
  cases err with
  | none =>
      rw [Option.toList_none, List.append_nil] at hfailures
      refine ⟨?_, ?_, fun hne => absurd hwaiter hne,
        fun err hreceived => absurd hreceived (hstopped err)⟩
      · exact (herrs ▸ h.collected).trans hfailures.symm
      · simpa [collect, hwaiter] using hbalance
  | some err =>
      refine ⟨?_, ?_, fun hne => absurd hwaiter hne,
        fun err hreceived => absurd hreceived (hstopped err)⟩
      · have hcollected : (s₁.groupErrs ++ [err]).Perm (s.failures ++ [err]) :=
          (herrs ▸ h.collected).append_right [err]
        exact hcollected.trans hfailures.symm
      · simpa [collect, hwaiter, reports] using hbalance

theorem step [TableStore σ] {action : Action α} (h : Reported s)
    (hstep : s.step cfg action = some s') :
    Reported s' := by
  cases step_cases hstep with
  | arrive hclaim | closeMessages hclaim =>
      refine h.of_claim hclaim ?_ _
      rfl
  | receive hclaim hpc hmessages =>
      exact h.of_claim hclaim (by simp [ClaimRun.reported, hpc]) _
  | messagesClosed hclaim hpc => exact h.of_claim hclaim (by simp [ClaimRun.reported, hpc]) _
  | forward hclaim hpc | handOff hclaim hpc =>
      exact h.of_claim hclaim (by simp [ClaimRun.reported, ClaimRun.forward, hpc]) _
  | takeError hclaim hopen => exact h.takeError hclaim hopen _
  | runner hpp => exact ⟨h.collected, h.balance, h.ended, h.stopped⟩
  | runReturns hpc hrun err =>
      have hwaiting : s.waiter = .waiting := by
        by_contra hne
        have := (h.ended hne).1
        simp [hrun] at this
      refine h.of_collect hwaiting ⟨rfl, rfl, rfl, rfl, rfl⟩ ?_
      simp only [failures, hrun]
      exact List.perm_append_comm
  | @joinReturns i err hjoin =>
      have hwaiting : s.waiter = .waiting := by
        by_contra hne
        have := (h.ended hne).2 none (List.mem_of_getElem? hjoin)
        simp at this
      refine h.of_collect hwaiting ⟨rfl, rfl, rfl, rfl, rfl⟩ ?_
      have hset := Threads.filterMap_set_perm (a := some err) Option.join hjoin
      rw [Option.join_none, Option.toList_none, List.append_nil] at hset
      simp only [failures, List.append_assoc]
      exact hset.append_left _
  | groupDone hwaiter hrun hjoins =>
      have hnone : s.reports ++ s.runnerErrors.toList = [] := by
        have := h.balance
        rw [if_pos hwaiter] at this
        exact this.eq_nil
      refine ⟨h.collected, ?_, fun _ => ⟨hrun, hjoins⟩, ?_⟩
      · have hreports : s.reports = [] := (List.append_eq_nil_iff.mp hnone).1
        simp only [reports] at hreports ⊢
        simp [hreports]
      · intro err hreceived
        exact absurd hwaiter (h.stopped err hreceived).2
  | closeErrors hwaiter =>
      refine ⟨h.collected, ?_, fun _ => h.ended (by simp [hwaiter]), fun err hreceived => ?_⟩
      · have := h.balance
        simpa [hwaiter, reports] using this
      · exact ⟨(h.stopped err hreceived).1, nofun⟩
  | callStop hstop =>
      refine ⟨h.collected, ?_, h.ended, fun err hreceived => by cases hreceived⟩
      have := h.balance
      simpa [hstop, reports] using this
  | stopReceives hstop hclosed =>
      refine ⟨h.collected, ?_, h.ended, fun err hreceived => ⟨rfl, ?_⟩⟩
      · have := h.balance
        simpa [hstop, reports] using this
      · -- a channel that is still waited for holds nothing and is not closed
        intro hwaiting
        have hnone := h.balance
        rw [if_pos hwaiting] at hnone
        have := hclosed (by simpa using (List.append_eq_nil_iff.mp hnone.eq_nil).2)
        rw [hwaiting] at this
        cases this

end Reported

/-- The claims and `Stop` together receive what the runners have failed with once, when all runners
have ended, and as one error; and when `Stop` has received, it has been received. -/
theorem error_reported_once [TableStore σ] (cfg : Config α Callback) (topics : List String)
    (capacity joins : Nat) (table : Option σ) (marked : Int) (actions : List (Action α)) :
    let s := run (fun s => s.step cfg) (start topics capacity joins table marked) actions
    s.groupErrs.Perm s.failures ∧
      (s.reports = [] ∨ s.reports = [errorsText s.groupErrs] ∧ s.RunnersEnded) ∧
      ∀ err, s.stop = .received err → s.reports = (nilOrError s.groupErrs).toList := by
  intro s
  have h : Reported s :=
    run_invariant (fun _ _ _ h hstep => h.step hstep)
      (reported_start topics capacity joins table marked)
      actions
  have hbalance := h.balance
  refine ⟨h.collected, ?_, fun err hreceived => ?_⟩
  · by_cases hwaiting : s.waiter = .waiting
    · rw [if_pos hwaiting] at hbalance
      exact .inl (List.append_eq_nil_iff.mp hbalance.eq_nil).1
    · rw [if_neg hwaiting] at hbalance
      unfold nilOrError at hbalance
      split at hbalance
      · exact .inl (List.append_eq_nil_iff.mp hbalance.eq_nil).1
      · rcases List.append_eq_singleton_iff.mp (List.perm_singleton.mp hbalance) with
          ⟨hnil, -⟩ | ⟨hone, -⟩
        · exact .inl hnil
        · exact .inr ⟨hone, h.ended hwaiting⟩
  · obtain ⟨hempty, hwaiting⟩ := h.stopped err hreceived
    rw [if_neg hwaiting, hempty, Option.toList_none, List.append_nil] at hbalance
    unfold nilOrError at hbalance ⊢
    split
    · next hnone => simpa [hnone] using hbalance
    · next hsome => simpa [hsome] using hbalance

/-! ### The messages of a topic -/

/-- A step of `run` takes from the input what it puts behind the messages taken, and loses nothing.
-/
theorem entered_pp_step [TableStore σ] {action : PartitionProcessor.Action α}
    {pp pp' : PartitionProcessor σ} (h : pp.step cfg action = some pp') :
    pp'.taken.map (fun ctx => ctx.msg) ++ pp'.input
      = pp.taken.map (fun ctx => ctx.msg) ++ pp.input := by
  cases PartitionProcessor.change_step h with
  | none htaken hinput => rw [htaken, hinput]
  | take msg ctx hinput htaken hmsg =>
      rw [htaken, hinput, List.map_append, List.append_assoc, List.map_singleton, hmsg,
        List.singleton_append]
  | move index ctx ctx' hctx htaken hmoves hinput =>
      rw [htaken, hinput, Threads.map_set_of_eq hctx hmoves.1]

/-- Every claim accounts for what was delivered to it, and what it has passed on is what has entered
the processor of its topic. -/
structure Passed (claims : List ClaimRun) (entered : List Message) : Prop where
  topics : (claims.map fun claim => claim.topic).Nodup
  kept : ∀ claim ∈ claims, claim.delivered = claim.forwarded ++ claim.held ++ claim.messages
  own : ∀ claim ∈ claims, ∀ msg ∈ claim.delivered, msg.topic = claim.topic
  passed : ∀ claim ∈ claims, entered.filter (fun msg => msg.topic = claim.topic) = claim.forwarded
  known : ∀ msg ∈ entered, msg.topic ∈ claims.map fun claim => claim.topic

theorem passed_new {topics : List String} (htopics : topics.Nodup) :
    Passed (topics.map ClaimRun.new) [] := by
  have hmap : (topics.map ClaimRun.new).map (fun claim => claim.topic) = topics := by
    rw [List.map_map]
    exact List.map_id topics
  refine ⟨hmap.symm ▸ htopics, ?_, ?_, ?_, ?_⟩
  · intro claim hclaim
    obtain ⟨topic, -, rfl⟩ := List.mem_map.mp hclaim
    rfl
  · intro claim hclaim msg hmsg
    obtain ⟨topic, -, rfl⟩ := List.mem_map.mp hclaim
    cases hmsg
  · intro claim hclaim
    obtain ⟨topic, -, rfl⟩ := List.mem_map.mp hclaim
    rfl
  · intro msg hmsg
    cases hmsg

namespace Passed

variable {claims : List ClaimRun} {entered : List Message} {i : Nat} {claim claim' : ClaimRun}

/-- A claim moves on and passes nothing on. -/
theorem of_claim {new : List Message} (h : Passed claims entered) (hclaim : claims[i]? = some claim)
    (htopic : claim'.topic = claim.topic) (hforwarded : claim'.forwarded = claim.forwarded)
    (hdelivered : claim'.delivered = claim.delivered ++ new)
    (hnew : ∀ msg ∈ new, msg.topic = claim.topic)
    (hrest : claim'.held ++ claim'.messages = claim.held ++ claim.messages ++ new) :
    Passed (claims.set i claim') entered := by
  have hmem : claim ∈ claims := List.mem_of_getElem? hclaim
  have htopics := Threads.map_set_of_eq (f := fun claim : ClaimRun => claim.topic) hclaim htopic
  refine ⟨htopics.symm ▸ h.topics, ?_, ?_, ?_, htopics.symm ▸ h.known⟩
  · refine Threads.forall_mem_set h.kept ?_
    rw [hdelivered, h.kept claim hmem, hforwarded, List.append_assoc claim.forwarded claim'.held,
      hrest]
    simp only [List.append_assoc]
  · refine Threads.forall_mem_set h.own ?_
    rw [hdelivered, htopic]
    exact List.forall_mem_append.mpr ⟨h.own claim hmem, hnew⟩
  · refine Threads.forall_mem_set h.passed ?_
    rw [htopic, hforwarded]
    exact h.passed claim hmem

/-- A claim passes on the message it holds. -/
theorem forward {msg : Message} (h : Passed claims entered) (hclaim : claims[i]? = some claim)
    (hpc : claim.pc = .sending msg) :
    Passed (claims.set i (claim.forward msg)) (entered ++ [msg]) := by
  have hmem : claim ∈ claims := List.mem_of_getElem? hclaim
  have hkept := h.kept claim hmem
  simp only [ClaimRun.held, hpc] at hkept
  have hmsg : msg.topic = claim.topic := h.own claim hmem msg (by simp [hkept])
  have htopics := Threads.map_set_of_eq (a := claim.forward msg)
    (f := fun claim : ClaimRun => claim.topic)
    hclaim rfl
  refine ⟨htopics.symm ▸ h.topics, ?_, ?_, ?_, ?_⟩
  · refine Threads.forall_mem_set h.kept ?_
    simp only [ClaimRun.forward, ClaimRun.held, List.append_nil]
    exact hkept
  · exact Threads.forall_mem_set h.own (h.own claim hmem)
  · intro c hc
    rw [List.filter_append]
    rcases Threads.mem_set_cases hc with rfl | ⟨j, hne, hj⟩
    · have htopic : (claim.forward msg).topic = claim.topic := rfl
      rw [htopic, h.passed claim hmem, List.filter_cons_of_pos (by simpa using hmsg),
        List.filter_nil]
      rfl
    · -- the topic of another claim is another topic
      have hother : msg.topic ≠ c.topic := by
        intro heq
        have hlt : j < (claims.map fun claim => claim.topic).length := by
          rw [List.length_map]
          exact (List.getElem?_eq_some_iff.mp hj).1
        refine hne ((List.getElem?_inj hlt h.topics).mp ?_)
        rw [List.getElem?_map, List.getElem?_map, hj, hclaim, Option.map_some, Option.map_some,
          ← heq, hmsg]
      rw [h.passed c (List.mem_of_getElem? hj), List.filter_cons_of_neg (by simpa using hother),
        List.filter_nil, List.append_nil]
  · rw [htopics]
    intro m hm
    rcases List.mem_append.mp hm with hm | hm
    · exact h.known m hm
    · rw [List.mem_singleton.mp hm, hmsg]
      exact List.mem_map_of_mem hmem

end Passed

def TopicsPassed (s : Consuming σ) : Prop := Passed s.claims s.entered

/-- Only a delivery, a receive and a send touch the messages of a claim. -/
theorem TopicsPassed.step [TableStore σ] {action : Action α} (h : TopicsPassed s)
    (hstep : s.step cfg action = some s') : TopicsPassed s' := by
  unfold TopicsPassed at h ⊢
  cases step_cases hstep with
  | @arrive i claim msg hclaim htopic =>
      refine h.of_claim hclaim rfl rfl rfl (List.forall_mem_singleton.mpr htopic) ?_
      rw [List.append_assoc]
      rfl
  | closeMessages hclaim =>
      exact h.of_claim hclaim rfl rfl (List.append_nil _).symm nofun (List.append_nil _).symm
  | receive hclaim hpc hmessages =>
      refine h.of_claim hclaim rfl rfl (List.append_nil _).symm nofun ?_
      simp only [ClaimRun.held, hpc, hmessages, List.nil_append, List.append_nil,
        List.singleton_append]
  | messagesClosed hclaim hpc =>
      refine h.of_claim hclaim rfl rfl (List.append_nil _).symm nofun ?_
      simp only [ClaimRun.held, hpc, Option.toList_none, List.append_nil]
  | @forward i claim msg hclaim hpc =>
      have hentered := h.forward hclaim hpc
      simpa only [entered, List.append_assoc] using hentered
  | @handOff i claim msg pp hclaim hpc hinput htake =>
      have hstep : PartitionProcessor.step cfg { s.pp with input := [msg] } .take = some pp := htake
      have hpp := entered_pp_step hstep
      have hentered := h.forward hclaim hpc
      simp only [entered, hpp]
      simpa only [entered, hinput, List.append_nil] using hentered
  | takeError hclaim hopen hdropped =>
      refine h.of_claim hclaim rfl rfl (List.append_nil _).symm nofun ?_
      rw [← hdropped, List.append_nil]
      rfl
  | runner hpp =>
      have hentered := entered_pp_step hpp
      simp only [entered, hentered]
      exact h
  | runReturns hpc hrun err => cases err <;> exact h
  | @joinReturns i err hjoin => cases err <;> exact h
  | groupDone | closeErrors | callStop | stopReceives => exact h

/-- What was delivered to a claim is, in this order, what `run` has taken of its topic, what is in
the input and in the hands of the claim, and what is still in its channel. A claim holds at most one
message, and `run` takes no other messages. -/
theorem topics_in_order [TableStore σ] (cfg : Config α Callback) (topics : List String)
    (htopics : topics.Nodup) (capacity joins : Nat) (table : Option σ) (marked : Int)
    (actions : List (Action α)) :
    let s := run (fun s => s.step cfg) (start topics capacity joins table marked) actions
    (∀ claim ∈ s.claims, claim.held.length ≤ 1 ∧
      claim.delivered =
        (s.pp.taken.map fun ctx => ctx.msg).filter (fun msg => msg.topic = claim.topic) ++
          s.pp.input.filter (fun msg => msg.topic = claim.topic) ++ claim.held ++ claim.messages) ∧
      ∀ ctx ∈ s.pp.taken, ctx.msg.topic ∈ s.claims.map fun claim => claim.topic := by
  intro s
  have hstart : TopicsPassed (start topics capacity joins table marked) := passed_new htopics
  have h : TopicsPassed s := run_invariant (fun _ _ _ h hstep => h.step hstep) hstart actions
  refine ⟨fun claim hclaim => ⟨claim.length_held_le, ?_⟩, fun ctx hctx => ?_⟩
  · rw [← List.filter_append, h.kept claim hclaim, ← h.passed claim hclaim]
    rfl
  · exact h.known ctx.msg (List.mem_append_left _ (List.mem_map_of_mem hctx))

def twoTopics : List (Action Bytes) :=
  [.arrive 0 ⟨"in", 0, 0, [97], some [1]⟩, .arrive 1 ⟨"loop", 0, 5, [98], some [2]⟩, .receive 1,
    .forward 1, .arrive 0 ⟨"in", 0, 1, [99], some [3]⟩, .receive 0, .runner .take, .forward 0,
    .runner .returns, .receive 0, .runner .take]

theorem topics_in_order_two_topics :
    let s := run (fun s => s.step PartitionProcessor.rawConfig)
      (start ["in", "loop"] 1 0 (none : Option GroupTable) 0) twoTopics
    (∀ claim ∈ s.claims, claim.held.length ≤ 1 ∧
      claim.delivered =
        (s.pp.taken.map fun ctx => ctx.msg).filter (fun msg => msg.topic = claim.topic) ++
          s.pp.input.filter (fun msg => msg.topic = claim.topic) ++ claim.held ++ claim.messages) ∧
      ∀ ctx ∈ s.pp.taken, ctx.msg.topic ∈ s.claims.map fun claim => claim.topic :=
  topics_in_order PartitionProcessor.rawConfig ["in", "loop"] (by decide) 1 0 none 0 twoTopics

/-! ### The end of a session -/

/-- The steps that the goroutines take by themselves, once nothing new arrives: the claims, the
group and `Stop` go on, a callback returns and so does a catch-up. -/
def Action.windsDown : Action α → Bool
  | .receive _ | .messagesClosed _ | .forward _ | .handOff _ | .takeError _ => true
  | .runner .take | .runner .contextDone | .runner .asyncErrs | .runner .returns => true
  | .runReturns | .joinReturns _ _ | .groupDone | .closeErrors | .stopReceives => true
  | _ => false

/-- Every call of `ConsumeClaim` has returned, the channel is closed, and `Stop` does not wait for
it. -/
structure Finished (s : Consuming σ) : Prop where
  claims : ∀ claim ∈ s.claims, claim.hasReturned = true
  closed : s.waiter = .closed
  stop : s.stop ≠ .waiting

def claimPcWork : ClaimPc → Nat
  | .selecting => 1
  | .sending _ => 6
  | .returned _ _ => 0

def runPcWork : RunPc → Nat
  | .selecting => 1
  | .callback => 3
  | .exited => 0

def waiterWork : WaiterPc → Nat
  | .waiting => 2
  | .sent => 1
  | .closed => 0

def stopWork : StopPc → Nat
  | .waiting => 1
  | _ => 0

def claimWork (claim : ClaimRun) : Nat := 6 * claim.messages.length + claimPcWork claim.pc

def runWork (pp : PartitionProcessor σ) : Nat := 4 * pp.input.length + runPcWork pp.pc

/-- What is left to do. A message goes from a claim to the input and from there to a callback, and
is worth less on each of these stations. -/
def work (s : Consuming σ) : Nat :=
  (s.claims.map claimWork).sum + runWork s.pp + s.runResult.elim 1 (fun _ => 0) +
    s.joins.countP (fun join => join = none) + waiterWork s.waiter + stopWork s.stop

theorem work_collect (s : Consuming σ) (err : Option String) : (s.collect err).work = s.work := by
  cases err <;> rfl

theorem cancelled_update {pp : PartitionProcessor σ} (index : Nat) (ctx ctx' : CbContext) :
    (pp.update index ctx ctx').cancelled = pp.cancelled := by
  have hfold : ∀ (calls : List Verdict) (q : PartitionProcessor σ),
      (calls.foldl (fun q verdict => q.call ctx.msg verdict) q).cancelled = q.cancelled := by
    intro calls
    induction calls with
    | nil => exact fun _ => rfl
    | cons verdict calls ih =>
        intro q
        rw [List.foldl_cons, ih]
        cases verdict <;> rfl
  exact hfold _ _

theorem update_fields (pp : PartitionProcessor σ) (index : Nat) (ctx ctx' : CbContext) :
    (pp.update index ctx ctx').taken = pp.taken.set index ctx' ∧
      (pp.update index ctx ctx').input = pp.input ∧ (pp.update index ctx ctx').pc = pp.pc := by
  obtain ⟨-, htaken, hinput, hpc, -⟩ := PartitionProcessor.foldl_call
    { pp with taken := pp.taken.set index ctx' } ctx.msg (ctx'.calls.drop ctx.calls.length)
  exact ⟨htaken, hinput, hpc⟩

/-- What the steps of `run` keep. -/
theorem pp_step_keeps [TableStore σ] {action : PartitionProcessor.Action α}
    {pp pp' : PartitionProcessor σ} (h : pp.step cfg action = some pp') :
    (pp.cancelled = true → pp'.cancelled = true) ∧
      ((pp.pc = .callback → pp.taken ≠ []) → pp'.pc = .callback → pp'.taken ≠ []) := by
  cases PartitionProcessor.step_cases h with
  | ignored hpc =>
      exact ⟨id, fun _ hcallback => by simp [PartitionProcessor.call, hpc] at hcallback⟩
  | fails | closed | contextDone | asyncErrs | panics =>
      exact ⟨id, fun _ hcallback => by cases hcallback⟩
  | calls => exact ⟨id, fun _ _ => by simp⟩
  | op hpc => exact ⟨id, fun hcurrent _ => by simpa using hcurrent hpc⟩
  | returns =>
      refine ⟨fun hcancelled => (cancelled_update ..).trans hcancelled, fun _ hcallback => ?_⟩
      rw [(update_fields ..).2.2] at hcallback
      cases hcallback
  | resolve =>
      refine ⟨fun hcancelled => (cancelled_update ..).trans hcancelled,
        fun hcurrent hcallback => ?_⟩
      rw [(update_fields ..).2.2] at hcallback
      rw [(update_fields ..).1]
      simpa using hcurrent hcallback
  | cancel => exact ⟨fun _ => rfl, id⟩

theorem runWork_take [TableStore σ] {pp pp' : PartitionProcessor σ} (h : pp.take cfg = some pp') :
    runWork pp' < runWork pp := by
  cases PartitionProcessor.take_cases h with
  | ignored hpc hinput => simp [runWork, PartitionProcessor.call, hinput]
  | fails hinput | calls hinput =>
      simp only [runWork, hinput, List.length_cons, runPcWork]
      omega

/-- A message leaves the input, its callback returns, or a catch-up is over. -/
theorem runWork_runner [TableStore σ] {action : PartitionProcessor.Action α}
    {pp pp' : PartitionProcessor σ} (hwinds : Action.windsDown (.runner action) = true)
    (h : pp.step cfg action = some pp') :
    runWork pp' < runWork pp := by
  cases action with
  | take => exact runWork_take h
  | contextDone | asyncErrs =>
      obtain ⟨⟨hpc, -⟩, rfl⟩ := guard_eq_some.mp h
      simp [runWork, runPcWork, hpc]
  | returns =>
      cases PartitionProcessor.step_cases h with
      | @returns ctx hpc =>
          obtain ⟨-, hinput, hselecting⟩ :=
            update_fields { pp with pc := .selecting } (pp.taken.length - 1) ctx (ctx.finish none)
          simp only [runWork, hinput, hselecting, hpc, runPcWork]
          omega
  | inputClosed | op | panics | resolve | cancel => cases hwinds

/-- Each step that winds down leaves less to do, so only finitely many of them are left. -/
theorem work_step [TableStore σ] {action : Action α} (hwinds : action.windsDown = true)
    (hstep : s.step cfg action = some s') : s'.work < s.work := by
  cases step_cases hstep with
  | arrive | closeMessages | callStop => cases hwinds
  | @receive i claim msg messages hclaim hpc hmessages =>
      have hsum := Threads.sum_map_set_add (a := { claim with
        pc := .sending msg, messages := messages })
        claimWork hclaim
      simp only [claimWork, claimPcWork, hpc, hmessages, List.length_cons] at hsum
      simp only [work]
      omega
  | @messagesClosed i claim hclaim hpc =>
      have hsum := Threads.sum_map_set_add (a := { claim with pc := .returned none none }) claimWork
        hclaim
      simp only [claimWork, claimPcWork, hpc] at hsum
      simp only [work]
      omega
  | @forward i claim msg hclaim hpc =>
      have hsum := Threads.sum_map_set_add (a := claim.forward msg) claimWork hclaim
      simp only [claimWork, claimPcWork, hpc, ClaimRun.forward] at hsum
      simp only [work, runWork, List.length_append, List.length_singleton, ClaimRun.forward]
      omega
  | @handOff i claim msg pp hclaim hpc hinput htake =>
      have hsum := Threads.sum_map_set_add (a := claim.forward msg) claimWork hclaim
      simp only [claimWork, claimPcWork, hpc, ClaimRun.forward] at hsum
      have htake := runWork_take htake
      have hrun : runWork { s.pp with input := [msg] } = runWork s.pp + 4 := by
        simp only [runWork, hinput, List.length_singleton, List.length_nil]
        omega
      simp only [work, ClaimRun.forward]
      omega
  | @takeError i claim dropped hclaim hopen =>
      have hsum := Threads.sum_map_set_add
        (a := { claim with pc := .returned s.runnerErrors dropped })
        claimWork hclaim
      have hlt : 0 < claimPcWork claim.pc := by
        cases hpc : claim.pc with
        | selecting => exact Nat.one_pos
        | sending msg => exact Nat.succ_pos 5
        | returned err dropped => simp [ClaimRun.hasReturned, hpc] at hopen
      have hreturned : claimPcWork (.returned s.runnerErrors dropped) = 0 := rfl
      simp only [claimWork, hreturned] at hsum
      simp only [work]
      omega
  | runner hpp =>
      have := runWork_runner hwinds hpp
      simp only [work]
      omega
  | runReturns hpc hrun err =>
      rw [work_collect]
      simp only [work, hrun, Option.elim_none, Option.elim_some]
      omega
  | @joinReturns i err hjoin =>
      have hcount := Threads.countP_set_add (a := some err) (fun join => decide (join = none)) hjoin
      simp only [reduceCtorEq, decide_false, decide_true, if_true, Bool.false_eq_true,
        if_false] at hcount
      rw [work_collect]
      simp only [work]
      omega
  | groupDone hwaiter =>
      simp only [work, runWork, waiterWork, hwaiter]
      omega
  | closeErrors hwaiter =>
      simp only [work, waiterWork, hwaiter]
      omega
  | stopReceives hstop =>
      simp only [work, hstop, stopWork]
      omega

theorem collect_keeps (s : Consuming σ) (err : Option String) :
    (s.pp.cancelled = true → (s.collect err).pp.cancelled = true) ∧
      ((s.pp.pc = .callback → s.pp.taken ≠ []) →
        (s.collect err).pp.pc = .callback → (s.collect err).pp.taken ≠ []) := by
  cases err with
  | none => exact ⟨id, id⟩
  | some err => exact ⟨fun _ => rfl, id⟩

def InCallback (s : Consuming σ) : Prop := s.pp.pc = .callback → s.pp.taken ≠ []

theorem step_keeps [TableStore σ] {action : Action α} (hstep : s.step cfg action = some s') :
    (s.pp.cancelled = true → s'.pp.cancelled = true) ∧ (InCallback s → InCallback s') := by
  cases step_cases hstep with
  | @handOff i claim msg pp hclaim hpc hinput htake =>
      have hpp : PartitionProcessor.step cfg { s.pp with input := [msg] } .take = some pp := htake
      obtain ⟨hcancelled, hcurrent⟩ := pp_step_keeps hpp
      exact ⟨hcancelled, hcurrent⟩
  | runner hpp => exact pp_step_keeps hpp
  | runReturns hpc hrun err => exact collect_keeps { s with runResult := some err } err
  | @joinReturns i err hjoin => exact collect_keeps { s with joins := s.joins.set i (some err) } err
  | groupDone | callStop => exact ⟨fun _ => rfl, id⟩
  | arrive | closeMessages | receive | messagesClosed | forward | takeError | closeErrors
  | stopReceives => exact ⟨id, id⟩

structure Cancelled (s : Consuming σ) : Prop where
  cancelled : s.pp.cancelled = true
  current : InCallback s

theorem receiveError_of_closed (hwaiter : s.waiter = .closed) :
    s.receiveError = some (s.runnerErrors, { s with runnerErrors := none }) := by
  unfold receiveError
  split
  · next value hvalue => rw [hvalue]
  · next hempty => rw [if_pos hwaiter, hempty, ← hempty]

/-- Once the channel is closed, nobody waits for it in vain. -/
theorem progress_closed [TableStore σ] (cfg : Config α Callback) (hwaiter : s.waiter = .closed)
    (hopen : ¬ Finished s) :
    ∃ (action : Action α) (s' : Consuming σ), action.windsDown = true ∧
    s.step cfg action = some s' := by
  have hreceived := receiveError_of_closed hwaiter
  by_cases hstop : s.stop = .waiting
  · refine ⟨.stopReceives, { s with runnerErrors := none, stop := .received s.runnerErrors }, rfl,
      ?_⟩
    simp only [step, stopReceives, if_pos hstop, hreceived, Option.map_some]
  · have hclaims : ∃ claim ∈ s.claims, claim.hasReturned = false := by
      by_contra hall
      refine hopen ⟨fun claim hclaim => ?_, hwaiter, hstop⟩
      by_contra hne
      exact hall ⟨claim, hclaim, by simpa using hne⟩
    obtain ⟨claim, hmem, hrunning⟩ := hclaims
    obtain ⟨i, hi⟩ := List.mem_iff_getElem?.mp hmem
    have htaken : ∃ claim', claim.takeError s.runnerErrors = some claim' := by
      unfold ClaimRun.takeError
      split
      · exact ⟨_, rfl⟩
      · exact ⟨_, rfl⟩
      · next hpc => simp [ClaimRun.hasReturned, hpc] at hrunning
    obtain ⟨claim', hclaim'⟩ := htaken
    refine ⟨.takeError i, { s with runnerErrors := none, claims := s.claims.set i claim' }, rfl, ?_⟩
    simp only [step, takeError, hreceived, onClaim, hi, hclaim', Option.map_some]

/-- A cancelled `run` that has not returned can go on. -/
theorem progress_run [TableStore σ] (cfg : Config α Callback) (h : Cancelled s)
    (hrun : s.runResult = none) :
    ∃ (action : Action α) (s' : Consuming σ), action.windsDown = true ∧
    s.step cfg action = some s' := by
  cases hpc : s.pp.pc with
  | selecting =>
      refine ⟨.runner .contextDone, { s with pp := { s.pp with pc := .exited } }, rfl, ?_⟩
      simp [step, PartitionProcessor.step, PartitionProcessor.exit, hpc, h.cancelled]
  | callback =>
      obtain ⟨ctx, hctx⟩ : ∃ ctx, s.pp.current = some ctx :=
        Option.isSome_iff_exists.mp (by simpa [PartitionProcessor.current] using h.current hpc)
      have hreturns : s.pp.returns
          = some ({ s.pp with pc := .selecting }.update (s.pp.taken.length - 1) ctx
          (ctx.finish none)) := by
        simp only [PartitionProcessor.returns, hpc, hctx]
      exact ⟨.runner .returns, _, rfl, congrArg (Option.map _) hreturns⟩
  | exited => exact ⟨.runReturns, _, rfl, if_pos ⟨hpc, hrun⟩⟩

/-- As long as the end is not reached, one of the goroutines can go on. -/
theorem progress [TableStore σ] (cfg : Config α Callback) (h : Cancelled s) (hopen : ¬ Finished s) :
    ∃ (action : Action α) (s' : Consuming σ), action.windsDown = true ∧
    s.step cfg action = some s' := by
  cases hwaiter : s.waiter with
  | closed => exact progress_closed cfg hwaiter hopen
  | sent => exact ⟨.closeErrors, _, rfl, if_pos hwaiter⟩
  | waiting =>
      by_cases hjoins : ∀ join ∈ s.joins, join.isSome = true
      · cases hrun : s.runResult with
        | none => exact progress_run cfg h hrun
        | some err => exact ⟨.groupDone, _, rfl, if_pos ⟨hwaiter, by rw [hrun]; rfl, hjoins⟩⟩
      · have hrunning : none ∈ s.joins := by
          by_contra hall
          refine hjoins fun join hjoin => Option.isSome_iff_ne_none.mpr ?_
          rintro rfl
          exact hall hjoin
        obtain ⟨i, hi⟩ := List.mem_iff_getElem?.mp hrunning
        exact ⟨.joinReturns i none, _, rfl, if_pos hi⟩

/-- Once the context of the runners is cancelled, by the session, by `Stop` or by the first runner
that fails, the claims, the runners and a `Stop` that was called come to an end in whatever order
they go on. -/
theorem winds_down [TableStore σ] (cfg : Config α Callback) (topics : List String)
    (capacity joins : Nat)
    (table : Option σ) (marked : Int) (actions : List (Action α))
    (hcancelled : (run (fun s => s.step cfg) (start topics capacity joins table marked)
      actions).pp.cancelled = true) :
    Ends (fun s => s.step cfg) (fun _ action => action.windsDown = true) Finished
      (run (fun s => s.step cfg) (start topics capacity joins table marked) actions) := by
  refine Ends.of_measure Cancelled work ?_ (fun s h hopen => progress cfg h hopen) ⟨hcancelled, ?_⟩
  · intro s action s' h _ hwinds hstep
    obtain ⟨hstays, hcurrent⟩ := step_keeps hstep
    exact ⟨⟨hstays h.cancelled, hcurrent h.current⟩, work_step hwinds hstep⟩
  · have hstart : InCallback (start topics capacity joins table marked) :=
      fun hcallback => RunPc.noConfusion hcallback
    exact run_invariant (fun _ _ _ h hstep => (step_keeps hstep).2 h) hstart actions

def failingJoin : List (Action Bytes) :=
  [.arrive 0 ⟨"in", 0, 0, [97], some [1]⟩, .receive 0, .joinReturns 0 (some "broken pipe")]

theorem winds_down_failing_join :
    Ends (fun s => s.step PartitionProcessor.rawConfig) (fun _ action => action.windsDown
      = true) Finished
      (run (fun s => s.step PartitionProcessor.rawConfig)
        (start ["in"] 0 1 (none : Option GroupTable) 0) failingJoin) :=
  winds_down PartitionProcessor.rawConfig ["in"] 0 1 none 0 failingJoin (by decide)

end Consuming

end Goka

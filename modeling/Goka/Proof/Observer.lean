import Goka.Library.Schedule
import Goka.Library.Threads
import Goka.Observer
import Mathlib.Data.List.Nodup

/-!
# Observers see every change

The observers whose channel is open are those in the list, each of them once. The loop of a
`SetState` goes over a suffix of the list, which nobody changes meanwhile, so what an observer has
been sent together with what the loop still holds for it is every state since its registration.
-/

namespace Goka

/-! ### The removal loop -/

namespace ObserverSlice

theorem foldl_eq_self {observer : Nat} {s : ObserverSlice} {indices : List Nat}
    (h : ∀ idx ∈ indices, s.array[idx]? ≠ some (some observer)) :
    indices.foldl (fun s idx => if s.array[idx]? = some (some observer) then s.cut idx else s) s
      = s := by
  induction indices with
  | nil => rfl
  | cons idx indices ih =>
      obtain ⟨hidx, hrest⟩ := List.forall_mem_cons.mp h
      rw [List.foldl_cons, if_neg hidx]
      exact ih hrest

theorem cut_eq (before after : List (Option Nat)) (entry : Option Nat) :
    cut {
      array := before ++ entry :: after, len := (before ++ entry :: after).length } before.length
      = { array := before ++ after ++ [none], len := (before ++ after).length } := by
  have hdrop : (before ++ entry :: after).drop (before.length + 1) = after := by
    rw [← List.drop_drop, List.drop_left, List.drop_one, List.tail_cons]
  rw [cut, List.take_length, List.drop_length, List.take_left, hdrop]
  simp only [List.length_append, List.length_cons, Nat.add_succ_sub_one]

/-- The loop cuts the observer out, and does not meet it again. -/
theorem remove_eq {before after : List (Option Nat)} {observer : Nat}
    (hbefore : some observer ∉ before) (hafter : some observer ∉ after) :
    remove (before ++ some observer :: after) observer
      = { array := before ++ after ++ [none], len := (before ++ after).length } := by
  have hrange : List.range (before ++ some observer :: after).length = List.range before.length ++
      before.length :: (List.range after.length).map fun idx => before.length + (idx + 1) := by
    rw [List.length_append, List.length_cons, List.range_add, List.range_succ_eq_map, List.map_cons,
      List.map_map]
    rfl
  let slice : ObserverSlice :=
    { array := before ++ some observer :: after, len := (before ++ some observer :: after).length }
  have hfirst : ∀ idx ∈ List.range before.length, slice.array[idx]? ≠ some (some observer) := by
    intro idx hidx hget
    rw [List.getElem?_append_left (List.mem_range.mp hidx)] at hget
    exact hbefore (List.mem_of_getElem? hget)
  rw [remove, hrange, List.foldl_append, List.foldl_cons, foldl_eq_self hfirst,
    if_pos (by simp [slice]), cut_eq]
  apply foldl_eq_self
  intro idx _ hget
  have hmem := List.mem_of_getElem? hget
  simp [hbefore, hafter] at hmem

/-- What is left of the slice. -/
theorem take_remove {observers : List (Option Nat)} {observer : Nat} (hnodup : observers.Nodup)
    (hmem : some observer ∈ observers) :
    (remove observers observer).array.take (remove observers observer).len
      = observers.erase (some observer) := by
  obtain ⟨before, after, rfl⟩ := List.append_of_mem hmem
  have hbefore : some observer ∉ before := by
    intro h
    exact (List.disjoint_of_nodup_append hnodup) h List.mem_cons_self
  have hafter : some observer ∉ after := (List.nodup_cons.mp (List.nodup_append.mp hnodup).2.1).1
  rw [remove_eq hbefore hafter, List.take_left, List.erase_append_right _ hbefore,
    List.erase_cons_head]

end ObserverSlice

namespace ObservedSignal

open Schedule

variable {s s' : ObservedSignal}

/-! ### What an action can do -/

inductive Step (s : ObservedSignal) : Action → ObservedSignal → Prop where
  | stays {c : Signal.Call} {signal : Signal} (hfree : s.notifying = none)
      (hsame : signal.state = s.signal.state) : Step s (.call c) { s with signal := signal }
  | changes {c : Signal.Call} {signal : Signal} (hfree : s.notifying = none)
      (hchange : signal.state ≠ s.signal.state) :
      Step s (.call c) { s with
        signal := signal
        notifying := some (signal.state, s.stateChangeObservers)
        changes := s.changes ++ [signal.state] }
  | callPanics (c : Signal.Call) (err : String) : Step s (.call c) { s with panicked := some err }
  | sendPanics {state : Int} {entry : Option Nat} {rest : List (Option Nat)}
      (hloop : s.notifying = some (state, entry :: rest)) (err : String) :
      Step s .notifySend { s with panicked := some err }
  | sends {state : Int} {id : Nat} {rest : List (Option Nat)} {obs : StateChangeObserver}
      (hloop : s.notifying = some (state, some id :: rest)) (hobs : s.observers[id]? = some obs)
      (hopen : obs.cClosed = false) (hroom : obs.buffer.length < 1) :
      Step s .notifySend { s with
        notifying := some (state, rest)
        observers := s.observers.set id
          { obs with buffer := obs.buffer ++ [state], sent := obs.sent ++ [state] } }
  | skips {state : Int} {id : Nat} {rest : List (Option Nat)} {obs : StateChangeObserver}
      (hloop : s.notifying = some (state, some id :: rest)) (hobs : s.observers[id]? = some obs)
      (hclosed : obs.closed = true) :
      Step s .notifyClosed { s with notifying := some (state, rest) }
  | unlocks {state : Int} (hloop : s.notifying = some (state, [])) :
      Step s .unlock { s with notifying := none }
  | observes (hfree : s.notifying = none) (obs : StateChangeObserver)
      (hobs : obs = ⟨[s.signal.state], false, false, [s.signal.state], [], s.signal.state,
        s.changes.length⟩) :
      Step s .observeStateChange { s with
        stateChangeObservers := s.stateChangeObservers ++ [some s.observers.length]
        observers := s.observers ++ [obs] }
  | receives {id : Nat} {obs : StateChangeObserver} {state : Int} {buffer : List Int}
      (hobs : s.observers[id]? = some obs) (hbuffer : obs.buffer = state :: buffer) :
      Step s (.receive id) { s with
        observers := s.observers.set id
          { obs with buffer := buffer, received := obs.received ++ [state] } }
  | stopBegins {id : Nat} {obs : StateChangeObserver} (hobs : s.observers[id]? = some obs)
      (hclosed : obs.closed = false) :
      Step s (.stopBegin id) { s with observers := s.observers.set id { obs with closed := true } }
  | stopRemoves {id : Nat} {obs : StateChangeObserver} (hfree : s.notifying = none)
      (hobs : s.observers[id]? = some obs) (hclosed : obs.closed = true)
      (hopen : obs.cClosed = false) :
      Step s (.stopRemove id) { s with
        stateChangeObservers := (ObserverSlice.remove s.stateChangeObservers id).array.take
          (ObserverSlice.remove s.stateChangeObservers id).len
        observers := s.observers.set id { obs with cClosed := true } }

theorem call_cases {c : Signal.Call} (h : s.call c = some s') : Step s (.call c) s' := by
  obtain ⟨hfree, h⟩ := Option.ite_none_right_eq_some.mp h
  split at h
  · split at h
    · next hsame =>
        obtain rfl := Option.some.inj h
        exact .stays hfree hsame
    · next hchange =>
        obtain rfl := Option.some.inj h
        exact .changes hfree hchange
  all_goals
    obtain rfl := Option.some.inj h
    exact .callPanics c _

theorem notifySend_cases (h : s.notifySend = some s') : Step s .notifySend s' := by
  unfold notifySend at h
  split at h
  · next state id rest hloop =>
      split at h
      · cases h
      · next obs hobs =>
          split at h
          · obtain rfl := Option.some.inj h
            exact .sendPanics hloop _
          · next hopen =>
              obtain ⟨hroom, rfl⟩ := guard_eq_some.mp h
              exact .sends hloop hobs (Bool.eq_false_iff.mpr hopen) hroom
  · next hloop =>
      obtain rfl := Option.some.inj h
      exact .sendPanics hloop _
  · cases h

theorem notifyClosed_cases (h : s.notifyClosed = some s') : Step s .notifyClosed s' := by
  unfold notifyClosed at h
  split at h
  · next state id rest hloop =>
      obtain ⟨hclosed, rfl⟩ := guard_eq_some.mp h
      obtain ⟨obs, hobs, hclosed⟩ := (Option.any_eq_true _ _).mp hclosed
      exact .skips hloop hobs hclosed
  · cases h

theorem unlock_cases (h : s.unlock = some s') : Step s .unlock s' := by
  unfold unlock at h
  split at h
  · next state hloop =>
      obtain rfl := Option.some.inj h
      exact .unlocks hloop
  · cases h

theorem receive_cases {id : Nat} (h : s.receive id = some s') : Step s (.receive id) s' := by
  unfold receive at h
  split at h
  · cases h
  · next obs hobs =>
      split at h
      · cases h
      · next state buffer hbuffer =>
          obtain rfl := Option.some.inj h
          exact .receives hobs hbuffer

theorem stopBegin_cases {id : Nat} (h : s.stopBegin id = some s') : Step s (.stopBegin id) s' := by
  unfold stopBegin at h
  split at h
  · cases h
  · next obs hobs =>
      obtain ⟨hclosed, h⟩ := Option.ite_none_left_eq_some.mp h
      obtain rfl := Option.some.inj h
      exact .stopBegins hobs (Bool.eq_false_iff.mpr hclosed)

theorem stopRemove_cases {id : Nat} (h : s.stopRemove id = some s') :
    Step s (.stopRemove id) s' := by
  obtain ⟨hfree, h⟩ := Option.ite_none_right_eq_some.mp h
  split at h
  · cases h
  · next obs hobs =>
      obtain ⟨⟨hclosed, hopen⟩, rfl⟩ := guard_eq_some.mp h
      exact .stopRemoves hfree hobs hclosed hopen

theorem step_cases {action : Action} (h : s.step action = some s') : Step s action s' := by
  obtain ⟨-, h⟩ := Option.ite_none_right_eq_some.mp h
  cases action with
  | call c => exact call_cases h
  | notifySend => exact notifySend_cases h
  | notifyClosed => exact notifyClosed_cases h
  | unlock => exact unlock_cases h
  | observeStateChange =>
      obtain ⟨hfree, rfl⟩ := guard_eq_some.mp h
      exact .observes hfree _ rfl
  | receive id => exact receive_cases h
  | stopBegin id => exact stopBegin_cases h
  | stopRemove id => exact stopRemove_cases h

/-! ### The invariant -/

def pending (notifying : Option (Int × List (Option Nat))) (id : Nat) : List Int :=
  match notifying with
  | some (state, rest) => if some id ∈ rest then [state] else []
  | none => []

structure Sees (changes pending : List Int) (obs : StateChangeObserver) : Prop where
  since_le : obs.since ≤ changes.length
  closed : obs.cClosed = true → obs.closed = true
  fifo : obs.received ++ obs.buffer = obs.sent
  sent : obs.closed = false → obs.sent ++ pending = obs.first :: changes.drop obs.since

structure Inv (s : ObservedSignal) : Prop where
  nodup : s.stateChangeObservers.Nodup
  made : ∀ entry ∈ s.stateChangeObservers, ∃ id obs, entry = some id ∧ s.observers[id]? = some obs
  listed : ∀ id obs, s.observers[id]? = some obs →
    (some id ∈ s.stateChangeObservers ↔ obs.cClosed = false)
  loop : ∀ state rest, s.notifying = some (state, rest) → rest <:+ s.stateChangeObservers
  sees : ∀ id obs, s.observers[id]? = some obs → Sees s.changes (pending s.notifying id) obs

theorem inv_new (states : List Int) : Inv (new states) where
  nodup := List.nodup_nil
  made := fun _ hentry => absurd hentry List.not_mem_nil
  listed := fun _ _ hobs => absurd hobs.symm (Option.some_ne_none _)
  loop := fun _ _ hloop => absurd hloop.symm (Option.some_ne_none _)
  sees := fun _ _ hobs => absurd hobs.symm (Option.some_ne_none _)

theorem Sees.change {changes : List Int} {obs : StateChangeObserver} (h : Sees changes [] obs)
    {pending : List Int} {state : Int} (hpending : obs.closed = false → pending = [state]) :
    Sees (changes ++ [state]) pending obs where
  since_le := by
    rw [List.length_append]
    exact Nat.le_add_right_of_le h.since_le
  closed := h.closed
  fifo := h.fifo
  sent := by
    intro hclosed
    rw [hpending hclosed, List.drop_append_of_le_length h.since_le, ← List.cons_append,
      ← h.sent hclosed, List.append_nil]

namespace Inv

variable {id : Nat} {obs obs' : StateChangeObserver} {state : Int} {rest : List (Option Nat)}

/-- What the loop comes to is an observer whose channel is open. -/
theorem head_open (h : Inv s) {entry : Option Nat} (hloop : s.notifying = some (state, rest))
    (hentry : entry ∈ rest) :
    ∃ id obs, entry = some id ∧ s.observers[id]? = some obs ∧ obs.cClosed = false := by
  have hmem := (h.loop state rest hloop).mem hentry
  obtain ⟨id, obs, rfl, hobs⟩ := h.made entry hmem
  exact ⟨id, obs, rfl, hobs, (h.listed id obs hobs).mp hmem⟩

theorem head_not_mem (h : Inv s) {entry : Option Nat}
    (hloop : s.notifying = some (state, entry :: rest)) : entry ∉ rest :=
  (List.nodup_cons.mp (h.nodup.sublist (h.loop _ _ hloop).sublist)).1

theorem made_set (h : Inv s) (id : Nat) (obs : StateChangeObserver) :
    ∀ entry ∈ s.stateChangeObservers, ∃ id' obs', entry = some id' ∧
      (s.observers.set id obs)[id']? = some obs' := by
  intro entry hentry
  obtain ⟨id', obs', rfl, hobs'⟩ := h.made entry hentry
  have hlt := (List.getElem?_eq_some_iff.mp hobs').1
  exact ⟨id', _, rfl, List.getElem?_eq_getElem (by rwa [List.length_set])⟩

/-- One observer moves on, and its channel stays as open as it was. The loop may leave it behind. -/
theorem move (h : Inv s) (hobs : s.observers[id]? = some obs)
    {notifying : Option (Int × List (Option Nat))} (hopen : obs'.cClosed = obs.cClosed)
    (hloop : ∀ state rest, notifying = some (state, rest) → rest <:+ s.stateChangeObservers)
    (hsees : Sees s.changes (pending notifying id) obs')
    (hother : ∀ other, other ≠ id → pending notifying other = pending s.notifying other) :
    Inv { s with notifying := notifying, observers := s.observers.set id obs' } where
  nodup := h.nodup
  made := h.made_set id obs'
  listed := by
    apply Threads.forall_getElem?_set
    · rw [hopen]
      exact h.listed id obs hobs
    · exact fun other obs'' _ hobs'' => h.listed other obs'' hobs''
  loop := hloop
  sees := by
    refine Threads.forall_getElem?_set (P := fun id => Sees s.changes (pending notifying id)) hsees
      ?_
    intro other obs'' hne hobs''
    rw [hother other hne]
    exact h.sees other obs'' hobs''

/-- The loop leaves an observer behind. -/
theorem advance (h : Inv s) (hloop : s.notifying = some (state, some id :: rest))
    (hobs : s.observers[id]? = some obs) (hopen : obs'.cClosed = obs.cClosed)
    (hsees : Sees s.changes [] obs') :
    Inv { s with notifying := some (state, rest), observers := s.observers.set id obs' } := by
  apply h.move hobs hopen
  · intro _ _ heq
    obtain ⟨rfl, rfl⟩ := Prod.mk.inj (Option.some.inj heq)
    exact (List.suffix_cons _ _).trans (h.loop _ _ hloop)
  · rwa [pending, if_neg (h.head_not_mem hloop)]
  · intro other hne
    have hmem : some other ∈ some id :: rest ↔ some other ∈ rest := by simp [hne]
    rw [hloop, pending, pending]
    exact if_congr hmem.symm rfl rfl

theorem sends (h : Inv s) (hloop : s.notifying = some (state, some id :: rest))
    (hobs : s.observers[id]? = some obs) :
    Inv { s with
      notifying := some (state, rest)
      observers := s.observers.set id
        { obs with buffer := obs.buffer ++ [state], sent := obs.sent ++ [state] } } := by
  have hsees := h.sees id obs hobs
  rw [hloop, pending, if_pos List.mem_cons_self] at hsees
  refine h.advance hloop hobs rfl ⟨hsees.since_le, hsees.closed, ?_, fun hclosed => ?_⟩
  · rw [← List.append_assoc, hsees.fifo]
  · rw [List.append_nil, hsees.sent hclosed]

theorem skips (h : Inv s) (hloop : s.notifying = some (state, some id :: rest))
    (hobs : s.observers[id]? = some obs) (hclosed : obs.closed = true) :
    Inv { s with notifying := some (state, rest) } := by
  obtain ⟨hlt, hget⟩ := List.getElem?_eq_some_iff.mp hobs
  have hsees := h.sees id obs hobs
  have hleft : Sees s.changes [] obs := by
    refine ⟨hsees.since_le, hsees.closed, hsees.fifo, fun hopen => ?_⟩
    exact Bool.noConfusion (hclosed.symm.trans hopen)
  have hadvance := h.advance hloop hobs rfl hleft
  rwa [← hget, List.set_getElem_self hlt] at hadvance

theorem changes (h : Inv s) (hfree : s.notifying = none) (signal : Signal) :
    Inv { s with
      signal := signal
      notifying := some (signal.state, s.stateChangeObservers)
      changes := s.changes ++ [signal.state] } where
  nodup := h.nodup
  made := h.made
  listed := h.listed
  loop := by
    intro _ _ heq
    obtain ⟨-, rfl⟩ := Prod.mk.inj (Option.some.inj heq)
    exact List.suffix_rfl
  sees := by
    intro id obs hobs
    have hsees := h.sees id obs hobs
    rw [hfree] at hsees
    apply hsees.change
    intro hclosed
    have hopen : obs.cClosed = false := by
      rw [Bool.eq_false_iff]
      intro hcClosed
      exact Bool.noConfusion (hclosed.symm.trans (hsees.closed hcClosed))
    rw [pending, if_pos ((h.listed id obs hobs).mpr hopen)]

theorem unlocks (h : Inv s) (hloop : s.notifying = some (state, [])) :
    Inv { s with notifying := none } where
  nodup := h.nodup
  made := h.made
  listed := h.listed
  loop := fun _ _ heq => absurd heq.symm (Option.some_ne_none _)
  sees := by
    intro id obs hobs
    have hsees := h.sees id obs hobs
    rwa [hloop, pending, if_neg List.not_mem_nil] at hsees

/-- A new observer starts with the state of the signal, and no loop is under way. -/
theorem observes (h : Inv s) (hfree : s.notifying = none)
    (hobs : obs = ⟨[s.signal.state], false, false, [s.signal.state], [], s.signal.state,
      s.changes.length⟩) :
    Inv { s with
      stateChangeObservers := s.stateChangeObservers ++ [some s.observers.length]
      observers := s.observers ++ [obs] } where
  nodup := by
    apply h.nodup.append (List.nodup_singleton _)
    rw [List.disjoint_singleton]
    intro hmem
    obtain ⟨id, obs', hid, hobs'⟩ := h.made _ hmem
    obtain rfl := Option.some.inj hid
    exact absurd (List.getElem?_eq_some_iff.mp hobs').1 (lt_irrefl _)
  made := by
    intro entry hentry
    rcases List.mem_append.mp hentry with hentry | hentry
    · obtain ⟨id, obs', rfl, hobs'⟩ := h.made entry hentry
      refine ⟨id, obs', rfl, ?_⟩
      rwa [List.getElem?_append_left (List.getElem?_eq_some_iff.mp hobs').1]
    · exact ⟨_, obs, List.mem_singleton.mp hentry, List.getElem?_concat_length⟩
  listed := by
    apply Threads.forall_getElem?_concat
    · simp [hobs]
    · intro id obs' hobs'
      have hne : id ≠ s.observers.length := Nat.ne_of_lt (List.getElem?_eq_some_iff.mp hobs').1
      rw [← h.listed id obs' hobs']
      simp [hne]
  loop := fun _ _ heq => absurd (heq.symm.trans hfree) (Option.some_ne_none _)
  sees := by
    apply Threads.forall_getElem?_concat (P := fun id => Sees s.changes (pending s.notifying id)) _
      h.sees
    rw [hfree, hobs]
    refine ⟨le_rfl, fun hclosed => hclosed, rfl, fun _ => ?_⟩
    rw [List.drop_length]
    rfl

/-- The observer is taken from the list while nothing is sent to it. -/
theorem stopRemoves (h : Inv s) (hfree : s.notifying = none) (hobs : s.observers[id]? = some obs)
    (hclosed : obs.closed = true) :
    Inv { s with
      stateChangeObservers := s.stateChangeObservers.erase (some id)
      observers := s.observers.set id { obs with cClosed := true } } where
  nodup := h.nodup.erase _
  made := fun entry hentry => h.made_set id _ entry (List.mem_of_mem_erase hentry)
  listed := by
    apply Threads.forall_getElem?_set
    · simp [h.nodup.mem_erase_iff]
    · intro other obs' hne hobs'
      rw [← h.listed other obs' hobs', h.nodup.mem_erase_iff]
      simp [hne]
  loop := fun _ _ heq => absurd (heq.symm.trans hfree) (Option.some_ne_none _)
  sees := by
    have hsees := h.sees id obs hobs
    apply Threads.forall_getElem?_set (P := fun id => Sees s.changes (pending s.notifying id))
    · exact ⟨hsees.since_le, fun _ => hclosed, hsees.fifo, hsees.sent⟩
    · exact fun other obs' _ hobs' => h.sees other obs' hobs'

end Inv

/-- A loop over the observers holds the lock, so the list stays while it goes on. -/
theorem inv_step {action : Action} (h : Inv s) (hstep : s.step action = some s') : Inv s' := by
  cases step_cases hstep with
  | stays hfree hsame => exact ⟨h.nodup, h.made, h.listed, h.loop, h.sees⟩
  | changes hfree hchange => exact h.changes hfree _
  | callPanics c err => exact ⟨h.nodup, h.made, h.listed, h.loop, h.sees⟩
  | sendPanics hloop err => exact ⟨h.nodup, h.made, h.listed, h.loop, h.sees⟩
  | sends hloop hobs hopen hroom => exact h.sends hloop hobs
  | skips hloop hobs hclosed => exact h.skips hloop hobs hclosed
  | unlocks hloop => exact h.unlocks hloop
  | observes hfree obs hobs => exact h.observes hfree hobs
  | receives hobs hbuffer =>
      have hsees := h.sees _ _ hobs
      refine h.move hobs rfl h.loop ⟨hsees.since_le, hsees.closed, ?_, hsees.sent⟩ fun _ _ => rfl
      rw [List.append_assoc, List.singleton_append, ← hbuffer]
      exact hsees.fifo
  | stopBegins hobs hclosed =>
      have hsees := h.sees _ _ hobs
      refine h.move hobs rfl h.loop ⟨hsees.since_le, fun _ => rfl, hsees.fifo, ?_⟩ fun _ _ => rfl
      exact fun hopen => Bool.noConfusion hopen
  | stopRemoves hfree hobs hclosed hopen =>
      rw [ObserverSlice.take_remove h.nodup ((h.listed _ _ hobs).mpr hopen)]
      exact h.stopRemoves hfree hobs hclosed

/-! ### The steps of a run -/

/-- The first state of an observer and the changes before it stay, and nothing is sent after the
channel has been closed. -/
def Keeps (obs obs' : StateChangeObserver) : Prop :=
  obs'.first = obs.first ∧ obs'.since = obs.since ∧
    (obs.cClosed = true → obs'.cClosed = true ∧ obs'.sent = obs.sent)

theorem Keeps.refl (obs : StateChangeObserver) : Keeps obs obs :=
  ⟨rfl, rfl, fun hclosed => ⟨hclosed, rfl⟩⟩

theorem keeps_set {id : Nat} {obs obs' : StateChangeObserver} (hobs : s.observers[id]? = some obs)
    (hkeeps : Keeps obs obs') (other : Nat) (before : StateChangeObserver)
    (hbefore : s.observers[other]? = some before) :
    ∃ after, (s.observers.set id obs')[other]? = some after ∧ Keeps before after := by
  rcases eq_or_ne other id with rfl | hne
  · obtain rfl := Option.some.inj (hobs.symm.trans hbefore)
    exact ⟨obs', List.getElem?_set_self (List.getElem?_eq_some_iff.mp hobs).1, hkeeps⟩
  · exact ⟨before, (List.getElem?_set_ne hne.symm).trans hbefore, Keeps.refl before⟩

theorem keeps_step {action : Action} (hstep : s.step action = some s') :
    ∀ (id : Nat) obs, s.observers[id]? = some obs →
      ∃ obs', s'.observers[id]? = some obs' ∧ Keeps obs obs' := by
  cases step_cases hstep with
  | sends hloop hobs hopen hroom =>
      refine keeps_set hobs ⟨rfl, rfl, fun hclosed => ?_⟩
      exact Bool.noConfusion (hopen.symm.trans hclosed)
  | observes hfree obs hobs =>
      intro id obs' hobs'
      refine ⟨obs', ?_, Keeps.refl obs'⟩
      rwa [List.getElem?_append_left (List.getElem?_eq_some_iff.mp hobs').1]
  | receives hobs hbuffer => exact keeps_set hobs (Keeps.refl _)
  | stopBegins hobs hclosed => exact keeps_set hobs (Keeps.refl _)
  | stopRemoves hfree hobs hclosed hopen => exact keeps_set hobs ⟨rfl, rfl, fun _ => ⟨rfl, rfl⟩⟩
  | _ => exact fun _ obs hobs => ⟨obs, hobs, Keeps.refl obs⟩

/-- `changes` is the history of the state. -/
theorem changes_step {action : Action} (hstep : s.step action = some s') :
    s'.changes = s.changes ++ if s'.signal.state = s.signal.state then []
      else [s'.signal.state] := by
  cases step_cases hstep with
  | stays hfree hsame => rw [if_pos hsame, List.append_nil]
  | changes hfree hchange => rw [if_neg hchange]
  | _ => rw [if_pos rfl, List.append_nil]

/-- A registration records the state, and how many changes there were. -/
theorem observeStateChange_step (hstep : s.step .observeStateChange = some s') :
    ∃ obs, s'.observers = s.observers ++ [obs] ∧ obs.first = s.signal.state ∧
      obs.since = s.changes.length := by
  cases step_cases hstep with
  | observes hfree obs hobs => exact ⟨obs, rfl, by rw [hobs], by rw [hobs]⟩

/-- Nothing is sent to an observer whose channel is closed. -/
theorem notifySend_step (h : Inv s) (hstep : s.step .notifySend = some s') :
    ∃ state id rest obs, s.notifying = some (state, some id :: rest) ∧ s.observers[id]? = some obs ∧
      obs.cClosed = false := by
  cases step_cases hstep with
  | sends hloop hobs hopen hroom => exact ⟨_, _, _, _, hloop, hobs, hopen⟩
  | sendPanics hloop err =>
      obtain ⟨id, obs, rfl, hobs, hopen⟩ := h.head_open hloop List.mem_cons_self
      exact ⟨_, id, _, obs, hloop, hobs, hopen⟩

def SpareOthers (id : Nat) (s s' : ObservedSignal) : Prop :=
  s'.notifying = s.notifying ∧ s'.changes = s.changes ∧
    ∀ other, other ≠ id → s'.observers[other]? = s.observers[other]?

theorem stopBegin_step {id : Nat} (hstep : s.step (.stopBegin id) = some s') :
    s'.stateChangeObservers = s.stateChangeObservers ∧ SpareOthers id s s' := by
  cases step_cases hstep with
  | stopBegins hobs hclosed =>
      exact ⟨rfl, rfl, rfl, fun other hne => List.getElem?_set_ne hne.symm⟩

theorem stopRemove_step {id : Nat} (h : Inv s) (hstep : s.step (.stopRemove id) = some s') :
    some id ∈ s.stateChangeObservers ∧
      s'.stateChangeObservers = s.stateChangeObservers.erase (some id) ∧ SpareOthers id s s' := by
  cases step_cases hstep with
  | stopRemoves hfree hobs hclosed hopen =>
      have hmem := (h.listed _ _ hobs).mpr hopen
      refine ⟨hmem, ObserverSlice.take_remove h.nodup hmem, rfl, rfl, ?_⟩
      exact fun other hne => List.getElem?_set_ne hne.symm

/-- What a step does to the observers. -/
structure StepSound (s : ObservedSignal) (action : Action) (s' : ObservedSignal) : Prop where
  changes : s'.changes = s.changes ++ if s'.signal.state = s.signal.state then []
    else [s'.signal.state]
  registers : action = .observeStateChange → ∃ obs, s'.observers = s.observers ++ [obs] ∧
    obs.first = s.signal.state ∧ obs.since = s.changes.length
  keeps : ∀ (id : Nat) obs, s.observers[id]? = some obs →
    ∃ obs', s'.observers[id]? = some obs' ∧ Keeps obs obs'
  sends : action = .notifySend → ∃ state id rest obs, s.notifying = some (state, some id :: rest) ∧
    s.observers[id]? = some obs ∧ obs.cClosed = false
  stopBegins : ∀ id, action = .stopBegin id →
    s'.stateChangeObservers = s.stateChangeObservers ∧ SpareOthers id s s'
  stopRemoves : ∀ id, action = .stopRemove id → some id ∈ s.stateChangeObservers ∧
    s'.stateChangeObservers = s.stateChangeObservers.erase (some id) ∧ SpareOthers id s s'

/-- What each action promises, collected from the lemmas above. -/
theorem stepSound {action : Action} (h : Inv s) (hstep : s.step action = some s') :
    StepSound s action s' where
  changes := changes_step hstep
  registers := by
    rintro rfl
    exact observeStateChange_step hstep
  keeps := keeps_step hstep
  sends := by
    rintro rfl
    exact notifySend_step h hstep
  stopBegins := by
    rintro id rfl
    exact stopBegin_step hstep
  stopRemoves := by
    rintro id rfl
    exact stopRemove_step h hstep

/-- **Observers see every change.** Until an observer is stopped it has been sent the state at its
registration and then every change, in order, up to the one change whose `SetState` is on its way to
it; what it was sent it receives in that order. No step sends to a closed channel, and stopping an
observer removes it and leaves the others as they are. -/
theorem observers_see_every_change (states : List Int) (actions : List Action) :
    (∀ id obs, (run step (new states) actions).observers[id]? = some obs →
      obs.received ++ obs.buffer = obs.sent ∧
      (obs.closed = false → obs.sent ++ pending (run step (new states) actions).notifying id
        = obs.first :: (run step (new states) actions).changes.drop obs.since)) ∧
    ∀ t ∈ transitions step (new states) actions, StepSound t.1 t.2.1 t.2.2 := by
  constructor
  · intro id obs hobs
    have hinv : Inv (run step (new states) actions) :=
      run_invariant (fun _ _ _ h hstep => inv_step h hstep) (inv_new states) actions
    have hsees := hinv.sees id obs hobs
    exact ⟨hsees.fifo, hsees.sent⟩
  · intro t ht
    obtain ⟨hinv, hstep⟩ := transitions_invariant
      (fun _ _ _ h hstep => inv_step h hstep) (inv_new states) t ht
    exact stepSound hinv hstep

end ObservedSignal

end Goka

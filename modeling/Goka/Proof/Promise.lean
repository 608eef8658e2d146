import Goka.Promise
import Mathlib.Data.List.Induction
import Mathlib.Data.List.Nodup

/-!
# A promise settles once

The callbacks that wait when `finish` is first called are all run by it, the later ones run at once
with what the promise holds then. So each runs exactly once; but `finish` stores its arguments also
when the promise is settled, and a late callback gets those of the last call.
-/

namespace Goka

namespace Promise

variable {M : Type}

def Call.callback (made : Nat) : Call M → Option Callback
  | .andThen => some { id := made, withMessage := false }
  | .thenWithMessage => some { id := made, withMessage := true }
  | .finish _ _ => none

def Call.settlement : Call M → Option (Settlement M)
  | .finish msg err => some (msg, err)
  | _ => none

def registered (calls : List (Call M)) : List Callback :=
  calls.foldl (fun cbs call => cbs ++ (call.callback cbs.length).toList) []

def firstFinish (calls : List (Call M)) : Option (Settlement M) := calls.findSome? Call.settlement

def lastFinish (calls : List (Call M)) : Option (Settlement M) :=
  calls.reverse.findSome? Call.settlement

/-- A callback registered by `call` sees no difference between the first and the last `finish`
before it. -/
def Agrees (before : List (Call M)) (call : Call M) : Prop :=
  ∀ callback, call.callback (registered before).length = some callback →
    ∀ first, firstFinish before = some first → ∀ last, lastFinish before = some last →
      callback.receives last = callback.receives first

def LateAgree (calls : List (Call M)) : Prop :=
  ∀ before call after, calls = before ++ call :: after → Agrees before call

/-- Each registered callback has been invoked once, with the arguments of the first `finish`. -/
def SettlesOnce (calls : List (Call M)) : Prop :=
  ∀ first, firstFinish calls = some first → ∀ callback ∈ registered calls,
    ((new.run calls).invoked.filter fun entry => entry.1 = callback)
      = [(callback, callback.receives first)]

/-! ### The history of a run -/

theorem registered_append (calls : List (Call M)) (call : Call M) :
    registered (calls ++ [call])
      = registered calls ++ (call.callback (registered calls).length).toList := by
  simp [registered]

theorem callback_id {made : Nat} {call : Call M} {callback : Callback}
    (h : call.callback made = some callback) : callback.id = made := by
  cases call <;> simp [Call.callback] at h <;> subst h <;> rfl

theorem registered_id (calls : List (Call M)) :
    (registered calls).map Callback.id = List.range (registered calls).length := by
  induction calls using List.reverseRecOn with
  | nil => rfl
  | append_singleton calls call ih =>
      rw [registered_append]
      cases hcallback : call.callback (registered calls).length with
      | none => simpa using ih
      | some callback => simp [ih, List.range_succ, callback_id hcallback]

theorem registered_nodup (calls : List (Call M)) : (registered calls).Nodup := by
  apply List.Nodup.of_map Callback.id
  rw [registered_id]
  exact List.nodup_range

theorem firstFinish_append (calls : List (Call M)) (call : Call M) :
    firstFinish (calls ++ [call]) = (firstFinish calls).or call.settlement := by
  simp [firstFinish, List.findSome?_append]

theorem lastFinish_append (calls : List (Call M)) (call : Call M) :
    lastFinish (calls ++ [call]) = call.settlement.or (lastFinish calls) := by
  cases h : call.settlement <;> simp [lastFinish, h]

theorem lateAgree_append (calls : List (Call M)) (call : Call M) :
    LateAgree (calls ++ [call]) ↔ LateAgree calls ∧ Agrees calls call := by
  constructor
  · intro h
    refine ⟨?_, h calls call [] rfl⟩
    intro before call' after heq
    apply h before call' (after ++ [call])
    rw [heq, List.append_assoc, List.cons_append]
  · rintro ⟨hcalls, hcall⟩ before call' after heq
    -- the split lies before the last call, or at it
    rcases List.eq_nil_or_concat after with rfl | ⟨after, last, rfl⟩
    · obtain ⟨rfl, hlast⟩ := List.append_inj' heq rfl
      rwa [← List.head_eq_of_cons_eq hlast]
    · rw [List.concat_eq_append, ← List.cons_append, ← List.append_assoc] at heq
      exact hcalls before call' after (List.append_inj' heq rfl).1

theorem lateAgree_of_not_finished {calls : List (Call M)} (h : firstFinish calls = none) :
    LateAgree calls := by
  rintro before call after rfl callback - first hfirst
  rw [firstFinish, List.findSome?_append, ← firstFinish, hfirst, Option.some_or] at h
  exact absurd h (Option.some_ne_none first)

/-! ### One call -/

theorem foldl_invoke (callbacks : List Callback) (p : Promise M) :
    callbacks.foldl invoke p
      = { p with
        invoked := p.invoked ++ callbacks.map fun cb => (cb, cb.receives (p.msg, p.err)) } := by
  induction callbacks generalizing p with
  | nil => simp
  | cons callback callbacks ih => simp [ih, invoke]

theorem finish_of_open {p : Promise M} (h : p.finished = false) (msg : Option M)
    (err : Option String) :
    p.finish msg err = { p with
      err := err, msg := msg, finished := true
      invoked := p.invoked ++ p.callbacks.map fun cb => (cb, cb.receives (msg, err)) } := by
  rw [finish, executeCallbacks, if_neg (by simp [h]), foldl_invoke]

theorem finish_of_finished {p : Promise M} (h : p.finished = true) (msg : Option M)
    (err : Option String) :
    p.finish msg err = { p with err := err, msg := msg } := by
  rw [finish, executeCallbacks, if_pos h]

theorem thenWithMessage_of_open {p : Promise M} (h : p.finished = false) (withMessage : Bool) :
    p.thenWithMessage withMessage = { p with
      made := p.made + 1
      callbacks := p.callbacks ++ [⟨p.made, withMessage⟩] } :=
  if_neg (Bool.not_eq_true _ ▸ h)

theorem thenWithMessage_of_finished {p : Promise M} (h : p.finished = true) (withMessage : Bool) :
    p.thenWithMessage withMessage = { p with
      made := p.made + 1
      invoked := p.invoked ++
        [(⟨p.made, withMessage⟩, Callback.receives ⟨p.made, withMessage⟩ (p.msg, p.err))] } :=
  if_pos h

structure Account (calls : List (Call M)) (p : Promise M) : Prop where
  made : p.made = (registered calls).length
  finished : p.finished = (firstFinish calls).isSome
  settled : ∀ last, lastFinish calls = some last → (p.msg, p.err) = last
  waiting : firstFinish calls = none → p.callbacks = registered calls ∧ p.invoked = []
  served : ∀ first, firstFinish calls = some first → p.invoked.map Prod.fst = registered calls
  agree : ∀ first, firstFinish calls = some first →
    ((∀ entry ∈ p.invoked, entry.2 = entry.1.receives first) ↔ LateAgree calls)

variable {calls : List (Call M)} {p : Promise M}

theorem lastFinish_isSome (calls : List (Call M)) :
    (lastFinish calls).isSome = (firstFinish calls).isSome := by
  induction calls using List.reverseRecOn with
  | nil => rfl
  | append_singleton calls call ih =>
      simp [lastFinish_append, firstFinish_append, ih, Bool.or_comm]

section Registration

variable {call : Call M} {withMessage : Bool}
  (hcallback : ∀ made, call.callback made = some ⟨made, withMessage⟩)

include hcallback

theorem Account.registered_concat (h : Account calls p) :
    registered (calls ++ [call]) = registered calls ++ [⟨p.made, withMessage⟩] := by
  rw [registered_append, hcallback, h.made, Option.toList_some]

theorem Account.made_concat (h : Account calls p) :
    p.made + 1 = (registered (calls ++ [call])).length := by
  rw [h.registered_concat hcallback, List.length_append, ← h.made]
  rfl

variable (hsettlement : call.settlement = none)

include hsettlement

/-- A registration before the promise is settled. -/
theorem Account.waits (h : Account calls p) (hf : firstFinish calls = none) :
    Account (calls ++ [call]) (p.thenWithMessage withMessage) := by
  have hfirst : firstFinish (calls ++ [call]) = none := by
    rw [firstFinish_append, hsettlement, Option.or_none, hf]
  have hopen : p.finished = false := by rw [h.finished, hf, Option.isSome_none]
  obtain ⟨hcallbacks, hinvoked⟩ := h.waiting hf
  rw [thenWithMessage_of_open hopen]
  exact
    { made := h.made_concat hcallback
      finished := by rw [hfirst, Option.isSome_none, hopen]
      settled := by
        rw [lastFinish_append, hsettlement, Option.none_or]
        exact h.settled
      waiting := by
        rw [h.registered_concat hcallback, hcallbacks]
        exact fun _ => ⟨rfl, hinvoked⟩
      served := by
        rw [hfirst]
        exact fun first hsome => absurd hsome.symm (Option.some_ne_none first)
      agree := by
        rw [hfirst]
        exact fun first hsome => absurd hsome.symm (Option.some_ne_none first) }

/-- A registration after the promise is settled: the callback gets what the promise holds then. -/
theorem Account.runs (h : Account calls p) {first : Settlement M}
    (hf : firstFinish calls = some first) :
    Account (calls ++ [call]) (p.thenWithMessage withMessage) := by
  have hfirst : firstFinish (calls ++ [call]) = some first := by
    rw [firstFinish_append, hsettlement, Option.or_none, hf]
  have hdone : p.finished = true := by rw [h.finished, hf, Option.isSome_some]
  obtain ⟨last, hl⟩ : ∃ last, lastFinish calls = some last := by
    apply Option.isSome_iff_exists.mp
    rw [lastFinish_isSome, hf, Option.isSome_some]
  have hagrees : Agrees calls call ↔ Callback.receives ⟨p.made, withMessage⟩ last
      = Callback.receives ⟨p.made, withMessage⟩ first := by
    simp [Agrees, hcallback, hf, hl, h.made]
  rw [thenWithMessage_of_finished hdone]
  exact
    { made := h.made_concat hcallback
      finished := by rw [hfirst, Option.isSome_some, hdone]
      settled := by
        rw [lastFinish_append, hsettlement, Option.none_or]
        exact h.settled
      waiting := by
        rw [hfirst]
        exact fun hnone => absurd hnone (Option.some_ne_none first)
      served := by
        intro first' hfirst'
        obtain rfl := Option.some.inj (hfirst.symm.trans hfirst')
        rw [List.map_append, h.served first hf, h.registered_concat hcallback]
        rfl
      agree := by
        intro first' hfirst'
        obtain rfl := Option.some.inj (hfirst.symm.trans hfirst')
        rw [lateAgree_append, ← h.agree first hf, hagrees, ← h.settled last hl,
          List.forall_mem_append, List.forall_mem_singleton] }

theorem Account.thenWithMessage (h : Account calls p) :
    Account (calls ++ [call]) (p.thenWithMessage withMessage) := by
  cases hf : firstFinish calls with
  | none => exact h.waits hcallback hsettlement hf
  | some first => exact h.runs hcallback hsettlement hf

end Registration

section Finish

variable {msg : Option M} {err : Option String}

theorem registered_concat_finish (calls : List (Call M)) :
    registered (calls ++ [.finish msg err]) = registered calls := by
  rw [registered_append]
  exact List.append_nil _

theorem lastFinish_concat_finish (calls : List (Call M)) :
    lastFinish (calls ++ [.finish msg err]) = some (msg, err) := by
  rw [lastFinish_append]
  rfl

theorem lateAgree_concat_finish (calls : List (Call M)) :
    LateAgree (calls ++ [.finish msg err]) ↔ LateAgree calls := by
  rw [lateAgree_append]
  exact and_iff_left fun _ hcallback => absurd hcallback.symm (Option.some_ne_none _)

/-- The first `finish` runs the callbacks that wait. -/
theorem Account.finishes (h : Account calls p) (hf : firstFinish calls = none) :
    Account (calls ++ [.finish msg err]) (p.finish msg err) := by
  have hfirst : firstFinish (calls ++ [.finish msg err]) = some (msg, err) := by
    rw [firstFinish_append, hf]
    rfl
  have hopen : p.finished = false := by rw [h.finished, hf, Option.isSome_none]
  obtain ⟨hcallbacks, hinvoked⟩ := h.waiting hf
  rw [finish_of_open hopen, hcallbacks, hinvoked, List.nil_append]
  exact
    { made := by
        rw [registered_concat_finish]
        exact h.made
      finished := by rw [hfirst, Option.isSome_some]
      settled := by
        rw [lastFinish_concat_finish]
        exact fun last hlast => Option.some.inj hlast
      waiting := by
        rw [hfirst]
        exact fun hnone => absurd hnone (Option.some_ne_none _)
      served := by
        rw [registered_concat_finish]
        exact fun _ _ => (List.map_map ..).trans (List.map_id _)
      agree := by
        intro first hfirst'
        obtain rfl := Option.some.inj (hfirst.symm.trans hfirst')
        refine iff_of_true (List.forall_mem_map.mpr fun _ _ => rfl) ?_
        exact (lateAgree_concat_finish calls).mpr (lateAgree_of_not_finished hf) }

/-- A later `finish` only changes what the promise holds. -/
theorem Account.finishesAgain (h : Account calls p) {first : Settlement M}
    (hf : firstFinish calls = some first) :
    Account (calls ++ [.finish msg err]) (p.finish msg err) := by
  have hfirst : firstFinish (calls ++ [.finish msg err]) = some first := by
    rw [firstFinish_append, hf, Option.some_or]
  have hdone : p.finished = true := by rw [h.finished, hf, Option.isSome_some]
  rw [finish_of_finished hdone]
  exact
    { made := by
        rw [registered_concat_finish]
        exact h.made
      finished := by rw [hfirst, Option.isSome_some, hdone]
      settled := by
        rw [lastFinish_concat_finish]
        exact fun last hlast => Option.some.inj hlast
      waiting := by
        rw [hfirst]
        exact fun hnone => absurd hnone (Option.some_ne_none first)
      served := by
        rw [hfirst, registered_concat_finish, ← hf]
        exact h.served
      agree := by
        rw [hfirst, lateAgree_concat_finish, ← hf]
        exact h.agree }

theorem Account.finish (h : Account calls p) :
    Account (calls ++ [.finish msg err]) (p.finish msg err) := by
  cases hf : firstFinish calls with
  | none => exact h.finishes hf
  | some first => exact h.finishesAgain hf

end Finish

theorem Account.call (h : Account calls p) (call : Call M) :
    Account (calls ++ [call]) (p.call call) := by
  cases call with
  | andThen => exact h.thenWithMessage (fun _ => rfl) rfl
  | thenWithMessage => exact h.thenWithMessage (fun _ => rfl) rfl
  | finish msg err => exact h.finish

/-- By induction on the calls, from the last one. -/
theorem account_run (calls : List (Call M)) : Account calls (new.run calls) := by
  induction calls using List.reverseRecOn with
  | nil =>
      constructor <;> simp [run, new, registered, firstFinish, lastFinish]
  | append_singleton calls call ih =>
      have h := ih.call call
      rwa [run, List.foldl_append]

/-! ### Settling -/

/-- Where the names are distinct, every name stands once with its value iff every entry has its
value. -/
theorem filter_eq_singleton_iff {α β : Type} [DecidableEq α] {entries : List (α × β)}
    (hnodup : (entries.map Prod.fst).Nodup) (value : α → β) :
    (∀ a ∈ entries.map Prod.fst, (entries.filter fun entry => entry.1 = a) = [(a, value a)])
      ↔ ∀ entry ∈ entries, entry.2 = value entry.1 := by
  constructor
  · intro h entry hentry
    have hmem : entry ∈ entries.filter fun e => e.1 = entry.1 :=
      List.mem_filter.mpr ⟨hentry, decide_eq_true rfl⟩
    rw [h _ (List.mem_map_of_mem hentry), List.mem_singleton] at hmem
    exact congrArg Prod.snd hmem
  · intro h a ha
    induction entries with
    | nil => simp at ha
    | cons entry entries ih =>
        rw [List.map_cons, List.nodup_cons] at hnodup
        have hhead := h entry List.mem_cons_self
        have htail := ih hnodup.2 fun e he => h e (List.mem_cons_of_mem _ he)
        rcases eq_or_ne entry.1 a with rfl | hne
        · have hnone : (entries.filter fun e => e.1 = entry.1) = [] := by
            apply List.filter_eq_nil_iff.mpr
            intro e he heq
            exact hnodup.1 (of_decide_eq_true heq ▸ List.mem_map_of_mem he)
          simp [hnone, ← hhead]
        · rw [List.map_cons, List.mem_cons] at ha
          rw [List.filter_cons_of_neg (by simpa using hne)]
          exact htail (ha.resolve_left hne.symm)

/-- Every callback gets the arguments of the first `finish` exactly where those registered late see
no difference between it and the last one before them. -/
theorem settlesOnce_iff (calls : List (Call M)) : SettlesOnce calls ↔ LateAgree calls := by
  have haccount := account_run calls
  cases hf : firstFinish calls with
  | none => simp [SettlesOnce, hf, lateAgree_of_not_finished hf]
  | some first =>
      have hserved := haccount.served first hf
      have hnodup : ((new.run calls).invoked.map Prod.fst).Nodup := by
        rw [hserved]
        exact registered_nodup calls
      have honce := filter_eq_singleton_iff hnodup fun callback => callback.receives first
      rw [← haccount.agree first hf, ← honce, hserved]
      simp [SettlesOnce, hf]

/-- The second `finish` is not run again, but a callback registered after it gets its error. -/
theorem late_callback_gets_second_finish :
    ¬ SettlesOnce (M := Nat) [.finish (some 1) none, .finish (some 2) (some "closed"),
      .thenWithMessage] := by
  intro h
  have hlate := h (some 1, none) rfl ⟨0, true⟩ (by decide)
  exact absurd hlate (by decide)

end Promise

end Goka

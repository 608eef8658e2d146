import Goka.Library.Schedule
import Goka.PartitionProcessor
import Goka.Proof.Context

/-!
# Which messages a partition processor commits

The session keeps one offset for all messages of a partition, so marking a message covers every
message before it. Messages complete in any order, and the processor marks each as it completes.
-/

namespace Goka

open Schedule

namespace CbContext

variable {ctx ctx' : CbContext}

def Committed (ctx : CbContext) : Prop := Verdict.commit ∈ ctx.calls

instance (ctx : CbContext) : Decidable ctx.Committed :=
  inferInstanceAs (Decidable (Verdict.commit ∈ ctx.calls))

def Moves (ctx ctx' : CbContext) : Prop := ctx'.msg = ctx.msg ∧ ctx.calls <+: ctx'.calls

theorem moves_tryCommit (ctx : CbContext) (err : Option String) :
    Moves ctx (ctx.tryCommit err) := by
  refine ⟨(tryCommit_frame ctx err).1, ?_⟩
  rw [calls_tryCommit]
  exact List.prefix_append ..

/-- `tryCommit` calls `commit` where nothing is outstanding and nothing has failed. -/
theorem commit_mem_tryCommit (ctx : CbContext) (err : Option String) :
    Verdict.commit ∈ (ctx.tryCommit err).calls.drop ctx.calls.length ↔
      ctx.done = true ∧ ctx.emits ≤ ctx.dones ∧ ctx.errors = [] ∧ err = none := by
  rw [calls_tryCommit, List.drop_left]
  split
  · rename_i hearly
    refine iff_of_false (by simp) ?_
    rintro ⟨hdone, hle, -⟩
    rcases hearly with hearly | hearly
    · rw [hdone] at hearly
      cases hearly
    · omega
  · rename_i hlate
    have hdone : ctx.done = true := by simpa using fun h => hlate (.inl h)
    have hle : ctx.emits ≤ ctx.dones := Nat.le_of_not_lt fun h => hlate (.inr h)
    have herrors : ctx.errors ++ err.toList = [] ↔ ctx.errors = [] ∧ err = none := by
      cases err <;> simp
    split
    · rename_i hfailed
      exact iff_of_false (by simp) fun h => hfailed (herrors.mpr h.2.2)
    · rename_i hfine
      exact iff_of_true (by simp) ⟨hdone, hle, herrors.mp (not_not.mp hfine)⟩

theorem commit_mem_emitDone (ctx : CbContext) (items : List Item) (err : Option String) :
    Verdict.commit ∈ (emitDone { ctx with items := items } err).calls.drop ctx.calls.length ↔
      ctx.done = true ∧ ctx.emits ≤ ctx.dones + 1 ∧ ctx.errors = [] ∧ err = none :=
  commit_mem_tryCommit { ctx with items := items, dones := ctx.dones + 1 } err

end CbContext

namespace PartitionProcessor

variable {α Callback σ : Type} {cfg : Config α Callback} {pp pp' : PartitionProcessor σ}

/-- A commit marks the message once, whatever else the context has asked for. -/
theorem foldl_call (pp : PartitionProcessor σ) (msg : Message) (calls : List Verdict) :
    (calls.foldl (fun pp verdict => pp.call msg verdict) pp).marked
        = (if Verdict.commit ∈ calls then max pp.marked (msg.offset + 1) else pp.marked) ∧
      (calls.foldl (fun pp verdict => pp.call msg verdict) pp).taken = pp.taken ∧
      (calls.foldl (fun pp verdict => pp.call msg verdict) pp).input = pp.input ∧
      (calls.foldl (fun pp verdict => pp.call msg verdict) pp).pc = pp.pc ∧
      (calls.foldl (fun pp verdict => pp.call msg verdict) pp).emitted = pp.emitted := by
  induction calls generalizing pp with
  | nil => simp
  | cons verdict calls ih =>
      obtain ⟨hmarked, htaken, hinput, hpc, hemitted⟩ := ih (pp.call msg verdict)
      rw [List.foldl_cons]
      refine ⟨?_, ?_, ?_, ?_, ?_⟩
      · rw [hmarked]
        cases verdict with
        | commit => by_cases h : Verdict.commit ∈ calls <;> simp [call, h]
        | asyncFail errors => simp [call]
      · rw [htaken]; cases verdict <;> rfl
      · rw [hinput]; cases verdict <;> rfl
      · rw [hpc]; cases verdict <;> rfl
      · rw [hemitted]; cases verdict <;> rfl

/-- The message that a step completes without an error: a message that is ignored, one whose
callback returns with nothing outstanding, or one of which the last outstanding promise is resolved
after its callback has returned. -/
def completes [TableStore σ] (cfg : Config α Callback) (pp : PartitionProcessor σ) :
    Action α → Option Nat
  | .take =>
      match pp.input with
      | [] => none
      | msg :: _ =>
          match prepareMessage cfg msg with
          | .ignored => some pp.taken.length
          | _ => none
  | .returns =>
      match pp.current with
      | none => none
      | some ctx =>
          if ctx.emits ≤ ctx.dones ∧ ctx.errors = [] then some (pp.taken.length - 1) else none
  | .resolve message index offset err =>
      match pp.taken[message]? with
      | none => none
      | some ctx =>
          match ctx.items[index]? with
          | some ⟨handout, none⟩ =>
              if ctx.done = true ∧ ctx.emits ≤ ctx.dones + 1 ∧ ctx.errors = [] ∧
                (CbContext.passOn pp.table handout offset err).1 = none
              then some message else none
          | _ => none
  | _ => none

inductive Change (pp pp' : PartitionProcessor σ) (completed : Option Nat) : Prop where
  | none (htaken : pp'.taken = pp.taken) (hinput : pp'.input = pp.input)
      (hmarked : pp'.marked = pp.marked) (hcompleted : completed = Option.none)
  | take (msg : Message) (ctx : CbContext) (hinput : pp.input = msg :: pp'.input)
      (htaken : pp'.taken = pp.taken ++ [ctx]) (hmsg : ctx.msg = msg)
      (hmarked : pp'.marked
        = if ctx.Committed then max pp.marked (msg.offset + 1) else pp.marked)
      (hcompleted : completed = if ctx.Committed then some pp.taken.length else Option.none)
  | move (index : Nat) (ctx ctx' : CbContext) (hctx : pp.taken[index]? = some ctx)
      (htaken : pp'.taken = pp.taken.set index ctx') (hmoves : ctx.Moves ctx')
      (hinput : pp'.input = pp.input)
      (hmarked : pp'.marked = if Verdict.commit ∈ ctx'.calls.drop ctx.calls.length
        then max pp.marked (ctx.msg.offset + 1) else pp.marked)
      (hcompleted : completed = if Verdict.commit ∈ ctx'.calls.drop ctx.calls.length
        then some index else Option.none)

theorem current_eq_some {ctx : CbContext} (h : pp.current = some ctx) :
    pp.taken[pp.taken.length - 1]? = some ctx := by
  rw [← h, current, List.getLast?_eq_getElem?]

theorem change_update {q : PartitionProcessor σ} {index : Nat} {ctx ctx' : CbContext}
    {completed : Option Nat} (hctx : pp.taken[index]? = some ctx) (hmoves : ctx.Moves ctx')
    (hsame : q.taken = pp.taken ∧ q.input = pp.input ∧ q.marked = pp.marked)
    (hcompleted : completed = if Verdict.commit ∈ ctx'.calls.drop ctx.calls.length
      then some index else none) :
    Change pp (q.update index ctx ctx') completed := by
  obtain ⟨hmarked, htaken, hinput, -, -⟩ := foldl_call { q with taken := q.taken.set index ctx' }
    ctx.msg (ctx'.calls.drop ctx.calls.length)
  refine .move index ctx ctx' hctx ?_ hmoves ?_ ?_ hcompleted
  · rw [← hsame.1]
    exact htaken
  · rw [← hsame.2.1]
    exact hinput
  · rw [← hsame.2.2]
    exact hmarked

section Steps

variable [TableStore σ]

/-- One constructor for each branch an action can take. -/
inductive Step (cfg : Config α Callback) (pp : PartitionProcessor σ) :
    Action α → PartitionProcessor σ → Prop where
  | ignored {msg : Message} {input : List Message} (hpc : pp.pc = .selecting)
      (hinput : pp.input = msg :: input) (hprepared : prepareMessage cfg msg = .ignored) :
      Step cfg pp .take ({ pp with
        input := input
        taken := pp.taken ++ [{ CbContext.new msg with calls := [.commit] }] }.call msg .commit)
  | fails {msg : Message} {input : List Message} {err : String} (hinput : pp.input = msg :: input)
      (hprepared : prepareMessage cfg msg = .failed err) (text : String) :
      Step cfg pp .take { pp with
        input := input, taken := pp.taken ++ [.new msg], pc := .exited, rerr := some text }
  | calls {msg : Message} {input : List Message} {cb : Callback} {m : Option α}
      (hinput : pp.input = msg :: input) (hprepared : prepareMessage cfg msg = .call cb m) :
      Step cfg pp .take
        { pp with input := input, taken := pp.taken ++ [.new msg], pc := .callback }
  | closed : Step cfg pp .inputClosed { pp with rerr := none, pc := .exited }
  | contextDone : Step cfg pp .contextDone { pp with pc := .exited }
  | asyncErrs : Step cfg pp .asyncErrs { pp with pc := .exited }
  | op {o : ContextOp α} {recovers : Bool} {ctx : CbContext} {panicked : Option String}
      {s : OpState σ} (hpc : pp.pc = .callback) (hcurrent : pp.current = some ctx)
      (hperformed : (pp.opState ctx).perform cfg.toEnv o = (panicked, s)) (pc : RunPc)
      (rerr : Option String) (hcallback : pc = .callback → panicked = none ∨ recovers = true) :
      Step cfg pp (.op o recovers) { pp with
        taken := pp.taken.set (pp.taken.length - 1) s.ctx
        pc := pc
        table := s.table
        emitted := s.emitted
        rerr := rerr }
  | panics {ctx : CbContext} (hpc : pp.pc = .callback) (hcurrent : pp.current = some ctx)
      (err : String) :
      Step cfg pp (.panics err) { pp with
        taken := pp.taken.set (pp.taken.length - 1) { ctx with failed := true }
        pc := .exited
        rerr := some err }
  | returns {ctx : CbContext} (hpc : pp.pc = .callback) (hcurrent : pp.current = some ctx) :
      Step cfg pp .returns
        ({ pp with pc := .selecting }.update (pp.taken.length - 1) ctx (ctx.finish none))
  | resolve {message index : Nat} {offset : Option Int} {err : Option String}
      {ctx ctx' : CbContext} {table : Option σ} (hctx : pp.taken[message]? = some ctx)
      (hresolve : ctx.resolve pp.table index offset err = some (ctx', table)) :
      Step cfg pp (.resolve message index offset err)
        ({ pp with table := table }.update message ctx ctx')
  | cancel : Step cfg pp .cancel { pp with cancelled := true }

theorem take_cases (h : pp.take cfg = some pp') : Step cfg pp .take pp' := by
  unfold take at h
  split at h
  case isFalse => cases h
  rename_i hpc
  split at h
  · cases h
  · rename_i msg input hinput
    split at h <;> obtain rfl := Option.some.inj h
    · exact .ignored hpc hinput ‹_›
    · exact .fails hinput ‹_› _
    · exact .calls hinput ‹_›

theorem op_cases {o : ContextOp α} {recovers : Bool} (h : pp.op cfg o recovers = some pp') :
    Step cfg pp (.op o recovers) pp' := by
  unfold op at h
  split at h
  case h_2 => cases h
  rename_i ctx hpc hcurrent
  cases hperformed : (pp.opState ctx).perform cfg.toEnv o with
  | mk panicked s =>
      simp only [hperformed] at h
      split at h
      · obtain rfl := Option.some.inj h
        exact .op hpc hcurrent hperformed pp.pc s.rerr fun _ => .inl rfl
      · split at h <;> obtain rfl := Option.some.inj h
        · rename_i hrecovers
          exact .op hpc hcurrent hperformed pp.pc s.rerr fun _ => .inr hrecovers
        · exact .op hpc hcurrent hperformed .exited _ nofun

/-- All invariants of `run` are proved over these constructors. -/
theorem step_cases {action : Action α} (h : pp.step cfg action = some pp') :
    Step cfg pp action pp' := by
  cases action with
  | take => exact take_cases h
  | inputClosed =>
      simp only [step, exit] at h
      split at h
      case isFalse => cases h
      obtain rfl := Option.some.inj h
      exact .closed
  | contextDone =>
      simp only [step, exit] at h
      split at h
      case isFalse => cases h
      obtain rfl := Option.some.inj h
      exact .contextDone
  | asyncErrs =>
      simp only [step, exit] at h
      split at h
      case isFalse => cases h
      obtain rfl := Option.some.inj h
      exact .asyncErrs
  | op o recovers => exact op_cases h
  | panics err =>
      simp only [step, panics] at h
      split at h
      case h_2 => cases h
      obtain rfl := Option.some.inj h
      exact .panics ‹_› ‹_› err
  | returns =>
      simp only [step, returns] at h
      split at h
      case h_2 => cases h
      obtain rfl := Option.some.inj h
      exact .returns ‹_› ‹_›
  | resolve message index offset err =>
      simp only [step, resolve] at h
      split at h
      · cases h
      · rename_i ctx hctx
        obtain ⟨⟨ctx', table⟩, hresolve, rfl⟩ := Option.map_eq_some_iff.mp h
        exact .resolve hctx hresolve
  | cancel =>
      obtain rfl := Option.some.inj h
      exact .cancel

omit [TableStore σ] in
theorem preserved_calls (ctx : CbContext) :
    Preserved (σ := σ) (fun s => s.ctx.msg = ctx.msg ∧ s.ctx.calls = ctx.calls)
      (fun s => s.ctx.msg = ctx.msg ∧ s.ctx.calls = ctx.calls) :=
  Op.preserved_of_always (fun _ h => h) (fun _ _ h => h) (fun _ _ h => h) (fun _ h => h)
    (fun _ _ h => h) (fun _ _ _ _ _ h => h)

/-- For the order of the messages only these three changes matter. -/
theorem change_step {action : Action α} (h : pp.step cfg action = some pp') :
    Change pp pp' (completes cfg pp action) := by
  cases step_cases h with
  | ignored hpc hinput hprepared =>
      simp only [completes, hinput, hprepared]
      exact .take _ _ hinput rfl rfl (by simp [CbContext.Committed, call])
        (by simp [CbContext.Committed])
  | fails hinput hprepared | calls hinput hprepared =>
      simp only [completes, hinput, hprepared]
      exact .take _ _ hinput rfl rfl (by simp [CbContext.Committed, CbContext.new])
        (by simp [CbContext.Committed, CbContext.new])
  | closed | contextDone | asyncErrs | cancel => exact .none rfl rfl rfl rfl
  | @op o recovers ctx panicked s hpc hcurrent hperformed =>
      have hkept := perform_keeps (preserved_calls ctx) ⟨rfl, rfl⟩ (fun _ _ h => h) hperformed
      have hcalls : s.ctx.calls = ctx.calls := hkept.2
      have hmoves : ctx.Moves s.ctx := ⟨hkept.1, by rw [hcalls]⟩
      have hnone : Verdict.commit ∉ s.ctx.calls.drop ctx.calls.length := by simp [hcalls]
      exact .move _ ctx s.ctx (current_eq_some hcurrent) rfl hmoves rfl (if_neg hnone).symm
        (if_neg hnone).symm
  | @panics ctx hpc hcurrent err =>
      refine .move _ ctx { ctx with failed := true } (current_eq_some hcurrent) rfl
        ⟨rfl, List.prefix_rfl⟩ rfl ?_ ?_
      · simp
      · simp [completes]
  | @returns ctx hpc hcurrent =>
      refine change_update (current_eq_some hcurrent)
        (CbContext.moves_tryCommit { ctx with done := true } none) ⟨rfl, rfl, rfl⟩ ?_
      have hcommit := CbContext.commit_mem_tryCommit { ctx with done := true } none
      simp only [completes, hcurrent, CbContext.finish, hcommit, true_and, and_true]
  | resolve hctx hresolve =>
      rcases CbContext.resolve_cases hresolve with ⟨rfl, -, hcame⟩ | ⟨handout, hitem, rfl, -⟩
      · refine change_update hctx ⟨rfl, List.prefix_rfl⟩ ⟨rfl, rfl, rfl⟩ ?_
        simp only [completes, hctx, List.drop_length, List.not_mem_nil, if_false]
      · refine change_update hctx (CbContext.moves_tryCommit _ _) ⟨rfl, rfl, rfl⟩ ?_
        simp only [completes, hctx, hitem, CbContext.commit_mem_emitDone]

end Steps

/-! ### Offsets -/

structure Ordered (pp : PartitionProcessor σ) : Prop where
  increasing : (pp.taken.map (fun ctx => ctx.msg.offset) ++
    pp.input.map fun msg => msg.offset).Pairwise
    (· < ·)
  ahead : ∀ msg ∈ pp.input, pp.marked ≤ msg.offset

theorem Ordered.lt_input (h : Ordered pp) {ctx : CbContext} (hctx : ctx ∈ pp.taken) {msg : Message}
    (hmsg : msg ∈ pp.input) : ctx.msg.offset < msg.offset :=
  (List.pairwise_append.mp h.increasing).2.2 _ (List.mem_map_of_mem hctx) _
    (List.mem_map_of_mem hmsg)

theorem Ordered.lt_taken (h : Ordered pp) {i j : Nat} {earlier later : CbContext}
    (hi : pp.taken[i]? = some earlier) (hj : pp.taken[j]? = some later) (hij : i < j) :
    earlier.msg.offset < later.msg.offset := by
  obtain ⟨hi', rfl⟩ := List.getElem?_eq_some_iff.mp hi
  obtain ⟨hj', rfl⟩ := List.getElem?_eq_some_iff.mp hj
  have hpairwise := (List.pairwise_append.mp h.increasing).1
  have := List.pairwise_iff_getElem.mp hpairwise i j (by simpa using hi') (by simpa using hj') hij
  simpa using this

theorem map_offset_set {index : Nat} {ctx ctx' : CbContext} (hctx : pp.taken[index]? = some ctx)
    (hmsg : ctx'.msg = ctx.msg) :
    (pp.taken.set index ctx').map (fun ctx => ctx.msg.offset)
      = pp.taken.map fun ctx => ctx.msg.offset := by
  obtain ⟨hlt, rfl⟩ := List.getElem?_eq_some_iff.mp hctx
  rw [List.map_set, hmsg]
  refine List.ext_getElem (by simp) fun i _ _ => ?_
  by_cases hi : i = index
  · subst hi
    simp
  · simp [List.getElem_set_ne (Ne.symm hi)]

theorem Ordered.change {completed : Option Nat} (h : Ordered pp)
    (hchange : Change pp pp' completed) :
    Ordered pp' := by
  cases hchange with
  | none htaken hinput hmarked =>
      exact ⟨by rw [htaken, hinput]; exact h.increasing, by rw [hinput, hmarked]; exact h.ahead⟩
  | take msg ctx hinput htaken hmsg hmarked =>
      refine ⟨?_, fun m hm => ?_⟩
      · have hincreasing := h.increasing
        rw [hinput] at hincreasing
        rw [htaken, List.map_append, List.append_assoc]
        simpa [hmsg] using hincreasing
      · have hlt : msg.offset < m.offset := by
          have hpairwise := (List.pairwise_append.mp h.increasing).2.1
          rw [hinput, List.map_cons, List.pairwise_cons] at hpairwise
          exact hpairwise.1 _ (List.mem_map_of_mem hm)
        have := h.ahead m (by rw [hinput]; exact List.mem_cons_of_mem _ hm)
        rw [hmarked]
        split <;> omega
  | move index ctx ctx' hctx htaken hmoves hinput hmarked =>
      refine ⟨?_, fun m hm => ?_⟩
      · rw [htaken, hinput, map_offset_set hctx hmoves.1]
        exact h.increasing
      · rw [hinput] at hm
        have hlt := h.lt_input (List.mem_of_getElem? hctx) hm
        have := h.ahead m hm
        rw [hmarked]
        split <;> omega

/-- The session resumes at or before every message that was taken and not committed. -/
def AtLeastOnce (pp : PartitionProcessor σ) : Prop :=
  ∀ ctx ∈ pp.taken, ¬ ctx.Committed → pp.marked ≤ ctx.msg.offset

def CommittedBefore (pp : PartitionProcessor σ) (index : Nat) : Prop :=
  ∀ ctx ∈ pp.taken.take index, ctx.Committed

theorem CommittedBefore.committed {i index : Nat} {ctx : CbContext} (h : CommittedBefore pp index)
    (hctx : pp.taken[i]? = some ctx) (hi : i < index) : ctx.Committed :=
  h ctx (List.mem_of_getElem? (by rw [List.getElem?_take_of_lt hi]; exact hctx))

/-- A message that is completed marks its offset, and so covers all before it. -/
theorem committedBefore_of_atLeastOnce {index : Nat} (hchange : Change pp pp' (some index))
    (h : Ordered pp) (hP' : AtLeastOnce pp') : CommittedBefore pp index := by
  intro earlier hearlier
  by_contra hopen
  -- the earlier message is still there, uncommitted and before the session's offset
  obtain ⟨i, hi⟩ := List.mem_iff_getElem?.mp hearlier
  have hlt : i < index := by
    have := (List.getElem?_eq_some_iff.mp hi).1
    rw [List.length_take] at this
    omega
  rw [List.getElem?_take_of_lt hlt] at hi
  have hmem : earlier ∈ pp.taken := List.mem_of_getElem? hi
  cases hchange with
  | none htaken hinput hmarked hcompleted => cases hcompleted
  | take msg ctx hinput htaken hmsg hmarked hcompleted =>
      split at hcompleted
      case isFalse => cases hcompleted
      rename_i hcommitted
      have hle := hP' earlier (by rw [htaken]; exact List.mem_append_left _ hmem) hopen
      have hless := h.lt_input hmem (by rw [hinput]; exact List.mem_cons_self ..)
      rw [hmarked, if_pos hcommitted] at hle
      omega
  | move index' ctx ctx' hctx htaken hmoves hinput hmarked hcompleted =>
      split at hcompleted
      case isFalse => cases hcompleted
      rename_i hcommit
      obtain rfl := Option.some.inj hcompleted
      have hkept : pp'.taken[i]? = some earlier := by
        rw [htaken, List.getElem?_set_ne (Nat.ne_of_gt hlt)]
        exact hi
      have hle := hP' earlier (List.mem_of_getElem? hkept) hopen
      have hless := h.lt_taken hi hctx hlt
      rw [hmarked, if_pos hcommit] at hle
      omega

/-- In order, the mark never passes a message that is not committed. -/
theorem atLeastOnce_of_committedBefore {completed : Option Nat} (hchange : Change pp pp' completed)
    (h : Ordered pp) (hP : AtLeastOnce pp)
    (horder : ∀ index, completed = some index → CommittedBefore pp index) : AtLeastOnce pp' := by
  intro c hc hopen
  cases hchange with
  | none htaken hinput hmarked =>
      rw [htaken] at hc
      rw [hmarked]
      exact hP c hc hopen
  | take msg ctx hinput htaken hmsg hmarked hcompleted =>
      rw [htaken] at hc
      rcases List.mem_append.mp hc with hc | hc
      · have hnew : ¬ ctx.Committed := fun hctx => by
          have hbefore := horder _ (hcompleted.trans (if_pos hctx))
          exact hopen (hbefore c (by rw [List.take_length]; exact hc))
        rw [hmarked, if_neg hnew]
        exact hP c hc hopen
      · rw [List.mem_singleton.mp hc] at hopen ⊢
        rw [hmarked, if_neg hopen, hmsg]
        exact h.ahead msg (by rw [hinput]; exact List.mem_cons_self ..)
  | move index ctx ctx' hctx htaken hmoves hinput hmarked hcompleted =>
      rw [hmarked]
      rw [htaken] at hc
      split
      case isFalse =>
        rcases Threads.mem_set_cases hc with rfl | ⟨i, -, hi⟩
        · rw [hmoves.1]
          refine hP ctx (List.mem_of_getElem? hctx) fun hcommitted => hopen ?_
          exact hmoves.2.subset hcommitted
        · exact hP c (List.mem_of_getElem? hi) hopen
      case isTrue hcommit =>
        rcases Threads.mem_set_cases hc with rfl | ⟨i, hne, hi⟩
        · exact absurd (List.mem_of_mem_drop hcommit) hopen
        · have hbefore := horder _ (hcompleted.trans (if_pos hcommit))
          refine max_le (hP c (List.mem_of_getElem? hi) hopen) ?_
          rcases Nat.lt_or_gt_of_ne hne with hlt | hgt
          · exact absurd (hbefore.committed hi hlt) hopen
          · exact h.lt_taken hctx hi hgt

section Runs

variable [TableStore σ]

/-- The step completes a message only after all messages taken before it were committed. -/
def InOrder (cfg : Config α Callback) (pp : PartitionProcessor σ) (action : Action α) : Prop :=
  ∀ index, completes cfg pp action = some index → CommittedBefore pp index

/-- Exactly the runs in which no message is completed before one that was taken earlier is committed
keep the session, at every moment, at or before every message that was taken and not committed. -/
theorem atLeastOnce_iff (cfg : Config α Callback) (input : List Message) (table : Option σ)
    (marked : Int) (hinput : input.Pairwise fun m m' => m.offset < m'.offset)
    (hmarked : ∀ msg ∈ input, marked ≤ msg.offset) (actions : List (Action α)) :
    (∀ n, AtLeastOnce (run (fun pp => pp.step cfg) (start input table marked) (actions.take n))) ↔
      ∀ t ∈ transitions (fun pp => pp.step cfg) (start input table marked) actions,
        InOrder cfg t.1 t.2.1 := by
  refine forall_take_iff Ordered (InOrder cfg) ?_ ?_ ?_ ?_
  · exact fun pp action pp' h hstep => h.change (change_step hstep)
  · intro pp action pp' h hP hstep
    have hchange := change_step hstep
    constructor
    · intro hP' index hindex
      rw [hindex] at hchange
      exact committedBefore_of_atLeastOnce hchange h hP'
    · exact atLeastOnce_of_committedBefore hchange h hP
  · exact ⟨by simpa [start, List.pairwise_map] using hinput, hmarked⟩
  · simp [AtLeastOnce, start]

end Runs

def rawConfig : Config Bytes Unit := { ContextRun.rawEnv with nilHandling := .ignore }

def twoMessages : List Message := [⟨"in", 0, 0, [97], some [1]⟩, ⟨"in", 0, 1, [98], some [2]⟩]

def oneByOne : List (Action Bytes) := [.take, .returns, .take, .returns]

theorem atLeastOnce_iff_one_by_one :
    (run (fun pp => pp.step rawConfig)
        (start twoMessages (none : Option GroupTable) 0) oneByOne).marked = 2 ∧
      ∀ t ∈ transitions (fun pp => pp.step rawConfig)
          (start twoMessages (none : Option GroupTable) 0) oneByOne,
        InOrder rawConfig t.1 t.2.1 := by
  refine ⟨by decide, ?_⟩
  refine (atLeastOnce_iff rawConfig twoMessages none 0 (by decide) (by decide) oneByOne).mp ?_
  intro n
  unfold AtLeastOnce
  match n with
  | 0 | 1 | 2 | 3 => decide
  | n + 4 =>
      rw [List.take_of_length_le (by simp [oneByOne])]
      decide

def overtaking : List (Action Bytes) :=
  [.take, .op (.emit "out" [97] (some [1]) []) false, .returns, .take, .returns]

theorem marked_beyond_uncommitted :
    ¬ AtLeastOnce (run (fun pp => pp.step rawConfig)
      (start twoMessages (none : Option GroupTable) 0) overtaking) := by
  unfold AtLeastOnce
  decide

end PartitionProcessor

end Goka

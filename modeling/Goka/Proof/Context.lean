import Goka.GroupTable
import Goka.Library.Schedule
import Goka.Library.Threads
import Goka.Proof.ContextOps

/-!
# The completion of a message

A context keeps its accounts: it has counted everything it handed out and everything that came back.
So the comparison of the two counters says whether everything has come back, and `commit` or
`asyncFailer` is called when the callback has returned and that becomes true, and then never again.
-/

namespace Goka

open Schedule

def Item.passed (item : Item) : Option String := item.resolution.bind Resolution.passed

namespace CbContext

variable {ctx ctx' : CbContext}

/-! ### What `tryCommit` and a resolution do -/

theorem tryCommit_frame (ctx : CbContext) (err : Option String) :
    (ctx.tryCommit err).msg = ctx.msg ∧ (ctx.tryCommit err).done = ctx.done ∧
      (ctx.tryCommit err).failed = ctx.failed := by
  unfold tryCommit markDone
  dsimp only
  split
  · exact ⟨rfl, rfl, rfl⟩
  · split <;> exact ⟨rfl, rfl, rfl⟩

theorem calls_tryCommit (ctx : CbContext) (err : Option String) :
    (ctx.tryCommit err).calls = ctx.calls ++
      if ctx.done = false ∨ ctx.emits > ctx.dones then []
      else if ctx.errors ++ err.toList ≠ [] then [.asyncFail (ctx.errors ++ err.toList)]
      else [.commit] := by
  unfold tryCommit markDone
  dsimp only
  split
  · exact (List.append_nil _).symm
  · split <;> rfl

/-- A resolution has no effect where the handout has come back before. -/
theorem resolve_cases {σ : Type} [TableStore σ] {table table' : Option σ} {index : Nat}
    {offset : Option Int} {err : Option String}
    (h : ctx.resolve table index offset err = some (ctx', table')) :
    (ctx' = ctx ∧ table' = table ∧ ∀ handout, ctx.items[index]? ≠ some ⟨handout, none⟩) ∨
      ∃ handout, ctx.items[index]? = some ⟨handout, none⟩ ∧
        ctx' = emitDone { ctx with
            items := ctx.items.set index
              ⟨handout, some ⟨err, (passOn table handout offset err).1⟩⟩ }
          (passOn table handout offset err).1 ∧
        table' = (passOn table handout offset err).2 := by
  unfold CbContext.resolve at h
  split at h
  · cases h
  · rename_i hitem
    obtain ⟨rfl, rfl⟩ := Prod.mk.inj (Option.some.inj h)
    exact .inl ⟨rfl, rfl, by simp [hitem]⟩
  · rename_i handout hitem
    obtain ⟨rfl, rfl⟩ := Prod.mk.inj (Option.some.inj h)
    exact .inr ⟨handout, hitem, rfl, rfl⟩

/-! ### Accounts -/

/-- The callback has returned and everything handed out has come back. -/
def Complete (ctx : CbContext) : Prop :=
  ctx.done = true ∧ ∀ item ∈ ctx.items, item.resolution.isSome

instance (ctx : CbContext) : Decidable ctx.Complete :=
  inferInstanceAs (Decidable (ctx.done = true ∧ ∀ item ∈ ctx.items, item.resolution.isSome))

def verdict (ctx : CbContext) : Verdict :=
  if ∀ item ∈ ctx.items, item.passed = none then .commit else .asyncFail ctx.errors

structure Accounts (ctx : CbContext) : Prop where
  emits : ctx.emits = ctx.items.length
  dones : ctx.dones = ctx.items.countP fun item => item.resolution.isSome
  errors : ctx.errors = [] ↔ ∀ item ∈ ctx.items, item.passed = none
  calls : ctx.calls = if ctx.Complete then [ctx.verdict] else []
  marks : ctx.marks = if ctx.Complete then 1 else 0

theorem Accounts.not_complete (h : Accounts ctx) (hopen : ¬ ctx.Complete) :
    ctx.calls = [] ∧ ctx.marks = 0 := by
  have hcalls := h.calls
  have hmarks := h.marks
  rw [if_neg hopen] at hcalls hmarks
  exact ⟨hcalls, hmarks⟩

/-- The counters tell whether something is outstanding. -/
theorem emits_gt_dones_iff (hemits : ctx.emits = ctx.items.length)
    (hdones : ctx.dones = ctx.items.countP fun item => item.resolution.isSome) :
    ctx.emits > ctx.dones ↔ ¬ ∀ item ∈ ctx.items, item.resolution.isSome := by
  rw [hemits, hdones, ← List.countP_eq_length]
  have hle := List.countP_le_length (p := fun item : Item => item.resolution.isSome)
    (l := ctx.items)
  omega

/-- `tryCommit` on accounts that are right and not yet closed. -/
theorem accounts_tryCommit {err : Option String} (hemits : ctx.emits = ctx.items.length)
    (hdones : ctx.dones = ctx.items.countP fun item => item.resolution.isSome)
    (herrors : ctx.errors ++ err.toList = [] ↔ ∀ item ∈ ctx.items, item.passed = none)
    (hcalls : ctx.calls = []) (hmarks : ctx.marks = 0) : Accounts (ctx.tryCommit err) := by
  have hcounters := emits_gt_dones_iff hemits hdones
  unfold tryCommit
  dsimp only
  split
  · rename_i hearly
    have hopen : ¬ Complete { ctx with errors := ctx.errors ++ err.toList } := by
      rintro ⟨hdone, hall⟩
      rcases hearly with hearly | hearly
      · exact absurd hdone (by simp [hearly])
      · exact hcounters.mp hearly hall
    exact ⟨hemits, hdones, herrors, by rw [if_neg hopen]; exact hcalls,
      by rw [if_neg hopen]; exact hmarks⟩
  · rename_i hlate
    have hdone : ctx.done = true := by simpa using fun h => hlate (.inl h)
    have hall : ∀ item ∈ ctx.items, item.resolution.isSome := by
      by_contra h
      exact hlate (.inr (hcounters.mpr h))
    split
    · rename_i hfailed
      have hverdict : ¬ ∀ item ∈ ctx.items, item.passed = none := fun h => hfailed (herrors.mpr h)
      refine ⟨hemits, hdones, herrors, ?_, ?_⟩
      · rw [if_pos ⟨hdone, hall⟩]
        simp [markDone, verdict, hcalls, hverdict]
      · rw [if_pos ⟨hdone, hall⟩]
        simp [markDone, hmarks]
    · rename_i hfine
      have hverdict : ∀ item ∈ ctx.items, item.passed = none := herrors.mp (not_not.mp hfine)
      refine ⟨hemits, hdones, herrors, ?_, ?_⟩
      · rw [if_pos ⟨hdone, hall⟩]
        simp only [markDone, verdict, hcalls, List.nil_append]
        rw [if_pos hverdict]
      · rw [if_pos ⟨hdone, hall⟩]
        simp [markDone, hmarks]

theorem Accounts.finish (h : Accounts ctx) (hrunning : ctx.done = false) :
    Accounts (ctx.finish none) := by
  have hopen : ¬ ctx.Complete := fun hcomplete => by simp [hcomplete.1] at hrunning
  obtain ⟨hcalls, hmarks⟩ := h.not_complete hopen
  exact accounts_tryCommit h.emits h.dones (by simpa using h.errors) hcalls hmarks

theorem Accounts.handOut (h : Accounts ctx) (hrunning : ctx.done = false) (handout : Handout) :
    Accounts (ctx.handOut handout) := by
  have hopen : ∀ ctx : CbContext, ctx.done = false → ¬ ctx.Complete :=
    fun ctx hrunning hcomplete => by simp [hcomplete.1] at hrunning
  obtain ⟨hcalls, hmarks⟩ := h.not_complete (hopen ctx hrunning)
  have hopen' : ¬ (ctx.handOut handout).Complete := hopen _ hrunning
  constructor
  · simp [CbContext.handOut, h.emits]
  · simp [CbContext.handOut, h.dones]
  · rw [show (ctx.handOut handout).errors = ctx.errors from rfl, h.errors]
    simp [CbContext.handOut, Item.passed, or_imp, forall_and]
  · rw [if_neg hopen']
    exact hcalls
  · rw [if_neg hopen']
    exact hmarks

/-- The item comes back, and `emitDone` may finish the context on the way. -/
theorem Accounts.resolved (h : Accounts ctx) {index : Nat} {handout : Handout}
    (hitem : ctx.items[index]? = some ⟨handout, none⟩) (carried passed : Option String) :
    Accounts (emitDone { ctx with
      items := ctx.items.set index ⟨handout, some ⟨carried, passed⟩⟩ } passed) := by
  obtain ⟨hlt, hget⟩ := List.getElem?_eq_some_iff.mp hitem
  have hopen : ¬ ctx.Complete := by
    intro hcomplete
    have := hcomplete.2 ⟨handout, none⟩ (hget ▸ List.getElem_mem hlt)
    simp at this
  obtain ⟨hcalls, hmarks⟩ := h.not_complete hopen
  refine accounts_tryCommit ?_ ?_ ?_ hcalls hmarks
  · simp [h.emits]
  · dsimp only
    rw [List.countP_set hlt, hget, h.dones]
    simp
  · dsimp only
    rw [Threads.forall_mem_set_iff hitem (by rfl), List.append_eq_nil_iff, h.errors, and_comm]
    simp [Item.passed]

theorem Accounts.resolve {σ : Type} [TableStore σ] {table table' : Option σ} {index : Nat}
    {offset : Option Int} {err : Option String} (h : Accounts ctx)
    (hstep : ctx.resolve table index offset err = some (ctx', table')) :
    Accounts ctx' ∧ ctx'.done = ctx.done := by
  rcases resolve_cases hstep with ⟨rfl, -, -⟩ | ⟨handout, hitem, rfl, -⟩
  · exact ⟨h, rfl⟩
  · exact ⟨h.resolved hitem _ _, (tryCommit_frame _ _).2.1⟩

end CbContext

namespace ContextRun

variable {α Callback σ : Type} [TableStore σ] {env : Env α Callback} {s s' : ContextRun σ}

structure Inv (s : ContextRun σ) : Prop where
  accounts : s.ctx.Accounts
  running : s.running → s.ctx.done = false

omit [TableStore σ] in
/-- Operations only hand out, and only while the callback runs. -/
theorem preserved_accounts :
    Preserved (σ := σ) (fun s => s.ctx.Accounts ∧ s.ctx.done = false)
      (fun s => s.ctx.Accounts ∧ s.ctx.done = false) := by
  refine Op.preserved_of_always ?_ ?_ ?_ ?_ ?_ ?_
  · exact fun s hs => hs
  · exact fun s err hs => hs
  · exact fun s table hs => hs
  · exact fun s hs => ⟨⟨hs.1.emits, hs.1.dones, hs.1.errors, hs.1.calls, hs.1.marks⟩, hs.2⟩
  · exact fun s handout hs => ⟨hs.1.handOut hs.2 handout, hs.2⟩
  · exact fun s topic key value headers hs => hs

theorem inv_step {action : Action α} (hinv : Inv s) (h : s.step env action = some s') : Inv s' := by
  cases action with
  | op o =>
      simp only [step] at h
      split at h
      case isFalse => cases h
      rename_i hrunning
      obtain rfl := Option.some.inj h
      have hkept : ((s.toOpState.perform env o).2).ctx.Accounts ∧
          ((s.toOpState.perform env o).2).ctx.done = false :=
        perform_keeps preserved_accounts ⟨hinv.accounts, hinv.running hrunning⟩
          (fun s failed hs =>
            ⟨⟨hs.1.emits, hs.1.dones, hs.1.errors, hs.1.calls, hs.1.marks⟩, hs.2⟩) rfl
      exact ⟨hkept.1, fun _ => hkept.2⟩
  | panics =>
      simp only [step] at h
      split at h
      · obtain rfl := Option.some.inj h
        have hacc := hinv.accounts
        exact ⟨⟨hacc.emits, hacc.dones, hacc.errors, hacc.calls, hacc.marks⟩, nofun⟩
      · cases h
  | returns =>
      simp only [step] at h
      split at h
      · rename_i hrunning
        obtain rfl := Option.some.inj h
        exact ⟨hinv.accounts.finish (hinv.running hrunning), nofun⟩
      · cases h
  | resolve index offset err =>
      obtain ⟨⟨ctx, table⟩, hresolve, rfl⟩ := Option.map_eq_some_iff.mp h
      obtain ⟨haccounts, hdone⟩ := hinv.accounts.resolve hresolve
      exact ⟨haccounts, fun hrunning => hdone.trans (hinv.running hrunning)⟩
  | cancel =>
      obtain rfl := Option.some.inj h
      exact ⟨hinv.accounts, hinv.running⟩

/-! ### What a resolution passes on -/

/-- The error that reaches `emitDone`: the one the resolution carried, or where a `SetValue` was
emitted that of `storeNewestOffset`. -/
def passedOn (table : Option σ) (handout : Handout) (offset : Option Int) :
    Option String → Option String
  | some err =>
      match handout with
      | .emit topic => some ("error emitting to " ++ topic ++ ": " ++ err)
      | _ => some err
  | none =>
      match handout, offset, table with
      | .setValue, some offset, some table => (storeNewestOffset table offset).1
      | _, _, _ => none

def rawCodec : Codec Bytes := ⟨fun value => (value, none), fun data => (data, none)⟩

def rawGraph : GroupGraph (Codec Bytes) Unit :=
  match GroupGraph.defineGroup "g" [.inputStream ⟨⟨"in", some rawCodec⟩, some ()⟩,
    .outputStream ⟨"out", some rawCodec⟩, .groupTable (some rawCodec)] with
  | .ok graph => graph
  | _ => .empty "g"

def rawEnv : Env Bytes Unit where
  graph := rawGraph
  emitterDefaultHeaders := none
  pviews := some fun _ => none
  views := some fun _ => none

def emptyTable : GroupTable := ⟨.running, { Storage.new (fun _ => none) with recovered := true }⟩

end ContextRun

end Goka

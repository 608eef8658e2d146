import Goka.Proof.ViewRun

/-!
# What a view has recovered

A recovery loads what the topic holds when it looks up the high watermark, and `Run` goes on to
catch up only if all partitions have recovered. So once a view can be read, it serves at least what
was written before it was run.

The code also takes a recovery for done if the consumer closes its channel, or the context is done,
before everything is loaded; this is left out here.
-/

namespace Goka

open Schedule KeyedLog

namespace ViewTable

variable {autoreconnect : Bool} {s s' : ViewTable} {stored : Option Int}

/-! ### A partition -/

def Covers (s : ViewTable) (base : Int) : Prop :=
  ∀ r ∈ s.table.log.records, r.offset < base → r.offset < s.served

def Ended (p : PartitionTable) : Prop := p.state = .running ∨ p.cancelled = true ∨ p.errs ≠ []

/-- The recovery is for what lies below `base`. -/
structure Recovers (base : Int) (s : ViewTable) : Prop where
  le_newest : base ≤ s.table.log.newest
  hwm : s.table.pc.loading = true → base ≤ s.table.hwm
  caughtUp : s.table.MarkedCaughtUp
  marking : s.table.pc.marking = true → s.table.cursor ≤ s.served
  running : s.table.state = .running → s.Covers base
  catching : s.phase = .catching ∨ s.phase = .returned → s.Covers base
  stop : s.phase = .recovering → s.table.pc ≠ .idle → s.table.stopAfterCatchup = true
  ended : s.phase = .recovering ∨ s.phase = .recovered →
    s.table.pc = .idle ∨ s.table.pc = .draining → Ended s.table

variable {base : Int}

theorem Covers.mono (h : s.Covers base) (hlog : s'.table.log = s.table.log)
    (hserved : s.served ≤ s'.served) :
    s'.Covers base := by
  intro r hr hlt
  rw [hlog] at hr
  exact (h r hr hlt).trans_le hserved

section TableStep

variable {p p' : PartitionTable} {e : PartitionTable.Event}

theorem state_leaveMarkRecovered (p : PartitionTable) (consuming : Bool) :
    (p.leaveMarkRecovered consuming).state = p.state :=
  (PartitionTable.leaveMarkRecovered_same p consuming).2.2.2.2

theorem stop_leaveLoadMessages (p : PartitionTable) :
    p.leaveLoadMessages.stopAfterCatchup = p.stopAfterCatchup := by
  unfold PartitionTable.leaveLoadMessages
  split <;> rfl

theorem loading_of_leaveLoadMessages (p : PartitionTable) : p.leaveLoadMessages.hwm = p.hwm ∧
    p.leaveLoadMessages.cursor = p.cursor := by
  unfold PartitionTable.leaveLoadMessages
  split <;> exact ⟨rfl, rfl⟩

theorem not_loading_returned (p : PartitionTable) : p.returned.pc.loading = false := by
  unfold PartitionTable.returned
  dsimp only
  split <;> rfl

/-- A load takes its high watermark from the log. -/
theorem hwm_step (hstep : p.step e = some p') (hloading : p'.pc.loading = true) :
    p.pc.loading = true ∧ p'.hwm = p.hwm ∨ p'.hwm = p.log.newest := by
  have hreturned : ∀ q : PartitionTable, q.returned.pc.loading = true → False := fun q h =>
    Bool.noConfusion ((not_loading_returned q).symm.trans h)
  cases PartitionTable.step_cases hstep with
  | append | cancel | nilMessage | stallTick | consumerError => exact .inl ⟨hloading, rfl⟩
  | createFails hpc | setupCancelled hpc =>
      rw [hpc] at hloading
      cases hloading
  | setup | catchup | gotOffset | backoffCancelled | markPanics | retry => cases hloading
  | offsetFails | watermarksFail | consumeFails | drained => exact (hreturned _ hloading).elim
  | upToDate | found => exact .inr rfl
  | consume hpc | message hpc | updateFails hpc | updated hpc | setFails hpc | offsetSet hpc
  | ignored hpc =>
      exact .inl ⟨by rw [hpc]; rfl, rfl⟩
  | closed hpc | cancelled hpc | reached hpc =>
      exact .inl ⟨by rw [hpc]; rfl, (loading_of_leaveLoadMessages p).1⟩
  | markCancelled hpc | recovered hpc | markFails hpc =>
      exact .inl ⟨by rw [hpc]; rfl, (PartitionTable.leaveMarkRecovered_same _ _).2.2.1⟩

/-- A table becomes readable behind a recovery, or when it begins to catch up. -/
theorem running_step (hstep : p.step e = some p') (hrunning : p'.state = .running) :
    p.state = .running ∨ p.pc.marking = true ∨ p.stopAfterCatchup = false ∧ p.pc ≠ .idle := by
  cases PartitionTable.step_cases hstep with
  | createFails | setupCancelled | setup | catchup | upToDate | retry => cases hrunning
  | consume hpc =>
      by_cases hstop : p.stopAfterCatchup = true
      · rw [if_pos hstop] at hrunning
        cases hrunning
      · exact .inr (.inr ⟨by simpa using hstop, hpc ▸ Pc.noConfusion⟩)
  | closed | cancelled | reached => exact .inl (PartitionTable.leaveLoadMessages_state hrunning)
  | markCancelled => exact .inl ((state_leaveMarkRecovered _ _).symm.trans hrunning)
  | markFails => exact .inl ((state_leaveMarkRecovered (p.collect _) _).symm.trans hrunning)
  | recovered hpc => exact .inr (.inl (by rw [hpc]; rfl))
  | _ => exact .inl hrunning

/-- A call keeps its purpose. -/
theorem stop_step (hstep : p.step e = some p') (hkind : ofLoad e = true) :
    p'.stopAfterCatchup = p.stopAfterCatchup ∧ (p.pc = .idle → p'.pc = .idle) := by
  have hbusy : ∀ {pc pc' : Pc}, p.pc = pc → pc ≠ .idle → p.pc = .idle → pc' = .idle :=
    fun hpc hne hidle => absurd (hpc.symm.trans hidle) hne
  cases PartitionTable.step_cases hstep with
  | append | cancel | createFails | setupCancelled | setup | catchup => cases hkind
  | nilMessage | stallTick | consumerError => exact ⟨rfl, id⟩
  | closed hpc | cancelled hpc | reached hpc =>
      exact ⟨stop_leaveLoadMessages p, hbusy hpc Pc.noConfusion⟩
  | markCancelled hpc | recovered hpc | markFails hpc =>
      exact ⟨(same_leaveMarkRecovered _ _).1, hbusy hpc Pc.noConfusion⟩
  | _ hpc => exact ⟨rfl, hbusy hpc Pc.noConfusion⟩

/-- How a recovery comes to its end. -/
theorem ended_step (hstep : p.step e = some p') (hkind : ofLoad e = true)
    (hends : p'.pc = .idle ∨ p'.pc = .draining) :
    Ended p' ∨ p.stopAfterCatchup = false ∧ p.pc ≠ .idle ∨
      (p.pc = .idle ∨ p.pc = .draining) ∧ (Ended p → Ended p') := by
  have hcollect : ∀ text : String, p.errs ++ [text] ≠ [] := fun text =>
    List.append_ne_nil_of_right_ne_nil _ (List.cons_ne_nil _ _)
  have hleave : ∀ pc : Pc, p.pc = pc → pc ≠ .idle → p.leaveLoadMessages.pc = .idle ∨
      p.leaveLoadMessages.pc = .draining → p.stopAfterCatchup = false ∧ p.pc ≠ .idle := by
    intro pc hpc hne hends
    refine ⟨?_, hpc ▸ hne⟩
    by_contra hstop
    rw [Bool.not_eq_false] at hstop
    rw [PartitionTable.leaveLoadMessages, if_pos hstop] at hends
    rcases hends with hends | hends <;> cases hends
  cases PartitionTable.step_cases hstep with
  | append | cancel | createFails | setupCancelled | setup | catchup => cases hkind
  | nilMessage | stallTick => exact .inr (.inr ⟨hends, id⟩)
  | consumerError | offsetFails | watermarksFail | consumeFails =>
      exact .inl (.inr (.inr (hcollect _)))
  | drained hpc => exact .inr (.inr ⟨.inr hpc, id⟩)
  | updateFails | setFails => exact .inl (.inr (.inr (hcollect _)))
  | closed hpc => exact .inr (.inl (hleave _ hpc Pc.noConfusion hends))
  | cancelled hpc => exact .inr (.inl (hleave _ hpc Pc.noConfusion hends))
  | reached hpc => exact .inr (.inl (hleave _ hpc Pc.noConfusion hends))
  | markCancelled hpc =>
      refine .inl (.inr (.inl ?_))
      rw [(same_leaveMarkRecovered _ _).2.1]
      exact cancelled_of_contextDone hstep
  | backoffCancelled => exact .inl (.inr (.inl (cancelled_of_contextDone hstep :)))
  | recovered hpc => exact .inl (.inl (state_leaveMarkRecovered _ _))
  | markFails hpc =>
      refine .inl (.inr (.inr ?_))
      rw [(same_leaveMarkRecovered _ _).2.2]
      exact hcollect _
  | gotOffset | upToDate | found | consume | message | updated | offsetSet | markPanics | retry =>
      rcases hends with hends | hends <;> cases hends
  | ignored hpc =>
      rw [hpc] at hends
      rcases hends with hends | hends <;> cases hends

theorem createFails_step {err : String}
    (hstep : p.step (.setupAndRecover autoreconnect (.error err)) = some p') :
    p'.pc = .idle ∧ p'.errs ≠ [] := by
  cases PartitionTable.step_cases hstep with
  | createFails hpc => exact ⟨hpc, List.cons_ne_nil _ _⟩

/-- `SetupAndRecover` comes back before it has loaded anything only if the context is done. -/
theorem setup_step (hstep : p.step (.setupAndRecover autoreconnect (.ok ())) = some p') :
    p'.pc = .idle ∧ p'.cancelled = true ∨ p'.pc ≠ .idle ∧ p'.stopAfterCatchup = true := by
  obtain ⟨hpc, hstep⟩ := Option.ite_none_right_eq_some.mp hstep
  obtain rfl := Option.some.inj hstep
  split
  · next hcancelled => exact .inl ⟨hpc, hcancelled⟩
  · exact .inr ⟨Pc.noConfusion, rfl⟩

end TableStep

/-- The consumer and the context leave a recovery alone as long as there is something to load. -/
def Undisturbed (s : ViewTable) : Action → Prop
  | .outside e => s.table.ExitsCaughtUp e
  | _ => True

/-- Whatever a load leaves for `MarkRecovered` is served. -/
theorem Exact.marking_step (h : Exact stored s) {table : PartitionTable} {e : PartitionTable.Event}
    (hmarking : s.table.pc.marking = true → s.table.cursor ≤ s.served)
    (hstep : s.table.step e = some table) (hafter : table.pc.marking = true) :
    table.cursor ≤ s.served := by
  have hreturned : ∀ q : PartitionTable, q.returned.pc.marking = true → False := by
    intro q hq
    unfold PartitionTable.returned at hq
    dsimp only at hq
    split at hq <;> cases hq
  have hleave : ∀ (q : PartitionTable) (consuming : Bool),
      (q.leaveMarkRecovered consuming).pc.marking = true →
      False := by
    intro q consuming hq
    cases consuming with
    | false => exact hreturned q hq
    | true => cases hq
  cases PartitionTable.step_cases hstep with
  | append | cancel | nilMessage | stallTick | consumerError => exact hmarking hafter
  | createFails hpc | setupCancelled hpc | ignored hpc =>
      rw [hpc] at hafter
      cases hafter
  | offsetFails | watermarksFail | consumeFails | drained => exact (hreturned _ hafter).elim
  | upToDate hpc => exact (h.stands_found hpc).le
  | closed hpc | cancelled hpc =>
      rw [(loading_of_leaveLoadMessages s.table).2]
      exact (h.stands (by rw [hpc]; rfl)).le
  | @reached record hpc =>
      rw [(loading_of_leaveLoadMessages s.table).2, (h.load.at_eq hpc).2]
      exact (h.sets record hpc).served.ge
  | markCancelled | recovered | markFails => exact (hleave _ _ hafter).elim
  | _ => cases hafter

theorem loading_of_marking {pc : Pc} (h : pc.marking = true) : pc.loading = true := by
  cases pc with
  | markingRecovered => rfl
  | _ => cases h

theorem Recovers.covers_of_marking (h : Recovers base s) (hmarking : s.table.pc.marking = true) :
    s.Covers base := by
  intro r hr hlt
  have hhwm := h.hwm (loading_of_marking hmarking)
  have hcursor := h.marking hmarking
  have hcaught : s.table.CaughtUp := by
    cases hpc : s.table.pc with
    | markingRecovered consuming => exact h.caughtUp consuming hpc
    | _ =>
        rw [hpc] at hmarking
        cases hmarking
  by_contra hserved
  have := hcaught r hr (by omega)
  omega

/-- A load that is not to stop behind what was there is one of `CatchupForever`. -/
theorem Recovers.covers_of_going (h : Recovers base s) (hexact : Exact stored s)
    (hgoing : s.table.stopAfterCatchup = false ∧ s.table.pc ≠ .idle) :
    s.phase = .catching ∧ s.Covers base := by
  have hcatching : s.phase = .catching := by
    have hbusy := hexact.busy_of_ne hgoing.2
    rw [busy, decide_eq_true_eq] at hbusy
    refine hbusy.resolve_left fun hrecovering => ?_
    exact Bool.noConfusion (hgoing.1.symm.trans (h.stop hrecovering hgoing.2))
  exact ⟨hcatching, h.catching (.inl hcatching)⟩

/-- A load goes on. -/
theorem Recovers.loads (h : Recovers base s) (hexact : Exact stored s)
    (hserved : s.served ≤ s'.served) {e : PartitionTable.Event}
    (hstep : s.table.step e = some s'.table) (hphase : s'.phase = s.phase) (hkind : ofLoad e = true)
    (hexit : s.table.ExitsCaughtUp e) : Recovers base s' := by
  have hlog : s'.table.log = s.table.log := log_tableStep hstep fun record heq => by
    rw [heq] at hkind
    cases hkind
  have hmono : s.Covers base → s'.Covers base := fun hcovers => hcovers.mono hlog hserved
  obtain ⟨hstop, hidle⟩ := stop_step hstep hkind
  refine ⟨hlog ▸ h.le_newest, fun hloading => ?_,
    PartitionTable.markedCaughtUp_step hexact.load h.caughtUp hexit hstep,
    fun hmarking => (hexact.marking_step h.marking hstep hmarking).trans hserved,
    fun hrunning => ?_, fun hcatching => hmono (h.catching (hphase ▸ hcatching)),
    fun hrecovering hbusy => ?_, fun hback hends => ?_⟩
  · rcases hwm_step hstep hloading with ⟨hbefore, heq⟩ | heq
    · exact heq ▸ h.hwm hbefore
    · exact heq ▸ h.le_newest
  · rcases running_step hstep hrunning with hbefore | hmarking | hgoing
    · exact hmono (h.running hbefore)
    · exact hmono (h.covers_of_marking hmarking)
    · exact hmono (h.covers_of_going hexact hgoing).2
  · rw [hstop]
    exact h.stop (hphase ▸ hrecovering) fun hpc => hbusy (hidle hpc)
  · rw [hphase] at hback
    rcases ended_step hstep hkind hends with hended | hgoing | ⟨hbefore, hkeeps⟩
    · exact hended
    · rw [(h.covers_of_going hexact hgoing).1] at hback
      rcases hback with hback | hback <;> cases hback
    · exact hkeeps (h.ended hback hbefore)

/-- The table stays as it is. -/
theorem Recovers.of_phase (h : Recovers base s) (htable : s'.table = s.table)
    (hserved : s.served ≤ s'.served)
    (hcatching : s'.phase = .catching ∨ s'.phase = .returned → s.Covers base)
    (hstop : s'.phase = .recovering → s.table.pc ≠ .idle → s.table.stopAfterCatchup = true)
    (hended : s'.phase = .recovering ∨ s'.phase = .recovered →
      s.table.pc = .idle ∨ s.table.pc = .draining → Ended s.table) : Recovers base s' := by
  have hmono : s.Covers base → s'.Covers base :=
    fun hcovers => hcovers.mono (by rw [htable]) hserved
  refine ⟨?_, ?_, ?_, ?_, ?_, fun hphase => hmono (hcatching hphase), ?_, ?_⟩ <;> rw [htable]
  · exact h.le_newest
  · exact h.hwm
  · exact h.caughtUp
  · exact fun hmarking => (h.marking hmarking).trans hserved
  · exact fun hrunning => hmono (h.running hrunning)
  · exact hstop
  · exact hended

/-- A call that comes back at once or goes on to `load`. -/
theorem Recovers.call (h : Recovers base s) (hserved : s.served ≤ s'.served)
    {e : PartitionTable.Event}
    (hstep : s.table.step e = some s'.table) (hcall : isCall e = true)
    (hlog : s'.table.log = s.table.log)
    (hcatching : s'.phase = .catching ∨ s'.phase = .returned → s.Covers base)
    (hstop : s'.phase = .recovering → s'.table.pc ≠ .idle → s'.table.stopAfterCatchup = true)
    (hended : s'.phase = .recovering ∨ s'.phase = .recovered → s'.table.pc = .idle →
      Ended s'.table) :
    Recovers base s' := by
  have hmono : s.Covers base → s'.Covers base := fun hcovers => hcovers.mono hlog hserved
  have hafter : (s'.table.pc = .idle ∨ s'.table.pc = .gettingOffset) ∧
      s'.table.state ≠ .running := by
    generalize s'.table = table at hstep
    cases PartitionTable.step_cases hstep with
    | createFails hpc | setupCancelled hpc => exact ⟨.inl hpc, PartitionStatus.noConfusion⟩
    | setup | catchup => exact ⟨.inr rfl, PartitionStatus.noConfusion⟩
    | _ => cases hcall
  have hrest : s'.table.pc.loading = false ∧ s'.table.pc.marking = false := by
    rcases hafter.1 with hpc | hpc <;> rw [hpc] <;> exact ⟨rfl, rfl⟩
  refine ⟨hlog ▸ h.le_newest, fun hloading => ?_, fun consuming hpc => ?_, fun hmarking => ?_,
    fun hrunning => absurd hrunning hafter.2, fun hphase => hmono (hcatching hphase), hstop,
    fun hback hends => ?_⟩
  · exact Bool.noConfusion (hrest.1.symm.trans hloading)
  · rcases hafter.1 with hpc' | hpc' <;> exact Pc.noConfusion (hpc'.symm.trans hpc)
  · exact Bool.noConfusion (hrest.2.symm.trans hmarking)
  · refine hended hback (hends.resolve_right fun hpc => ?_)
    rcases hafter.1 with hpc' | hpc' <;> exact Pc.noConfusion (hpc'.symm.trans hpc)

/-- The load reads up to the end the log had when it began, and `base` lies before that. -/
theorem recovers_step {action : Action} (h : Recovers base s) (hexact : Exact stored s)
    (hundisturbed : s.Undisturbed action) (hcovers : action = .catchupForever → s.Covers base)
    (hstep : s.step autoreconnect action = some s') : Recovers base s' := by
  have hserved := (onward_step hexact hstep).served
  have hlog := (onward_step hexact hstep).log
  cases effect_step hstep with
  | loads htable hphase hkind hselects =>
      refine h.loads hexact hserved htable hphase hkind fun hexit hpc => ?_
      obtain rfl := hselects hpc
      exact hundisturbed hexit hpc
  | crashes hpc htable hphase =>
      have hmono : s.Covers base → s'.Covers base := fun hcovers => hcovers.mono hlog hserved
      refine ⟨hlog ▸ h.le_newest, ?_, ?_, ?_, ?_,
        fun hcatching => hmono (h.catching (hphase ▸ hcatching)), ?_, ?_⟩ <;>
        rw [htable]
      · exact fun hloading => Bool.noConfusion hloading
      · exact fun _ hpc => Pc.noConfusion hpc
      · exact fun hmarking => Bool.noConfusion hmarking
      · exact fun hrunning => hmono (h.running hrunning)
      · exact fun hrecovering _ => h.stop (hphase ▸ hrecovering) (hpc ▸ Pc.noConfusion)
      · exact fun _ hends => by rcases hends with hends | hends <;> cases hends
  | rests htable hphase =>
      exact h.of_phase htable hserved (hphase ▸ h.catching) (hphase ▸ h.stop) (hphase ▸ h.ended)
  | creates htable _ hphase | closes htable _ hphase =>
      refine h.of_phase htable hserved ?_ ?_ ?_ <;> rw [hphase] <;> simp
  | fails htable hbefore hphase =>
      obtain ⟨hidle, herrs⟩ := createFails_step htable
      refine h.call hserved htable rfl hlog ?_ (fun _ hbusy => absurd hidle hbusy) fun _ _ =>
        .inr (.inr herrs)
      rw [hphase]
      simp
  | begins htable hbefore hphase =>
      refine h.call hserved htable rfl hlog ?_ (fun _ hbusy => ?_) fun _ hidle => .inr (.inl ?_)
      · rw [hphase]
        simp
      · exact ((setup_step htable).resolve_left fun hback => hbusy hback.1).2
      · exact ((setup_step htable).resolve_right fun hloads => hloads.1 hidle).2
  | catches htable hbefore hphase =>
      refine h.call hserved htable rfl hlog (fun _ => hcovers rfl) ?_ ?_ <;> rw [hphase] <;> simp
  | returns hpc htable hphase =>
      rcases hphase with ⟨hbefore, hphase⟩ | ⟨hbefore, hphase⟩
      · refine h.of_phase htable hserved ?_ ?_ fun _ hends => h.ended (.inl hbefore) hends <;>
          rw [hphase] <;> simp
      · refine h.of_phase htable hserved (fun _ => h.catching (.inl hbefore)) ?_ ?_ <;>
          rw [hphase] <;> simp

theorem Covers.append {record : TableRecord} (h : s.Covers base) (hle : base ≤ s.table.log.newest)
    (hstep : s.append record = some s') : s'.Covers base := by
  obtain ⟨-, hstep⟩ := Option.ite_none_left_eq_some.mp hstep
  obtain ⟨table, htable, rfl⟩ := Option.map_eq_some_iff.mp hstep
  cases PartitionTable.step_cases htable with
  | append hlog =>
      refine TopicLog.forall_append hlog h fun hlt => ?_
      have hnewest := (TopicLog.append_eq_some hlog).1
      omega

theorem Recovers.append {record : TableRecord} (h : Recovers base s) (hexact : Exact stored s)
    (hstep : s.append record = some s') : Recovers base s' := by
  have hcovers : s.Covers base → s'.Covers base := fun hcovers => hcovers.append h.le_newest hstep
  obtain ⟨-, hstep⟩ := Option.ite_none_left_eq_some.mp hstep
  obtain ⟨table, htable, rfl⟩ := Option.map_eq_some_iff.mp hstep
  have hcaught : table.MarkedCaughtUp := by
    refine PartitionTable.markedCaughtUp_step hexact.load h.caughtUp (fun hexit => ?_) htable
    rcases hexit with hexit | hexit <;> cases hexit
  cases PartitionTable.step_cases htable with
  | append hlog =>
      obtain ⟨hnewest, -, -, hnewest'⟩ := TopicLog.append_eq_some hlog
      refine ⟨?_, h.hwm, hcaught, h.marking, fun hrunning => hcovers (h.running hrunning),
        fun hphase => hcovers (h.catching hphase), h.stop, h.ended⟩
      have hle := h.le_newest
      dsimp only
      omega

theorem Recovers.cancel (h : Recovers base s) : Recovers base s.cancel :=
  { h with ended := fun _ _ => .inr (.inl rfl) }

end ViewTable

namespace ViewRun

variable {hasher : Hasher} {n : Nat} {s s' : ViewRun}

/-! ### The error group -/

structure Grouped (s : ViewRun) : Prop where
  ready : s.phase = .created → ∀ table ∈ s.tables, table.phase = .ready ∧
    table.table.state ≠ .running
  cancelled : ∀ table ∈ s.tables, table.table.cancelled = true → s.ctxDone = true ∨ s.errs ≠ []
  failed : ∀ table ∈ s.tables, table.phase = .recovered → table.table.errs ≠ [] → s.errs ≠ []

theorem grouped_new (topic : String) (hasher : Hasher) (autoreconnect : Bool) (n : Nat) :
    Grouped (new topic hasher autoreconnect n) where
  ready := fun _ => List.forall_mem_map.mpr fun _ _ => ⟨rfl, PartitionStatus.noConfusion⟩
  cancelled := List.forall_mem_map.mpr fun _ _ hcancelled => Bool.noConfusion hcancelled
  failed := List.forall_mem_map.mpr fun _ _ hphase => ViewTablePhase.noConfusion hphase

theorem starts_of_allows {action : ViewTable.Action} (hallows : s.allows action = true)
    (hcreated : s.phase = .created) : ViewTable.starts action = false := by
  cases action with
  | create | setupAndRecover | catchupForever => simp [allows, hcreated] at hallows
  | _ => rfl

theorem Grouped.move (h : Grouped s) {i : Nat} {action : ViewTable.Action}
    {table table' : ViewTable} (htable : s.tables[i]? = some table) (hsound : table.Sound)
    (heffect : ViewTable.Effect s.autoreconnect table table' action)
    (hstarts : s.phase = .created → ViewTable.starts action = false)
    (herrs : action = .returns → table.table.errs = []) :
    Grouped { s with tables := s.tables.set i table' } := by
  have hmem := List.mem_of_getElem? htable
  refine ⟨fun hcreated => Threads.forall_mem_set (h.ready hcreated) ?_,
    Threads.forall_mem_set h.cancelled ?_, Threads.forall_mem_set h.failed fun hphase => ?_⟩
  · obtain ⟨hready, hstate⟩ := h.ready hcreated table hmem
    obtain ⟨hsame, hphase⟩ := heffect.of_ready hsound hready (hstarts hcreated)
    exact ⟨hphase, hsame ▸ hstate⟩
  · rw [heffect.cancelled_eq]
    exact h.cancelled table hmem
  · obtain ⟨hsame, hbefore⟩ := heffect.recovered hsound hphase
    rw [hsame]
    rcases hbefore with hbefore | hreturns
    · exact h.failed table hmem hbefore
    · exact fun hne => absurd (herrs hreturns) hne

/-- The error group goes on to catch up when all recoveries have returned. -/
theorem grouped_step {action : Action} (hformed : Formed n s) (h : Grouped s)
    (hstep : s.step action = some s') : Grouped s' := by
  cases step_cases hstep with
  | @writes record i table table' _ htable happend =>
      have hmem := List.mem_of_getElem? htable
      obtain ⟨-, happend⟩ := Option.ite_none_left_eq_some.mp happend
      obtain ⟨moved, hmoved, rfl⟩ := Option.map_eq_some_iff.mp happend
      cases PartitionTable.step_cases hmoved with
      | append =>
          exact ⟨fun hcreated => Threads.forall_mem_set (h.ready hcreated)
            (h.ready hcreated table hmem),
            Threads.forall_mem_set h.cancelled (h.cancelled table hmem),
            Threads.forall_mem_set h.failed (h.failed table hmem)⟩
  | runs | recoveryEnds | recovers | catchupEnds | runReturns =>
      exact ⟨fun hcreated => ViewPhase.noConfusion hcreated, h.cancelled, h.failed⟩
  | drops => exact ⟨h.ready, h.cancelled, h.failed⟩
  | moves hallows htable hon =>
      refine h.move htable (hformed.sound _ (List.mem_of_getElem? htable))
        (ViewTable.effect_step hon)
        (starts_of_allows hallows) ?_
      rintro rfl
      cases hallows
  | evicts htable hon =>
      exact h.move htable (hformed.sound _ (List.mem_of_getElem? htable))
        (ViewTable.effect_step hon) (fun _ => rfl)
        fun heq => ViewTable.Action.noConfusion heq
  | returns htable hon herrs =>
      exact h.move htable (hformed.sound _ (List.mem_of_getElem? htable))
        (ViewTable.effect_step hon) (fun _ => rfl)
        fun _ => herrs
  | @fails i table table' htable hon herrs =>
      have hfailed : s.errs ++ [errorsText table.table.errs] ≠ [] :=
        List.append_ne_nil_of_right_ne_nil _ (List.cons_ne_nil _ _)
      refine ⟨fun hcreated => ?_, fun _ _ _ => .inr hfailed, fun _ _ _ _ => hfailed⟩
      have hready := (h.ready hcreated table (List.mem_of_getElem? htable)).1
      obtain ⟨-, hreturns⟩ := Option.ite_none_right_eq_some.mp hon
      rw [hready] at hreturns
      cases hreturns
  | cancels =>
      exact ⟨fun hcreated => List.forall_mem_map.mpr (h.ready hcreated), fun _ _ _ => .inl rfl,
        List.forall_mem_map.mpr h.failed⟩
  | restarts =>
      exact ⟨fun _ => List.forall_mem_map.mpr fun _ _ => ⟨rfl, PartitionStatus.noConfusion⟩,
        List.forall_mem_map.mpr fun _ _ hcancelled => Bool.noConfusion hcancelled,
        List.forall_mem_map.mpr fun _ _ hphase => ViewTablePhase.noConfusion hphase⟩

/-! ### What was written before -/

/-- The consumers and the context leave the recoveries alone, and the view is not run again. -/
def Undisturbed (s : ViewRun) : Action → Prop
  | .inTable i action => ∀ table ∈ s.tables[i]?, table.Undisturbed action
  | .restart _ => False
  | _ => True

/-- Every partition recovers what lies below its `base`, and has done so once all are catching
up. -/
structure Fresh (base : Nat → Int) (s : ViewRun) : Prop where
  recovers : ∀ (i : Nat) (table : ViewTable), s.tables[i]? = some table → table.Recovers (base i)
  caught : s.phase = .catching → ∀ (i : Nat) (table : ViewTable), s.tables[i]? = some table →
    table.Covers (base i)

variable {base : Nat → Int}

/-- A table moves on. -/
theorem Fresh.move (h : Fresh base s) {i : Nat} {action : ViewTable.Action}
    {table table' : ViewTable} (htable : s.tables[i]? = some table)
    (hexact : ∃ stored, ViewTable.Exact stored table)
    (hstep : table.step s.autoreconnect action = some table')
    (hundisturbed : table.Undisturbed action)
    (hcatching : action = .catchupForever → s.phase = .catching) :
    Fresh base { s with tables := s.tables.set i table' } := by
  obtain ⟨stored, hexact⟩ := hexact
  refine ⟨Threads.forall_getElem?_set ?_ fun j other _ hother => h.recovers j other hother,
    fun hphase => Threads.forall_getElem?_set ?_ fun j other _ hother =>
      h.caught hphase j other hother⟩
  · exact ViewTable.recovers_step (h.recovers i table htable) hexact hundisturbed
      (fun hcatchup => h.caught (hcatching hcatchup) i table htable) hstep
  · have honward := ViewTable.onward_step hexact hstep
    exact (h.caught hphase i table htable).mono honward.log honward.served

theorem Fresh.cancel (h : Fresh base s) (ctxDone : Bool) (errs : List String) :
    Fresh base { s with
      tables := s.tables.map ViewTable.cancel, ctxDone := ctxDone, errs := errs } := by
  constructor
  · intro i table htable
    rw [List.getElem?_map] at htable
    obtain ⟨before, hbefore, rfl⟩ := Option.map_eq_some_iff.mp htable
    exact (h.recovers i before hbefore).cancel
  · intro hphase i table htable
    rw [List.getElem?_map] at htable
    obtain ⟨before, hbefore, rfl⟩ := Option.map_eq_some_iff.mp htable
    exact h.caught hphase i before hbefore

def newest (s : ViewRun) (i : Nat) : Int :=
  (s.tables[i]?.map fun table => table.table.log.newest).getD 0

structure Attended (n : Nat) (s : ViewRun) : Prop where
  formed : Formed n s
  grouped : Grouped s

theorem attended_step {action : Action} (h : Attended n s) (hstep : s.step action = some s') :
    Attended n s' :=
  ⟨formed_step h.formed hstep, grouped_step h.formed h.grouped hstep⟩

theorem attended_run (topic : String) (hasher : Hasher) (autoreconnect : Bool) (n : Nat)
    (actions : List Action) :
    Attended n (Schedule.run step (new topic hasher autoreconnect n) actions) :=
  run_invariant (fun _ _ _ h hstep => attended_step h hstep)
    ⟨formed_new topic hasher autoreconnect n, grouped_new topic hasher autoreconnect n⟩ actions

def quiet : Action → Bool
  | .inTable _ (.outside .messagesClosed) | .inTable _ (.outside .contextDone) | .restart _ => false
  | _ => true

end ViewRun

end Goka

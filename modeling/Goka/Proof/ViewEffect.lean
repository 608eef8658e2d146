import Goka.Proof.PartitionTable
import Goka.ViewTable

/-!
# What an action does to a partition of a view

Whatever the storage and its goroutine do, a load goes on only within `SetupAndRecover` or
`CatchupForever`, and its table is as a load leaves it.
-/

namespace Goka

namespace ViewTable

variable {autoreconnect : Bool} {s s' : ViewTable}

section TableStep

variable {p p' : PartitionTable} {e : PartitionTable.Event}

def ofLoad : PartitionTable.Event → Bool
  | .append _ | .cancel | .setupAndRecover _ _ | .catchupForever _ => false
  | _ => true

theorem cancelled_of_contextDone (h : p.step .contextDone = some p') : p.cancelled = true := by
  by_contra hgoing
  change p.contextDone = some p' at h
  rw [PartitionTable.contextDone, if_neg hgoing] at h
  cases h

theorem same_leaveMarkRecovered (p : PartitionTable) (consuming : Bool) :
    (p.leaveMarkRecovered consuming).stopAfterCatchup = p.stopAfterCatchup ∧
      (p.leaveMarkRecovered consuming).cancelled = p.cancelled ∧
      (p.leaveMarkRecovered consuming).errs = p.errs := by
  cases consuming <;> exact ⟨rfl, rfl, rfl⟩

theorem log_leaveLoadMessages (p : PartitionTable) : p.leaveLoadMessages.log = p.log := by
  unfold PartitionTable.leaveLoadMessages
  split <;> rfl

theorem log_leaveMarkRecovered (p : PartitionTable) (consuming : Bool) :
    (p.leaveMarkRecovered consuming).log = p.log :=
  (PartitionTable.leaveMarkRecovered_same p consuming).1

theorem log_tableStep (hstep : p.step e = some p') (happend : ∀ record, e ≠ .append record) :
    p'.log = p.log := by
  cases PartitionTable.step_cases hstep with
  | append => exact absurd rfl (happend _)
  | closed | cancelled | reached => exact log_leaveLoadMessages _
  | markCancelled | recovered | markFails => exact log_leaveMarkRecovered _ _
  | _ => rfl

theorem cancelled_step (hstep : p.step e = some p') (hcancel : e ≠ .cancel) :
    p'.cancelled = p.cancelled := by
  cases PartitionTable.step_cases hstep with
  | cancel => exact absurd rfl hcancel
  | closed | cancelled | reached =>
      unfold PartitionTable.leaveLoadMessages
      split <;> rfl
  | markCancelled | recovered | markFails => exact (same_leaveMarkRecovered _ _).2.1
  | _ => rfl

/-- Nothing happens to a table between two calls. -/
theorem ne_idle_of_step (hstep : p.step e = some p') (hkind : ofLoad e = true) : p.pc ≠ .idle := by
  intro hidle
  cases e with
  | append | cancel | setupAndRecover | catchupForever => cases hkind
  | gotOffset | gotWatermarks | consumePartition | message | nilMessage | stallTick | messagesClosed
  | contextDone | consumerError | updated | offsetSet | markedRecovered | drained | retry =>
      simp [PartitionTable.step, PartitionTable.gotOffset, PartitionTable.gotWatermarks,
        PartitionTable.consumePartition, PartitionTable.message, PartitionTable.passOver,
        PartitionTable.messagesClosed, PartitionTable.contextDone, PartitionTable.consumerError,
        PartitionTable.updated, PartitionTable.offsetSet, PartitionTable.markedRecovered,
        PartitionTable.drained, PartitionTable.retry, Pc.consuming, hidle] at hstep

end TableStep

theorem close_cases {putErr : Option String} (h : s.close putErr = some s') :
    (s.phase = .recovered ∨ s.phase = .returned) ∧
      (s.status = .opened ∧
          s' = { s with
            phase := .closed
            status := .closed
            st := s.putLoaded putErr s.st.offset } ∨
        s.status ≠ .opened ∧ s' = { s with phase := .closed }) := by
  unfold ViewTable.close at h
  split at h
  · next hphase =>
      refine ⟨.inl hphase, ?_⟩
      split at h
      · next hopened => exact .inl ⟨hopened, (Option.some.inj h).symm⟩
      · next hopened => exact .inr ⟨hopened, (Option.some.inj h).symm⟩
  · next hphase =>
      refine ⟨.inr hphase, ?_⟩
      split at h
      · next hopened => exact .inl ⟨hopened, (Option.some.inj h).symm⟩
      · next hopened => exact .inr ⟨hopened, (Option.some.inj h).symm⟩
  · cases h

theorem syncPut_cases {putErr : Option String} (h : s.syncPut putErr = some s') :
    ∃ curOffset, s.curOffset = some curOffset ∧
      s' = { s with st := s.putLoaded putErr curOffset, curOffset := none } := by
  unfold syncPut at h
  split at h
  · next curOffset hloaded => exact ⟨curOffset, hloaded, (Option.some.inj h).symm⟩
  · cases h

/-- What an action does to the table and to the goroutine that runs it. -/
inductive Effect (autoreconnect : Bool) (s s' : ViewTable) : Action → Prop where
  | loads {action : Action} {e : PartitionTable.Event} (hstep : s.table.step e = some s'.table)
      (hphase : s'.phase = s.phase) (hkind : ofLoad e = true)
      (hselects : s.table.pc = .selecting → action = .outside e) :
      Effect autoreconnect s s' action
  | crashes {readErr : Option String} (hpc : s.table.pc = .gettingOffset)
      (htable : s'.table = { s.table with pc := .crashed }) (hphase : s'.phase = s.phase) :
      Effect autoreconnect s s' (.getOffset readErr)
  | rests {action : Action} (htable : s'.table = s.table) (hphase : s'.phase = s.phase) :
      Effect autoreconnect s s' action
  | creates {builderErr openErr closeErr : Option String} (htable : s'.table = s.table)
      (hbefore : s.phase = .ready) (hphase : s'.phase = .created) :
      Effect autoreconnect s s' (.create builderErr openErr closeErr)
  | fails {builderErr openErr closeErr : Option String} {err : String}
      (hstep : s.table.step (.setupAndRecover autoreconnect (.error err)) = some s'.table)
      (hbefore : s.phase = .ready) (hphase : s'.phase = .recovering)
      (hcreate : (createStorage builderErr openErr closeErr s.table.cancelled).2 = .error err) :
      Effect autoreconnect s s' (.create builderErr openErr closeErr)
  | begins (hstep : s.table.step (.setupAndRecover autoreconnect (.ok ())) = some s'.table)
      (hbefore : s.phase = .created) (hphase : s'.phase = .recovering) :
      Effect autoreconnect s s' .setupAndRecover
  | catches (hstep : s.table.step (.catchupForever autoreconnect) = some s'.table)
      (hbefore : s.phase = .recovered) (hphase : s'.phase = .catching) :
      Effect autoreconnect s s' .catchupForever
  | returns (hpc : s.table.pc = .idle) (htable : s'.table = s.table)
      (hphase : s.phase = .recovering ∧ s'.phase = .recovered ∨
        s.phase = .catching ∧ s'.phase = .returned) :
      Effect autoreconnect s s' .returns
  | closes {putErr : Option String} (htable : s'.table = s.table)
      (hbefore : s.phase = .recovered ∨ s.phase = .returned) (hphase : s'.phase = .closed) :
      Effect autoreconnect s s' (.close putErr)

theorem onTable_cases {e : PartitionTable.Event} (hstep : s.onTable e = some s') :
    s.table.step e = some s'.table ∧ s'.phase = s.phase := by
  obtain ⟨table, htable, rfl⟩ := Option.map_eq_some_iff.mp hstep
  exact ⟨htable, rfl⟩

/-- The storage is never asked for anything while `loadMessages` selects. -/
theorem effect_loads {before : ViewTable} {e : PartitionTable.Event} {action : Action}
    (hstep : before.onTable e = some s') (hbefore : before.table = s.table ∧ before.phase = s.phase)
    (hkind : ofLoad e = true) (hselecting : s.table.pc ≠ .selecting) :
    Effect autoreconnect s s' action := by
  obtain ⟨htable, hphase⟩ := onTable_cases hstep
  rw [hbefore.1] at htable
  exact .loads htable (hphase.trans hbefore.2) hkind fun hpc => absurd hpc hselecting

/-- Read off the actions once, for all the invariants of the tables. -/
theorem effect_step {action : Action} (hstep : s.step autoreconnect action = some s') :
    Effect autoreconnect s s' action := by
  cases action with
  | create builderErr openErr closeErr =>
      obtain ⟨hready, hstep⟩ := Option.ite_none_right_eq_some.mp hstep
      split at hstep
      · next hcreate =>
          obtain ⟨htable, hphase⟩ := onTable_cases hstep
          exact .fails htable hready hphase (by rw [hcreate])
      · obtain rfl := Option.some.inj hstep
        exact .creates rfl hready rfl
  | setupAndRecover =>
      obtain ⟨hcreated, hstep⟩ := Option.ite_none_right_eq_some.mp hstep
      obtain ⟨htable, hphase⟩ := onTable_cases hstep
      exact .begins htable hcreated hphase
  | catchupForever =>
      obtain ⟨hrecovered, hstep⟩ := Option.ite_none_right_eq_some.mp hstep
      obtain ⟨htable, hphase⟩ := onTable_cases hstep
      exact .catches htable hrecovered hphase
  | getOffset readErr =>
      obtain ⟨hpc, hstep⟩ := Option.ite_none_right_eq_some.mp hstep
      have hselecting : s.table.pc ≠ .selecting := hpc ▸ Pc.noConfusion
      split at hstep
      · exact effect_loads hstep ⟨rfl, rfl⟩ rfl hselecting
      · exact effect_loads hstep ⟨rfl, rfl⟩ rfl hselecting
      · obtain rfl := Option.some.inj hstep
        exact .crashes hpc rfl rfl
  | outside e =>
      obtain ⟨houtside, hstep⟩ := Option.ite_none_right_eq_some.mp hstep
      obtain ⟨htable, hphase⟩ := onTable_cases hstep
      refine .loads htable hphase ?_ fun _ => rfl
      cases e <;> first | rfl | cases houtside
  | update err =>
      change s.update err = some s' at hstep
      unfold update at hstep
      split at hstep
      · next hpc => exact effect_loads hstep ⟨rfl, rfl⟩ rfl (hpc ▸ Pc.noConfusion)
      · next hpc => exact effect_loads hstep ⟨rfl, rfl⟩ rfl (hpc ▸ Pc.noConfusion)
      · cases hstep
  | setOffset err =>
      change s.setOffset err = some s' at hstep
      unfold setOffset at hstep
      split at hstep
      · next hpc =>
          obtain ⟨-, hstep⟩ := Option.ite_none_right_eq_some.mp hstep
          exact effect_loads hstep ⟨rfl, rfl⟩ rfl (hpc ▸ Pc.noConfusion)
      · next hpc => exact effect_loads hstep ⟨rfl, rfl⟩ rfl (hpc ▸ Pc.noConfusion)
      · cases hstep
  | markRecovered putErr left =>
      obtain ⟨⟨-, hmarking⟩, hstep⟩ := Option.ite_none_right_eq_some.mp hstep
      have hselecting : s.table.pc ≠ .selecting := by
        intro hpc
        rw [hpc] at hmarking
        cases hmarking
      split at hstep
      · cases left <;> exact effect_loads hstep ⟨rfl, rfl⟩ rfl hselecting
      · cases left <;> exact effect_loads hstep ⟨rfl, rfl⟩ rfl hselecting
      · exact effect_loads hstep ⟨rfl, rfl⟩ rfl hselecting
  | syncLoad | syncReturn | evict key =>
      obtain ⟨-, hstep⟩ := Option.ite_none_right_eq_some.mp hstep
      obtain rfl := Option.some.inj hstep
      exact .rests rfl rfl
  | syncPut putErr =>
      obtain ⟨curOffset, -, rfl⟩ := syncPut_cases hstep
      exact .rests rfl rfl
  | returns =>
      obtain ⟨hpc, hstep⟩ := Option.ite_none_right_eq_some.mp hstep
      split at hstep
      · next hphase =>
          obtain rfl := Option.some.inj hstep
          exact .returns hpc rfl (.inl ⟨hphase, rfl⟩)
      · next hphase =>
          obtain rfl := Option.some.inj hstep
          exact .returns hpc rfl (.inr ⟨hphase, rfl⟩)
      · cases hstep
  | close putErr =>
      obtain ⟨hphase, ⟨-, rfl⟩ | ⟨-, rfl⟩⟩ := close_cases hstep
      · exact .closes rfl hphase rfl
      · exact .closes rfl hphase rfl

/-! ### The table between and within its calls -/

def busy (s : ViewTable) : Bool := s.phase = .recovering ∨ s.phase = .catching

structure Sound (s : ViewTable) : Prop where
  load : s.table.LoadInv
  idle : s.busy = false → s.table.pc = .idle

theorem busy_of_phase (hphase : s'.phase = s.phase) : s'.busy = s.busy := by
  rw [busy, busy, hphase]

theorem Sound.busy_of_ne (h : Sound s) (hpc : s.table.pc ≠ .idle) : s.busy = true := by
  cases hbusy : s.busy with
  | true => rfl
  | false => exact absurd (h.idle hbusy) hpc

theorem sound_onDatabase (topic : String) (partition : Nat) (log : TopicLog) (db : Database)
    (served : Int) (evicted : List Bytes) :
    Sound (onDatabase topic partition log db served evicted) :=
  ⟨PartitionTable.loadInv_new .., fun _ => rfl⟩

theorem Sound.cancel (h : Sound s) : Sound s.cancel := by
  have hstep : s.table.step .cancel = some { s.table with cancelled := true } := rfl
  exact ⟨PartitionTable.loadInv_step h.load hstep, h.idle⟩

theorem Sound.append {record : TableRecord} (h : Sound s) (hstep : s.append record = some s') :
    Sound s' := by
  obtain ⟨-, hstep⟩ := Option.ite_none_left_eq_some.mp hstep
  obtain ⟨table, htable, rfl⟩ := Option.map_eq_some_iff.mp hstep
  refine ⟨PartitionTable.loadInv_step h.load htable, ?_⟩
  cases PartitionTable.step_cases htable with
  | append => exact h.idle

/-- A goroutine that has returned leaves the table without a load. -/
theorem sound_step {action : Action} (h : Sound s)
    (hstep : s.step autoreconnect action = some s') : Sound s' := by
  have hwaits : ∀ {phase : ViewTablePhase}, s.phase = phase → phase ≠ .recovering →
      phase ≠ .catching → s.table.pc = .idle := by
    intro phase hphase hrecovering hcatching
    refine h.idle (decide_eq_false ?_)
    rw [hphase]
    exact not_or.mpr ⟨hrecovering, hcatching⟩
  cases effect_step hstep with
  | loads htable hphase hkind =>
      refine ⟨PartitionTable.loadInv_step h.load htable, fun hbusy => ?_⟩
      rw [busy_of_phase hphase] at hbusy
      exact absurd (h.idle hbusy) (ne_idle_of_step htable hkind)
  | crashes hpc htable hphase =>
      refine ⟨?_, fun hbusy => ?_⟩
      · rw [htable]
        exact ⟨fun hloading => Bool.noConfusion hloading, trivial⟩
      · rw [busy_of_phase hphase] at hbusy
        exact Pc.noConfusion (hpc.symm.trans (h.idle hbusy))
  | rests htable hphase =>
      constructor
      · rw [htable]
        exact h.load
      · rw [htable, busy_of_phase hphase]
        exact h.idle
  | creates htable hbefore =>
      have hidle := hwaits hbefore ViewTablePhase.noConfusion ViewTablePhase.noConfusion
      exact ⟨htable ▸ h.load, fun _ => htable ▸ hidle⟩
  | closes htable hbefore =>
      have hidle : s.table.pc = .idle := by
        rcases hbefore with hbefore | hbefore
        · exact hwaits hbefore ViewTablePhase.noConfusion ViewTablePhase.noConfusion
        · exact hwaits hbefore ViewTablePhase.noConfusion ViewTablePhase.noConfusion
      exact ⟨htable ▸ h.load, fun _ => htable ▸ hidle⟩
  | fails htable _ hphase | begins htable _ hphase | catches htable _ hphase =>
      refine ⟨PartitionTable.loadInv_step h.load htable, fun hbusy => ?_⟩
      rw [busy, hphase] at hbusy
      cases hbusy
  | returns hpc htable => exact ⟨htable ▸ h.load, fun _ => htable ▸ hpc⟩

/-! ### What follows for the goroutines -/

def starts : Action → Bool
  | .create _ _ _ | .setupAndRecover | .catchupForever => true
  | _ => false

theorem Effect.cancelled_eq {action : Action} (h : Effect autoreconnect s s' action) :
    s'.table.cancelled = s.table.cancelled := by
  cases h with
  | loads hstep _ hkind =>
      refine cancelled_step hstep ?_
      rintro rfl
      cases hkind
  | fails hstep | begins hstep | catches hstep =>
      exact cancelled_step hstep PartitionTable.Event.noConfusion
  | crashes _ htable => rw [htable]
  | rests htable | creates htable | closes htable => rw [htable]
  | returns _ htable => rw [htable]

/-- Nothing but a new call touches a table that is not at work. -/
theorem Effect.of_ready {action : Action} (h : Effect autoreconnect s s' action) (hsound : Sound s)
    (hready : s.phase = .ready) (hstarts : starts action = false) :
    s'.table = s.table ∧ s'.phase = .ready := by
  have hpc : s.table.pc = .idle := hsound.idle (by simp [busy, hready])
  cases h with
  | loads hstep _ hkind => exact absurd hpc (ne_idle_of_step hstep hkind)
  | crashes hbusy => exact Pc.noConfusion (hpc.symm.trans hbusy)
  | rests htable hphase => exact ⟨htable, hphase.trans hready⟩
  | creates | fails | begins | catches => cases hstarts
  | returns _ _ hphase =>
      rcases hphase with ⟨hphase, -⟩ | ⟨hphase, -⟩ <;> cases hready.symm.trans hphase
  | closes _ hphase => rcases hphase with hphase | hphase <;> cases hready.symm.trans hphase

theorem Effect.recovered {action : Action} (h : Effect autoreconnect s s' action)
    (hsound : Sound s) (hphase' : s'.phase = .recovered) :
    s'.table = s.table ∧ (s.phase = .recovered ∨ action = .returns) := by
  have hidle : s.phase = .recovered → s.table.pc = .idle :=
    fun hphase => hsound.idle (by simp [busy, hphase])
  cases h with
  | loads hstep hphase hkind =>
      exact absurd (hidle (hphase ▸ hphase')) (ne_idle_of_step hstep hkind)
  | crashes hbusy _ hphase =>
      exact Pc.noConfusion ((hidle (hphase ▸ hphase')).symm.trans hbusy)
  | rests htable hphase => exact ⟨htable, .inl (hphase ▸ hphase')⟩
  | returns _ htable => exact ⟨htable, .inr rfl⟩
  | creates _ _ hphase | fails _ _ hphase | begins _ _ hphase | catches _ _ hphase
  | closes _ _ hphase => cases hphase.symm.trans hphase'

end ViewTable

end Goka

import Goka.Headers
import Goka.Proof.Context

/-!
# The headers that arrive

A map that is read back from its records is the map, in whatever order they were written. What
`Emit` and `Loopback` hand over is the defaults overridden by the options; what `SetValue` and
`Delete` hand over is the options alone. All writes go to maps that were made for the purpose.
-/

namespace Goka

namespace Headers

def value (h : Headers) (key : String) : Option Bytes := h.bind fun h => h.lookup key

/-- The value a key is meant to have: that of the last option with the key, else the default. -/
def configured (defaults : Headers) (options : List Headers) (key : String) : Option Bytes :=
  (options.reverse.findSome? fun h => h.value key).or (defaults.value key)

/-- What a consumer reads from a message, in whatever order the header map was visited. -/
def Arrives (h : Headers) (read : String → Option Bytes) : Prop :=
  ∀ records : Records, records.Perm h.toSarama → ∀ key, (fromSarama records).lookup key = read key

/-! ### Reading back -/

/-- With distinct keys, a value is found where a pass over the entries has put it. -/
theorem lookup_foldl_insert {entries : List (Sigma fun _ : String => Bytes)} (h : entries.NodupKeys)
    (target : GoMap String Bytes) (key : String) :
    (entries.foldl (fun target entry => target.insert entry.1 entry.2) target).lookup key
      = (entries.dlookup key).or (target.lookup key) := by
  induction entries generalizing target with
  | nil => simp
  | cons entry entries ih =>
      obtain ⟨hentry, hrest⟩ := List.nodupKeys_cons.mp h
      rw [List.foldl_cons, ih hrest]
      rcases eq_or_ne key entry.1 with rfl | hne
      · have hnone : entries.dlookup entry.1 = none := List.dlookup_eq_none.mpr hentry
        rw [hnone, Option.none_or, AList.lookup_insert, List.dlookup_cons_eq, Option.some_or]
      · rw [AList.lookup_insert_ne hne, List.dlookup_cons_ne _ _ hne]

theorem lookup_copyInto (target : GoMap String Bytes) (h : Headers) (key : String) :
    (copyInto target h).lookup key = (h.value key).or (target.lookup key) := by
  cases h with
  | none => rfl
  | some h => exact lookup_foldl_insert h.nodupKeys target key

theorem value_merged (h headers : Headers) (key : String) :
    (h.merged headers).value key = (headers.value key).or (h.value key) := by
  have hlookup : (copyInto (copyInto ∅ h) headers).lookup key
      = (headers.value key).or (h.value key) := by
    rw [lookup_copyInto, lookup_copyInto, AList.lookup_empty, Option.or_none]
  unfold merged
  dsimp only
  split
  · next hempty =>
      rw [← hlookup, AList.lookup, hempty]
      rfl
  · exact hlookup

/-- The options are merged from left to right, so the last one with the key wins. -/
theorem value_ofOptions (options : List Headers) (key : String) :
    (ofOptions options).value key = options.reverse.findSome? fun h => h.value key := by
  induction options using List.reverseRecOn with
  | nil => rfl
  | append_singleton options hdr ih =>
      have hcopied : (ofOptions (options ++ [hdr])).value key
          = (hdr.value key).or ((ofOptions options).value key) := by
        rw [ofOptions, List.foldl_append, List.foldl_cons, List.foldl_nil, ← ofOptions]
        change (copyInto ((ofOptions options).getD ∅) hdr).lookup key = _
        rw [lookup_copyInto]
        cases ofOptions options <;> rfl
      rw [hcopied, ih, List.reverse_append, List.reverse_singleton, List.singleton_append,
        List.findSome?_cons]
      cases hdr.value key <;> rfl

/-- A message is read back as the map it was made from. -/
theorem lookup_fromSarama {h : Headers} {records : Records} (hperm : records.Perm h.toSarama)
    (key : String) : (fromSarama records).lookup key = h.value key := by
  let entry (r : String × Bytes) : Sigma fun _ : String => Bytes := ⟨r.1, r.2⟩
  cases h with
  | none =>
      rw [List.perm_nil.mp hperm]
      rfl
  | some h =>
      have hentries : (records.map entry).Perm h.entries := by
        have hmapped := hperm.map entry
        rw [toSarama, List.map_map] at hmapped
        exact hmapped.trans (List.Perm.of_eq (List.map_id h.entries))
      have hnodup : (records.map entry).NodupKeys := (List.perm_nodupKeys hentries).mpr h.nodupKeys
      calc (fromSarama records).lookup key
          = ((records.map entry).foldl (fun headers e => headers.insert e.1 e.2) ∅ :
              GoMap String Bytes).lookup key := by rw [fromSarama, List.foldl_map]
        _ = (records.map entry).dlookup key := by
              rw [lookup_foldl_insert hnodup, AList.lookup_empty, Option.or_none]
        _ = h.entries.dlookup key := List.perm_dlookup key hnodup hentries

theorem arrives_iff (h : Headers) (read : String → Option Bytes) :
    h.Arrives read ↔ ∀ key, h.value key = read key := by
  constructor
  · intro harrives key
    rw [← harrives _ (List.Perm.refl _) key, lookup_fromSarama (List.Perm.refl _)]
  · intro hread records hperm key
    rw [lookup_fromSarama hperm, hread]

end Headers

/-! ### The maps that are written -/

namespace HeaderMaps

variable {base maps : HeaderMaps} {target : Nat}

/-- Copying key by key is one change of the target. -/
theorem assign_eq (maps : HeaderMaps) (target : Nat) (source : HeaderRef) :
    maps.assign target source
      = maps.modify target fun m => Headers.copyInto m (maps.read source) := by
  have hfold : ∀ (entries : List (Sigma fun _ : String => Bytes)) (maps : HeaderMaps),
      entries.foldl (fun maps entry => maps.modify target fun m => m.insert entry.1 entry.2) maps
        = maps.modify target fun m =>
          entries.foldl (fun m entry => m.insert entry.1 entry.2) m := by
    intro entries
    induction entries with
    | nil => exact fun maps => (List.modify_id target maps).symm
    | cons entry entries ih =>
        intro maps
        rw [List.foldl_cons, ih, List.modify_modify_eq]
        rfl
  unfold assign
  cases maps.read source with
  | none => exact (List.modify_id target maps).symm
  | some source => exact hfold source.entries maps

def Valid (maps : HeaderMaps) (ref : HeaderRef) : Prop := ∀ r ∈ ref, r < maps.length

structure Keeps (base maps : HeaderMaps) : Prop where
  length_le : base.length ≤ maps.length
  same : ∀ r < base.length, maps[r]? = base[r]?

theorem Keeps.refl (maps : HeaderMaps) : Keeps maps maps := ⟨le_rfl, fun _ _ => rfl⟩

theorem Keeps.trans {middle : HeaderMaps} (h : Keeps base middle) (h' : Keeps middle maps) :
    Keeps base maps :=
  ⟨h.length_le.trans h'.length_le,
    fun r hr => (h'.same r (hr.trans_le h.length_le)).trans (h.same r hr)⟩

theorem Keeps.read_eq (h : Keeps base maps) {ref : HeaderRef} (hvalid : Valid base ref) :
    maps.read ref = base.read ref := by
  cases ref with
  | none => rfl
  | some r => exact h.same r (hvalid r rfl)

theorem Keeps.valid (h : Keeps base maps) {ref : HeaderRef} (hvalid : Valid base ref) :
    Valid maps ref :=
  fun r hr => (hvalid r hr).trans_le h.length_le

theorem keeps_make (maps : HeaderMaps) : Keeps maps (maps ++ [∅]) :=
  ⟨by simp, fun _ hr => List.getElem?_append_left hr⟩

theorem keeps_assign (htarget : base.length ≤ target) (h : Keeps base maps) (source : HeaderRef) :
    Keeps base (maps.assign target source) := by
  rw [assign_eq]
  refine ⟨h.length_le.trans (List.length_modify ..).ge, fun r hr => ?_⟩
  rw [List.getElem?_modify_ne _ _ (by omega), h.same r hr]

theorem length_assign (maps : HeaderMaps) (target : Nat) (source : HeaderRef) :
    (maps.assign target source).length = maps.length := by
  rw [assign_eq, List.length_modify]

theorem read_assign {m : GoMap String Bytes} (htarget : maps.read (some target) = some m)
    (source : HeaderRef) :
    (maps.assign target source).read (some target) = some
    (Headers.copyInto m (maps.read source)) := by
  rw [read, Option.bind_some] at htarget
  rw [assign_eq, read, Option.bind_some, List.getElem?_modify_eq, htarget]
  rfl

theorem read_make (maps : HeaderMaps) :
    HeaderMaps.read (maps ++ [∅]) (some maps.length) = some ∅ := by
  simp [read]

/-- `Merged` writes into a map of its own. -/
theorem merged_spec {d hdr : HeaderRef} (hd : Valid maps d) (hhdr : Valid maps hdr) :
    Keeps maps (maps.merged d [hdr]).1 ∧
      (maps.merged d [hdr]).1.read (maps.merged d [hdr]).2
        = (maps.read d).merged (maps.read hdr) := by
  have hmake := keeps_make maps
  have hfirst := keeps_assign le_rfl hmake d
  have hsecond := keeps_assign le_rfl hfirst hdr
  have hread : (assign (assign (maps ++ [∅]) maps.length d) maps.length hdr).read (some maps.length)
      = some (Headers.copyInto (Headers.copyInto ∅ (maps.read d)) (maps.read hdr)) := by
    rw [read_assign (read_assign (read_make maps) d), hmake.read_eq hd, hfirst.read_eq hhdr]
  refine ⟨hsecond, ?_⟩
  unfold merged Headers.merged
  simp only [List.foldl_cons, List.foldl_nil, hread, Option.all_some, decide_eq_true_eq]
  split
  · rfl
  · exact hread

/-- The options collect their headers in a map of their own. -/
theorem applyOptions_spec (base : HeaderMaps) (options : List HeaderRef)
    (hoptions : ∀ hdr ∈ options, Valid base hdr) :
    Keeps base (base.applyOptions options).1 ∧
      Valid (base.applyOptions options).1 (base.applyOptions options).2 ∧
      (∀ r ∈ (base.applyOptions options).2, base.length ≤ r) ∧
      (base.applyOptions options).1.read (base.applyOptions options).2
        = Headers.ofOptions (options.map base.read) := by
  induction options using List.reverseRecOn with
  | nil => exact ⟨Keeps.refl base, nofun, nofun, rfl⟩
  | append_singleton options hdr ih =>
      obtain ⟨hbefore, hlast⟩ := List.forall_mem_append.mp hoptions
      have hhdr : Valid base hdr := hlast hdr (List.mem_singleton_self hdr)
      obtain ⟨hkeeps, hvalid, hfresh, hread⟩ := ih hbefore
      have hnext : base.applyOptions (options ++ [hdr])
          = withCtxEmitHeaders (base.applyOptions options).1 (base.applyOptions options).2 hdr := by
        rw [applyOptions, List.foldl_append]
        rfl
      have hof : Headers.ofOptions ((options ++ [hdr]).map base.read) = some (Headers.copyInto
          ((Headers.ofOptions (options.map base.read)).getD ∅) (base.read hdr)) := by
        rw [Headers.ofOptions, List.map_append, List.foldl_append]
        rfl
      rw [hnext, hof, ← hread]
      generalize (base.applyOptions options).1 = maps at *
      cases href : (base.applyOptions options).2 with
      | none =>
          have hmade := hkeeps.trans (keeps_make maps)
          refine ⟨keeps_assign hkeeps.length_le hmade hdr, ?_, ?_, ?_⟩
          · rintro r ⟨⟩
            rw [withCtxEmitHeaders, length_assign]
            simp
          · rintro r ⟨⟩
            exact hkeeps.length_le
          · rw [withCtxEmitHeaders, read_assign (read_make maps), hmade.read_eq hhdr]
            rfl
      | some target =>
          rw [href] at hvalid hfresh
          obtain ⟨m, hm⟩ : ∃ m, maps.read (some target) = some m :=
            ⟨_, List.getElem?_eq_getElem (hvalid target rfl)⟩
          refine ⟨keeps_assign (hfresh target rfl) hkeeps hdr, ?_, hfresh, ?_⟩
          · rintro r ⟨⟩
            rw [withCtxEmitHeaders, length_assign]
            exact hvalid target rfl
          · rw [withCtxEmitHeaders, read_assign hm, hkeeps.read_eq hhdr, hm]
            rfl

end HeaderMaps

/-! ### The operations of a context -/

section Context

variable {α Callback σ : Type} [TableStore σ]

def ContextOp.options : ContextOp α → List Headers
  | .emit _ _ _ options | .loopback _ _ options | .delete options | .setValue _ options => options
  | _ => []

def ContextOp.usesDefaults : ContextOp α → Bool
  | .emit .. | .loopback .. => true
  | _ => false

theorem ContextOp.value_headers (env : Env α Callback) (o : ContextOp α) (key : String) :
    (o.headers env).value key
      = if o.usesDefaults then Headers.configured env.emitterDefaultHeaders o.options key
        else o.options.reverse.findSome? fun h => h.value key := by
  cases o with
  | emit | loopback =>
      rw [headers, Headers.value_merged, Headers.value_ofOptions]
      rfl
  | delete options => exact Headers.value_ofOptions options key
  | setValue v options => exact Headers.value_ofOptions options key
  | _ => rfl

/-- The options alone are as configured exactly where they cover the defaults. -/
theorem Headers.options_eq_configured_iff (defaults : Headers) (options : List Headers) :
    (∀ key, (options.reverse.findSome? fun h => h.value key) = configured defaults options key) ↔
      ∀ key, defaults.value key ≠ none → ∃ hdr ∈ options, Headers.value hdr key ≠ none := by
  refine forall_congr' fun key => ?_
  have hnone : (options.reverse.findSome? fun h => h.value key) = none ↔
      ∀ hdr ∈ options, Headers.value hdr key = none := by
    simp [List.findSome?_eq_none_iff]
  unfold configured
  cases hoption : options.reverse.findSome? fun h => h.value key with
  | none =>
      have hall := hnone.mp hoption
      rw [Option.none_or]
      constructor
      · exact fun heq hne => absurd heq.symm hne
      · intro hcovered
        by_contra hne
        obtain ⟨hdr, hmem, hvalue⟩ := hcovered (Ne.symm hne)
        exact hvalue (hall hdr hmem)
  | some v =>
      refine iff_of_true rfl fun _ => ?_
      by_contra hno
      have hall : ∀ hdr ∈ options, Headers.value hdr key = none :=
        fun hdr hmem => not_not.mp fun hne => hno ⟨hdr, hmem, hne⟩
      exact Option.some_ne_none v (hoption.symm.trans (hnone.mpr hall))

theorem ContextOp.arrives_headers_iff (env : Env α Callback) (o : ContextOp α) :
    (o.headers env).Arrives (Headers.configured env.emitterDefaultHeaders o.options) ↔
      o.usesDefaults = true ∨ ∀ key, env.emitterDefaultHeaders.value key ≠ none →
        ∃ hdr ∈ o.options, Headers.value hdr key ≠ none := by
  simp only [Headers.arrives_iff, o.value_headers env]
  by_cases hdefaults : o.usesDefaults = true
  · exact iff_of_true (fun key => if_pos hdefaults) (Or.inl hdefaults)
  · rw [or_iff_right hdefaults, ← Headers.options_eq_configured_iff]
    exact forall_congr' fun key => by rw [if_neg hdefaults]

/-- The headers of every message arrive as configured exactly where the defaults are merged, or add
nothing; and nothing but new maps is written. -/
theorem headers_arrive_iff (env : Env α Callback) (s : OpState σ) (o : ContextOp α) :
    (∃ new, (s.perform env o).2.emitted = s.emitted ++ new ∧ ∀ e ∈ new,
      (e.headers.Arrives (Headers.configured env.emitterDefaultHeaders o.options) ↔
        o.usesDefaults = true ∨ ∀ key, env.emitterDefaultHeaders.value key ≠ none →
          ∃ hdr ∈ o.options, Headers.value hdr key ≠ none)) ∧
    ∀ (maps : HeaderMaps) (d : HeaderRef) (options : List HeaderRef), maps.Valid d →
      (∀ hdr ∈ options, maps.Valid hdr) →
      let collected := maps.applyOptions options
      let final := collected.1.merged d [collected.2]
      collected.1.read collected.2 = .ofOptions (options.map maps.read) ∧
        final.1.read final.2 = (maps.read d).merged (.ofOptions (options.map maps.read)) ∧
        collected.1.read d = maps.read d ∧ final.1.read d = maps.read d := by
  constructor
  · have hperform : s.perform env o = ((s.perform env o).1, (s.perform env o).2) := rfl
    obtain ⟨new, hemitted, hheaders⟩ := perform_emitted hperform
    refine ⟨new, hemitted, fun e he => ?_⟩
    rw [hheaders e he]
    exact o.arrives_headers_iff env
  · intro maps d options hd hoptions
    obtain ⟨hkeeps, hvalid, -, hread⟩ := maps.applyOptions_spec options hoptions
    obtain ⟨hkeeps', hread'⟩ := HeaderMaps.merged_spec (hkeeps.valid hd) hvalid
    rw [hread, hkeeps.read_eq hd] at hread'
    exact ⟨hread, hread', hkeeps.read_eq hd, (hkeeps.trans hkeeps').read_eq hd⟩

def tracedEnv : Env Bytes Unit :=
  { ContextRun.rawEnv with emitterDefaultHeaders := some (AList.singleton "origin" [49]) }

def tracedCall : Option String × OpState GroupTable :=
  (ContextRun.start ⟨"in", 0, 0, [97],
    some []⟩ (some ContextRun.emptyTable) false).toOpState.perform
    tracedEnv (.setValue (some [120]) [])

theorem setValue_drops_default_header :
    ∃ e ∈ tracedCall.2.emitted,
      ¬ e.headers.Arrives (Headers.configured tracedEnv.emitterDefaultHeaders []) := by
  have hemitted : tracedCall.2.emitted = [⟨"g-table", [97], some [120], none, false⟩] := rfl
  rw [hemitted]
  refine ⟨_, List.mem_singleton_self _, fun harrives => ?_⟩
  have horigin := (Headers.arrives_iff _ _).mp harrives "origin"
  exact absurd horigin (by decide)

end Context

end Goka

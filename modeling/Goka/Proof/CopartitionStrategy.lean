import Goka.CopartitionStrategy
import Goka.Library.Blocks
import Mathlib.Data.Finset.Sort

/-!
# The plan is a copartitioned partition of the work

The loops of `Plan` come through on copartitioned topics, and what they leave behind is one block of
the sorted partitions for every member, the same for each topic the member requests. Neighbouring
members share a block bound, which makes the blocks a cut of the partitions.
-/

namespace Goka

namespace CopartitioningStrategy

theorem elementsEqual_refl {α : Type} [DecidableEq α] (a : List α) : elementsEqual a a = true := by
  simp [elementsEqual]

theorem elementsEqual_of_toFinset_eq {α : Type} [DecidableEq α] {a b : List α} (ha : a.Nodup)
    (hb : b.Nodup) (h : a.toFinset = b.toFinset) : elementsEqual a b = true := by
  have hlength : a.length = b.length := by
    rw [← List.toFinset_card_of_nodup ha, ← List.toFinset_card_of_nodup hb, h]
  have hmem : ∀ p ∈ b, p ∈ a := by
    intro p hp
    rw [← List.mem_toFinset, h, List.mem_toFinset]
    exact hp
  simpa [elementsEqual, hlength] using hmem

/-! ### The loops that collect -/

/-- Loop (1) comes through, with the list that the topics were compared with. -/
inductive Collects : List (Sigma fun _ : String => List Int) → List Int → Prop where
  | nil : Collects [] []
  | skip {rest : List (Sigma fun _ : String => List Int)} {reference : List Int} (topic : String)
      (hrest : Collects rest reference) : Collects (⟨topic, []⟩ :: rest) reference
  | compare {rest : List (Sigma fun _ : String => List Int)} {reference : List Int} (topic : String)
      (hreference : reference ≠ [])
      (hrest : ∀ entry ∈ rest, partitionsEqual reference entry.2 = true) :
      Collects (⟨topic, reference⟩ :: rest) reference

/-- Behind the first list with a partition in it. -/
theorem collectTopics_of_ne_nil {reference : List Int} (hreference : reference ≠ [])
    (entries : List (Sigma fun _ : String => List Int)) (allTopics : List String) :
    (∀ entry ∈ entries, partitionsEqual reference entry.2 = true) ∧
        collectTopics entries reference allTopics = .ok (reference, allTopics ++
          entries.map Sigma.fst) ∨
      (∃ entry ∈ entries, partitionsEqual reference entry.2 = false) ∧
        ∃ text, collectTopics entries reference allTopics = .error text := by
  have hlength : reference.length ≠ 0 := mt List.length_eq_zero_iff.mp hreference
  induction entries generalizing allTopics with
  | nil => exact .inl ⟨fun _ hentry => absurd hentry List.not_mem_nil, by simp [collectTopics]⟩
  | cons entry rest ih =>
      obtain ⟨topic, topicPartitions⟩ := entry
      rw [collectTopics, if_neg hlength]
      cases hequal : partitionsEqual reference topicPartitions with
      | false => exact .inr ⟨⟨_, List.mem_cons_self, hequal⟩, _, if_pos rfl⟩
      | true =>
          rw [Bool.not_true, if_neg Bool.false_ne_true]
          rcases ih (allTopics ++ [topic]) with ⟨hall, hok⟩ | ⟨⟨entry, hentry, hother⟩, herror⟩
          · refine .inl ⟨List.forall_mem_cons.mpr ⟨hequal, hall⟩, ?_⟩
            rw [hok, List.append_assoc]
            rfl
          · exact .inr ⟨⟨entry, List.mem_cons_of_mem _ hentry, hother⟩, herror⟩

/-- Loop (1) compares each list with the first one that has partitions, and stops at the first that
differs. -/
theorem collectTopics_cases (entries : List (Sigma fun _ : String => List Int))
    (allTopics : List String) :
    (∃ reference, Collects entries reference ∧
        collectTopics entries [] allTopics = .ok (reference, allTopics ++ entries.map Sigma.fst)) ∨
      (∀ reference, ¬ Collects entries reference) ∧
        ∃ text, collectTopics entries [] allTopics = .error text := by
  induction entries generalizing allTopics with
  | nil => exact .inl ⟨[], .nil, by simp [collectTopics]⟩
  | cons entry rest ih =>
      obtain ⟨topic, topicPartitions⟩ := entry
      rw [collectTopics, if_pos List.length_nil]
      rcases eq_or_ne topicPartitions [] with rfl | hne
      · rcases ih (allTopics ++ [topic]) with ⟨reference, hcollects, hok⟩ | ⟨hnot, herror⟩
        · refine .inl ⟨reference, .skip topic hcollects, ?_⟩
          rw [hok, List.append_assoc]
          rfl
        · refine .inr ⟨fun reference hcollects => ?_, herror⟩
          cases hcollects with
          | skip _ hrest => exact hnot reference hrest
          | compare _ hreference _ => exact hreference rfl
      · rcases collectTopics_of_ne_nil hne rest (allTopics ++ [topic]) with
          ⟨hall, hok⟩ | ⟨⟨entry, hentry, hother⟩, herror⟩
        · refine .inl ⟨topicPartitions, .compare topic hne hall, ?_⟩
          rw [hok, List.append_assoc]
          rfl
        · refine .inr ⟨fun reference hcollects => ?_, herror⟩
          cases hcollects with
          | skip _ _ => exact hne rfl
          | compare _ _ hrest => exact Bool.false_ne_true (hother.symm.trans (hrest entry hentry))

theorem Collects.unique {entries : List (Sigma fun _ : String => List Int)}
    {reference reference' : List Int} (h : Collects entries reference)
    (h' : Collects entries reference') : reference = reference' := by
  induction h with
  | nil =>
      cases h'
      rfl
  | skip topic hrest ih =>
      cases h' with
      | skip _ hrest' => exact ih hrest'
      | compare _ hreference _ => exact absurd rfl hreference
  | compare topic hreference hrest =>
      cases h' with
      | skip _ _ => exact absurd rfl hreference
      | compare _ _ _ => rfl

/-- The lists all are empty, or one of them was compared with the others. -/
theorem Collects.cases {entries : List (Sigma fun _ : String => List Int)} {reference : List Int}
    (h : Collects entries reference) :
    (reference = [] ∧ ∀ entry ∈ entries, entry.2 = []) ∨
      (∃ entry ∈ entries, entry.2 = reference) ∧ reference ≠ [] ∧
        ∀ entry ∈ entries, entry.2 ≠ [] → partitionsEqual reference entry.2 = true := by
  induction h with
  | nil => exact .inl ⟨rfl, fun _ hentry => absurd hentry List.not_mem_nil⟩
  | skip topic hrest ih =>
      rcases ih with ⟨rfl, hempty⟩ | ⟨⟨entry, hentry, heq⟩, hne, hequal⟩
      · exact .inl ⟨rfl, List.forall_mem_cons.mpr ⟨rfl, hempty⟩⟩
      · refine .inr ⟨⟨entry, List.mem_cons_of_mem _ hentry, heq⟩, hne, ?_⟩
        exact List.forall_mem_cons.mpr ⟨fun h => absurd rfl h, hequal⟩
  | compare topic hreference hrest =>
      refine .inr ⟨⟨_, List.mem_cons_self, rfl⟩, hreference, List.forall_mem_cons.mpr ⟨?_, ?_⟩⟩
      · exact fun _ => elementsEqual_refl _
      · exact fun entry hentry _ => hrest entry hentry

theorem collects_of_copartitioned {P : Finset Int}
    {entries : List (Sigma fun _ : String => List Int)} (hsome : entries ≠ [])
    (hnonempty : P.Nonempty) (hentries : ∀ entry ∈ entries, entry.2.Nodup ∧ entry.2.toFinset = P) :
    ∃ reference, Collects entries reference ∧ reference.Nodup ∧ reference.toFinset = P := by
  obtain ⟨⟨topic, reference⟩, rest, rfl⟩ := List.exists_cons_of_ne_nil hsome
  obtain ⟨⟨hnodup, hset⟩, hrest⟩ := List.forall_mem_cons.mp hentries
  refine ⟨reference, .compare topic ?_ fun entry hentry => ?_, hnodup, hset⟩
  · rintro rfl
    exact hnonempty.ne_empty hset.symm
  · obtain ⟨hnodup', hset'⟩ := hrest entry hentry
    exact elementsEqual_of_toFinset_eq hnodup hnodup' (hset.trans hset'.symm)

/-- What loop (2) checks, which is nothing for the tolerant strategy. -/
def Consistent (s : CopartitioningStrategy) (members : GoMap String MemberMetadata)
    (topics : GoMap String (List Int)) : Prop :=
  s.failOnInconsistentTopics = true →
    ∀ entry ∈ members.entries, topicsEqual topics.keys entry.2.topics = true

theorem collectMembers_cases (s : CopartitioningStrategy) (allTopics : List String)
    (entries : List (Sigma fun _ : String => MemberMetadata)) (allMembers : List String) :
    (s.failOnInconsistentTopics = true →
          ∀ entry ∈ entries, topicsEqual allTopics entry.2.topics = true) ∧
        s.collectMembers allTopics entries allMembers = .ok (allMembers ++ entries.map Sigma.fst) ∨
      (¬ (s.failOnInconsistentTopics = true →
          ∀ entry ∈ entries, topicsEqual allTopics entry.2.topics = true)) ∧
        ∃ text, s.collectMembers allTopics entries allMembers = .error text := by
  induction entries generalizing allMembers with
  | nil => exact .inl ⟨fun _ _ hentry => absurd hentry List.not_mem_nil, by simp [collectMembers]⟩
  | cons entry rest ih =>
      obtain ⟨memberID, metadata⟩ := entry
      rw [collectMembers, List.forall_mem_cons]
      by_cases hfails : (!topicsEqual allTopics metadata.topics && s.failOnInconsistentTopics)
        = true
      · rw [if_pos hfails]
        obtain ⟨hother, hstrict⟩ := Bool.and_eq_true_iff.mp hfails
        refine .inr ⟨fun hall => ?_, _, rfl⟩
        have hequal : topicsEqual allTopics metadata.topics = true := (hall hstrict).1
        rw [hequal] at hother
        exact Bool.false_ne_true hother
      · rw [if_neg hfails]
        have hhead : s.failOnInconsistentTopics = true →
            topicsEqual allTopics metadata.topics = true := by
          intro hstrict
          by_contra hother
          exact hfails (Bool.and_eq_true_iff.mpr
            ⟨(Bool.not_eq_true' _).mpr (Bool.eq_false_iff.mpr hother), hstrict⟩)
        rcases ih (allMembers ++ [memberID]) with ⟨hall, hok⟩ | ⟨hnot, herror⟩
        · refine .inl ⟨fun hstrict => ⟨hhead hstrict, hall hstrict⟩, ?_⟩
          rw [hok, List.append_assoc]
          rfl
        · exact .inr ⟨fun hall => hnot fun hstrict => (hall hstrict).2, herror⟩

/-! ### What the assignment loop leaves behind -/

theorem add_apply (plan : BalanceStrategyPlan) (memberID topic m t : String)
    (partitions : List Int) :
    plan.add memberID topic partitions m t
      = if m = memberID ∧ t = topic then plan m t ++ partitions else plan m t := by
  unfold BalanceStrategyPlan.add
  by_cases hm : m = memberID
  · subst hm
    by_cases ht : t = topic
    · subst ht
      simp
    · simp [ht]
  · simp [hm]

def given (requests : List String) (block : List Int) (t : String) : List Int :=
  (List.replicate (requests.count t) block).flatten

theorem given_cons (topic : String) (requests : List String) (block : List Int) (t : String) :
    given (topic :: requests) block t
      = (if t = topic then block else []) ++ given requests block t := by
  unfold given
  by_cases ht : t = topic
  · subst ht
    simp [List.replicate_succ]
  · rw [List.count_cons_of_ne (Ne.symm ht), if_neg ht, List.nil_append]

theorem given_of_notMem {requests : List String} {t : String} (h : t ∉ requests)
    (block : List Int) :
    given requests block t = [] := by
  rw [given, List.count_eq_zero_of_not_mem h]
  rfl

theorem given_of_nodup {requests : List String} (h : requests.Nodup) (block : List Int)
    (t : String) :
    given requests block t = if t ∈ requests then block else [] := by
  split
  · next ht =>
      rw [given, List.count_eq_one_of_mem h ht]
      exact List.flatten_singleton
  · next ht => exact given_of_notMem ht block

/-- One member: every topic gets the block appended for each request. -/
theorem foldlM_add {allPartitions block : List Int} {min max : Int}
    (hslice : sliceList allPartitions min max = .ok block) (requests : List String)
    (memberID : String) (plan : BalanceStrategyPlan) :
    ∃ plan', requests.foldlM (fun plan topic => do
          let partitions ← sliceList allPartitions min max
          pure (plan.add memberID topic partitions)) plan = Outcome.ok plan' ∧
      ∀ m t, plan' m t = if m = memberID then plan m t ++ given requests block t else plan m t := by
  induction requests generalizing plan with
  | nil => exact ⟨plan, rfl, by simp [given]⟩
  | cons topic requests ih =>
      obtain ⟨plan', hrun, hplan'⟩ := ih (plan.add memberID topic block)
      refine ⟨plan', ?_, ?_⟩
      · simpa [List.foldlM_cons, hslice] using hrun
      · intro m t
        rw [hplan', add_apply, given_cons]
        by_cases hm : m = memberID
        · by_cases ht : t = topic
          · simp [hm, ht]
          · simp [hm, ht]
        · simp [hm]

theorem sliceList_block {α : Type} {l : List α} {cut : Nat → Nat} {i : Nat}
    (hmono : cut i ≤ cut (i + 1)) (hle : cut (i + 1) ≤ l.length) :
    sliceList l (cut i) (cut (i + 1)) = .ok (Blocks.block l cut i) := by
  rw [sliceList, if_pos (by omega)]
  rfl

/-- Along increasing cuts no slice is out of range, and each member gets what lies between two of
them. -/
theorem assign_ok (members : GoMap String MemberMetadata) {allPartitions : List Int}
    {bound : Nat → Int} {cut : Nat → Nat} {last : Nat} (hcut : ∀ i ≤ last, bound i = cut i)
    (hmono : ∀ i < last, cut i ≤ cut (i + 1)) (hle : ∀ i ≤ last, cut i ≤ allPartitions.length)
    {ids : List String} (hnodup : ids.Nodup) (idx : Nat) (hlast : idx + ids.length = last)
    (plan : BalanceStrategyPlan) :
    ∃ plan', assign members allPartitions bound ids idx plan = .ok plan' ∧
      ∀ m t, plan' m t = if m ∈ ids then
          plan m t ++ given (memberTopics members m)
            (Blocks.block allPartitions cut (idx + ids.idxOf m)) t
        else plan m t := by
  induction ids generalizing idx plan with
  | nil => exact ⟨plan, rfl, by simp⟩
  | cons memberID ids ih =>
      obtain ⟨hfresh, hnodup⟩ := List.nodup_cons.mp hnodup
      rw [List.length_cons] at hlast
      have hslice : sliceList allPartitions (bound idx) (bound (idx + 1))
          = .ok (Blocks.block allPartitions cut idx) := by
        rw [hcut idx (by omega), hcut (idx + 1) (by omega)]
        exact sliceList_block (hmono idx (by omega)) (hle (idx + 1) (by omega))
      obtain ⟨plan₁, hrun₁, hplan₁⟩ :=
        foldlM_add hslice (memberTopics members memberID) memberID plan
      obtain ⟨plan₂, hrun₂, hplan₂⟩ := ih hnodup (idx + 1) (by omega) plan₁
      refine ⟨plan₂, ?_, ?_⟩
      · simp only [assign]
        rw [hrun₁, Outcome.ok_bind]
        exact hrun₂
      · intro m t
        rw [hplan₂, hplan₁]
        by_cases hm : m = memberID
        · subst hm
          simp [hfresh]
        · have hidx : (memberID :: ids).idxOf m = ids.idxOf m + 1 :=
            List.idxOf_cons_ne _ (Ne.symm hm)
          have hshift : idx + (ids.idxOf m + 1) = idx + 1 + ids.idxOf m := by omega
          simp [hm, hidx, hshift]

theorem sublist_of_sliceList {α : Type} {l part : List α} {min max : Int}
    (h : sliceList l min max = .ok part) : part.Sublist l := by
  unfold sliceList at h
  split at h
  · obtain rfl := Outcome.ok.inj h
    exact (List.take_sublist _ _).trans (List.drop_sublist _ _)
  · cases h

/-- One member, whatever the bounds: if nothing panics, its topics are given one part of the
partitions. -/
theorem exists_block {allPartitions : List Int} {min max : Int} {requests : List String}
    {memberID : String}
    {plan plan' : BalanceStrategyPlan}
    (h : requests.foldlM (fun plan topic => do
        let partitions ← sliceList allPartitions min max
        pure (plan.add memberID topic partitions)) plan = Outcome.ok plan') :
    ∃ block : List Int, block.Sublist allPartitions ∧
      ∀ m t, plan' m t = if m = memberID then plan m t ++ given requests block t else plan m t := by
  cases requests with
  | nil =>
      obtain rfl := Outcome.ok.inj h
      exact ⟨[], List.nil_sublist _, by simp [given]⟩
  | cons topic requests =>
      rw [List.foldlM_cons] at h
      obtain ⟨first, hfirst, -⟩ := Outcome.bind_eq_ok.mp h
      obtain ⟨block, hslice, -⟩ := Outcome.bind_eq_ok.mp hfirst
      obtain ⟨plan₁, hrun, hplan⟩ := foldlM_add hslice (topic :: requests) memberID plan
      rw [List.foldlM_cons] at hrun
      obtain rfl := Outcome.ok.inj (hrun.symm.trans h)
      exact ⟨block, sublist_of_sliceList hslice, hplan⟩

/-- Whatever the bounds, a plan that is made gives each member parts of the partitions. -/
theorem assign_eq_ok {members : GoMap String MemberMetadata} {allPartitions : List Int}
    {bound : Nat → Int} {ids : List String} (hnodup : ids.Nodup) {idx : Nat}
    {plan plan' : BalanceStrategyPlan}
    (h : assign members allPartitions bound ids idx plan = .ok plan') :
    ∃ block : String → List Int, (∀ m, (block m).Sublist allPartitions) ∧
      ∀ m t, plan' m t = if m ∈ ids then plan m t ++ given (memberTopics members m) (block m) t
        else plan m t := by
  induction ids generalizing idx plan with
  | nil =>
      obtain rfl := Outcome.ok.inj h
      exact ⟨fun _ => [], fun _ => List.nil_sublist _, by simp⟩
  | cons memberID ids ih =>
      obtain ⟨hfresh, hnodup⟩ := List.nodup_cons.mp hnodup
      obtain ⟨plan₁, hrun₁, hrun₂⟩ := Outcome.bind_eq_ok.mp h
      obtain ⟨first, hfirst, hplan₁⟩ := exists_block hrun₁
      obtain ⟨block, hblock, hplan₂⟩ := ih hnodup hrun₂
      refine ⟨Function.update block memberID first, fun m => ?_, fun m t => ?_⟩
      · by_cases hm : m = memberID
        · rw [hm, Function.update_self]
          exact hfirst
        · rw [Function.update_of_ne hm]
          exact hblock m
      · rw [hplan₂, hplan₁]
        by_cases hm : m = memberID
        · subst hm
          simp [hfresh]
        · simp [hm]

/-! ### The blocks of the members -/

structure Cuts (bounds : BlockBounds) (partitions members : Nat) : Prop where
  nonneg : ∀ i ≤ members, 0 ≤ bounds partitions members i
  mono : ∀ i < members, bounds partitions members i ≤ bounds partitions members (i + 1)
  le : ∀ i ≤ members, bounds partitions members i ≤ partitions

/-- So do bounds that are rounded, as `float64` rounds them. -/
theorem cuts_roundedBounds (r : Rounding) {partitions : Nat} (hpartitions : partitions < 2 ^ 50)
    (members : Nat) :
    Cuts (roundedBounds r) partitions members where
  nonneg _ _ := r.position_nonneg
  mono i _ := by
    exact r.position_mono (Nat.le_succ i)
  le _ hi := r.position_le hpartitions hi

/-- Rounding half up never steps back, and ends at the number of partitions. -/
theorem cuts_exactBounds (partitions members : Nat) : Cuts exactBounds partitions members := by
  rcases Nat.eq_zero_or_pos members with rfl | hpos
  · have hzero : ∀ i, exactBounds partitions 0 i = 0 := fun i => by
      simp only [exactBounds, Nat.cast_zero, div_zero, mul_zero]
      norm_num
    refine ⟨fun i _ => (hzero i).ge, fun i hi => absurd hi (Nat.not_lt_zero i), fun i _ => ?_⟩
    rw [hzero]
    exact Int.natCast_nonneg _
  · have hbound : ∀ i, exactBounds partitions members i = Blocks.bound partitions members i :=
      fun i => Blocks.floor_eq_bound hpos
    refine ⟨fun i _ => ?_, fun i _ => ?_, fun i hi => ?_⟩
    · rw [hbound]
      exact Int.natCast_nonneg _
    · rw [hbound, hbound]
      exact_mod_cast Blocks.bound_mono (Nat.le_succ i)
    · rw [hbound]
      exact_mod_cast Blocks.bound_le hpos hi

variable {members : GoMap String MemberMetadata}

def memberOrder (members : GoMap String MemberMetadata) : List String :=
  members.keys.insertionSort (· ≤ ·)

def sortedPartitions (P : Finset Int) : List Int := P.sort (· ≤ ·)

def memberBlock (members : GoMap String MemberMetadata) (P : Finset Int) (memberID : String) :
    List Int :=
  Blocks.block (sortedPartitions P) (Blocks.bound P.card (memberOrder members).length)
    ((memberOrder members).idxOf memberID)

theorem length_sortedPartitions (P : Finset Int) : (sortedPartitions P).length = P.card :=
  Finset.length_sort _

theorem nodup_memberOrder : (memberOrder members).Nodup :=
  (List.perm_insertionSort _ _).nodup_iff.mpr members.nodupKeys

theorem mem_memberOrder {m : String} : m ∈ memberOrder members ↔ m ∈ members :=
  (List.mem_insertionSort _).trans AList.mem_keys.symm

theorem memberTopics_of_notMem {m : String} (h : m ∉ members) : memberTopics members m = [] := by
  rw [memberTopics, AList.lookup_eq_none.mpr h]
  rfl

theorem nodup_memberTopics
    (hrequests : ∀ m metadata, members.lookup m = some metadata → metadata.topics.Nodup)
    (m : String) :
    (memberTopics members m).Nodup := by
  unfold memberTopics
  cases hm : members.lookup m with
  | none => exact List.nodup_nil
  | some metadata => exact hrequests m metadata hm

theorem memberOrder_length_pos (hmembers : members.entries ≠ []) :
    0 < (memberOrder members).length := by
  rw [memberOrder, List.length_insertionSort]
  exact List.length_pos_of_ne_nil (mt List.map_eq_nil_iff.mp hmembers)

/-- The part of a sorted list of partitions that falls to a member. -/
def rangeBlock (bounds : BlockBounds) (members : GoMap String MemberMetadata)
    (partitions : List Int) (memberID : String) : List Int :=
  Blocks.block partitions (fun i => (bounds partitions.length (memberOrder members).length i).toNat)
    ((memberOrder members).idxOf memberID)

def rangePlan (bounds : BlockBounds) (members : GoMap String MemberMetadata)
    (partitions : List Int) :
    BalanceStrategyPlan :=
  fun m t => given (memberTopics members m) (rangeBlock bounds members partitions m) t

variable {bounds : BlockBounds}

theorem rangeBlock_sortedPartitions (hpos : 0 < (memberOrder members).length) (P : Finset Int)
    (m : String) :
    rangeBlock exactBounds members (sortedPartitions P) m = memberBlock members P m := by
  rw [rangeBlock, length_sortedPartitions, memberBlock]
  congr 1
  funext i
  rw [exactBounds, Blocks.floor_eq_bound hpos, Int.toNat_natCast]

theorem rangePlan_of_notMem {m : String} (hm : m ∉ members) (partitions : List Int) (t : String) :
    rangePlan bounds members partitions m t = [] := by
  rw [rangePlan, memberTopics_of_notMem hm]
  rfl

theorem assign_memberOrder (members : GoMap String MemberMetadata) {partitions : List Int}
    (hcuts : Cuts bounds partitions.length (memberOrder members).length) :
    assign members partitions (bounds partitions.length (memberOrder members).length)
      (memberOrder members) 0 (fun _ _ => []) = .ok (rangePlan bounds members partitions) := by
  have hcut : ∀ i ≤ (memberOrder members).length,
      bounds partitions.length (memberOrder members).length i
      = ((bounds partitions.length (memberOrder members).length i).toNat : Int) :=
    fun i hi => (Int.toNat_of_nonneg (hcuts.nonneg i hi)).symm
  obtain ⟨plan, hassign, hplan⟩ :=
    assign_ok members hcut (fun i hi => Int.toNat_le_toNat (hcuts.mono i hi))
    (fun i hi => Int.toNat_le.mpr (hcuts.le i hi)) nodup_memberOrder 0 (Nat.zero_add _) fun _ _ =>
      []
  rw [hassign]
  congr 1
  funext m t
  rw [hplan]
  split
  · rw [List.nil_append, Nat.zero_add]
    rfl
  · next hm => exact (rangePlan_of_notMem (mt mem_memberOrder.mpr hm) partitions t).symm

/-! ### What a run of `Plan` returns -/

section Plan

variable {topics : GoMap String (List Int)} {s : CopartitioningStrategy}

/-- `Plan` succeeds where both checks pass, and fails with the message of the one that does not. -/
theorem plan_cases (s : CopartitioningStrategy) (bounds : BlockBounds)
    (members : GoMap String MemberMetadata) (topics : GoMap String (List Int)) :
    (∃ reference, Collects topics.entries reference ∧ Consistent s members topics ∧
        s.plan bounds members topics = assign members (reference.insertionSort (· ≤ ·))
          (bounds (reference.insertionSort (· ≤ ·)).length (memberOrder members).length)
          (memberOrder members) 0 fun _ _ => []) ∨
      ((∀ reference, ¬ Collects topics.entries reference) ∨ ¬ Consistent s members topics) ∧
        ∃ text, s.plan bounds members topics = .error text := by
  unfold CopartitioningStrategy.plan
  rcases collectTopics_cases topics.entries [] with
    ⟨reference, hcollects, hok⟩ | ⟨hnot, text, herror⟩
  · rw [hok, Outcome.ok_bind, List.nil_append]
    dsimp only
    rcases collectMembers_cases s (topics.entries.map Sigma.fst) members.entries [] with
      ⟨hconsistent, hok⟩ | ⟨hnot, text, herror⟩
    · rw [hok, Outcome.ok_bind]
      exact .inl ⟨reference, hcollects, hconsistent, rfl⟩
    · rw [herror]
      exact .inr ⟨.inr hnot, text, rfl⟩
  · rw [herror]
    exact .inr ⟨.inl hnot, text, rfl⟩

theorem plan_of_collects {reference : List Int} (hcollects : Collects topics.entries reference)
    (hconsistent : Consistent s members topics)
    (hcuts : Cuts bounds reference.length (memberOrder members).length) :
    s.plan bounds members topics
      = .ok (rangePlan bounds members (reference.insertionSort (· ≤ ·))) := by
  rcases plan_cases s bounds members topics with
    ⟨reference', hcollects', -, hassign⟩ | ⟨hnot | hnot, -⟩
  · rw [hassign, ← hcollects.unique hcollects']
    refine assign_memberOrder members ?_
    rw [List.length_insertionSort]
    exact hcuts
  · exact absurd hcollects (hnot reference)
  · exact absurd hconsistent hnot

theorem plan_eq_error
    (h : (∀ reference, ¬ Collects topics.entries reference) ∨ ¬ Consistent s members topics) :
    ∃ text, s.plan bounds members topics = .error text := by
  rcases plan_cases s bounds members topics with
    ⟨reference, hcollects, hconsistent, -⟩ | ⟨-, herror⟩
  · rcases h with hnot | hnot
    · exact absurd hcollects (hnot reference)
    · exact absurd hconsistent hnot
  · exact herror

/-- On copartitioned topics. -/
theorem plan_eq {P : Finset Int} (htolerant : s.failOnInconsistentTopics = false)
    (hpos : 0 < (memberOrder members).length) (htopics : topics.entries ≠ [])
    (hnonempty : P.Nonempty)
    (hrequests : ∀ m, (memberTopics members m).Nodup)
    (hcopartitioned : ∀ t partitions, topics.lookup t = some partitions →
      partitions.Nodup ∧ partitions.toFinset = P) :
    ∃ plan, s.plan exactBounds members topics = .ok plan ∧
      ∀ m t, plan m t = if t ∈ memberTopics members m then memberBlock members P m else [] := by
  have hentries : ∀ entry ∈ topics.entries, entry.2.Nodup ∧ entry.2.toFinset = P := by
    rintro ⟨t, partitions⟩ hentry
    exact hcopartitioned t partitions (AList.mem_lookup_iff.mpr hentry)
  obtain ⟨reference, hcollects, hnodup, hset⟩ :=
    collects_of_copartitioned htopics hnonempty hentries
  have hsorted : reference.insertionSort (· ≤ ·) = sortedPartitions P := by
    refine List.Perm.eq_of_pairwise' (List.pairwise_insertionSort _ _) (P.pairwise_sort _) ?_
    refine (List.perm_insertionSort _ _).trans ?_
    rw [← hset]
    exact (List.toFinset_toList hnodup).symm.trans (Finset.sort_perm_toList _ _).symm
  have hconsistent : Consistent s members topics :=
    fun hstrict => absurd (htolerant.symm.trans hstrict) Bool.false_ne_true
  refine ⟨_, plan_of_collects hcollects hconsistent (cuts_exactBounds _ _), fun m t => ?_⟩
  rw [hsorted, rangePlan, rangeBlock_sortedPartitions hpos]
  exact given_of_nodup (hrequests m) _ t

/-- Whenever a plan is made, it gives a member the same block for each topic it requests. -/
theorem plan_eq_ok {plan : BalanceStrategyPlan} (hrequests : ∀ m, (memberTopics members m).Nodup)
    (hpartitions : ∀ t partitions, topics.lookup t = some partitions → partitions.Nodup)
    (hplan : s.plan bounds members topics = .ok plan) :
    ∃ block : String → List Int, (∀ m, (block m).Nodup) ∧
      ∀ m t, plan m t = if t ∈ memberTopics members m then block m else [] := by
  rcases plan_cases s bounds members topics with
    ⟨reference, hcollects, -, hassign⟩ | ⟨-, text, herror⟩
  · obtain ⟨block, hblock, hgiven⟩ := assign_eq_ok nodup_memberOrder (hassign.symm.trans hplan)
    have hnodup : reference.Nodup := by
      rcases hcollects.cases with ⟨rfl, -⟩ | ⟨⟨⟨t, partitions⟩, hentry, rfl⟩, -⟩
      · exact List.nodup_nil
      · exact hpartitions t _ (AList.mem_lookup_iff.mpr hentry)
    have hsorted := (List.perm_insertionSort (· ≤ ·) reference).nodup_iff.mpr hnodup
    refine ⟨block, fun m => hsorted.sublist (hblock m), fun m t => ?_⟩
    rw [hgiven]
    split
    · rw [List.nil_append]
      exact given_of_nodup (hrequests m) _ t
    · next hm =>
        rw [memberTopics_of_notMem (mt mem_memberOrder.mpr hm)]
        exact (if_neg List.not_mem_nil).symm
  · cases herror.symm.trans hplan

end Plan

/-- The blocks of the members, one behind the other, are the sorted partitions. -/
theorem flatMap_memberBlock (hpos : 0 < (memberOrder members).length) (P : Finset Int) :
    (memberOrder members).flatMap (memberBlock members P) = sortedPartitions P := by
  have hindices : (memberOrder members).map (memberOrder members).idxOf
      = List.range (memberOrder members).length := by
    apply List.ext_getElem
    · simp
    · intro i hi _
      rw [List.getElem_map, List.getElem_range, nodup_memberOrder.idxOf_getElem]
  calc (memberOrder members).flatMap (memberBlock members P)
      = (List.range (memberOrder members).length).flatMap
          (Blocks.block (sortedPartitions P)
            (Blocks.bound P.card (memberOrder members).length)) := by
        rw [← hindices, List.flatMap_map]
        rfl
    _ = (sortedPartitions P).take (Blocks.bound P.card (memberOrder members).length
          (memberOrder members).length) :=
        Blocks.flatMap_block (Blocks.bound_zero hpos) (fun i => Blocks.bound_mono (Nat.le_succ i)) _
    _ = sortedPartitions P := by
        rw [Blocks.bound_last hpos]
        exact List.take_of_length_le (length_sortedPartitions P).le

theorem length_memberBlock {P : Finset Int} {m : String} (hm : m ∈ members) :
    (memberBlock members P m).length = P.card / (memberOrder members).length ∨
      (memberBlock members P m).length = P.card / (memberOrder members).length + 1 := by
  have hidx : (memberOrder members).idxOf m < (memberOrder members).length :=
    List.idxOf_lt_length_of_mem (mem_memberOrder.mpr hm)
  have hpos : 0 < (memberOrder members).length := by omega
  have hle : Blocks.bound P.card (memberOrder members).length
      ((memberOrder members).idxOf m + 1) ≤ P.card := Blocks.bound_le hpos hidx
  rw [memberBlock, Blocks.length_block (by rw [length_sortedPartitions]; exact hle)]
  rcases Blocks.bound_succ_sub (p := P.card) (i := (memberOrder members).idxOf m) hpos with h | h
  · left
    rw [h, Nat.add_sub_cancel_left]
  · right
    rw [h, Nat.add_assoc, Nat.add_sub_cancel_left]

theorem disjoint_memberBlock {P : Finset Int} {m m' : String} (hm : m ∈ members)
    (hm' : m' ∈ members) (hne : m ≠ m') :
    (memberBlock members P m).Disjoint (memberBlock members P m') := by
  have hpos : 0 < (memberOrder members).length :=
    List.length_pos_of_mem (mem_memberOrder.mpr hm)
  have hnodup : ((memberOrder members).flatMap (memberBlock members P)).Nodup := by
    rw [flatMap_memberBlock hpos]
    exact P.sort_nodup _
  have hpairwise := (List.nodup_flatMap.mp hnodup).2
  have : Std.Symm (Function.onFun List.Disjoint (memberBlock members P)) :=
    ⟨fun _ _ h => List.Disjoint.symm h⟩
  exact hpairwise.forall (mem_memberOrder.mpr hm) (mem_memberOrder.mpr hm') hne

theorem memberBlock_infix (P : Finset Int) (m : String) :
    memberBlock members P m <:+: sortedPartitions P :=
  (List.take_prefix _ _).isInfix.trans (List.drop_suffix _ _).isInfix

/-- What the rebalance plan owes the group: every member holds one block of the sorted partitions,
the same for each topic it requests, and the blocks cut the partitions evenly. -/
structure IsCopartition (members : GoMap String MemberMetadata) (P : Finset Int)
    (plan : BalanceStrategyPlan) (block : String → List Int) : Prop where
  same_block : ∀ m t, plan m t = if t ∈ memberTopics members m then block m else []
  contiguous : ∀ m ∈ members, block m <:+: sortedPartitions P
  concatenate : (memberOrder members).flatMap block = sortedPartitions P
  disjoint : ∀ m ∈ members, ∀ m' ∈ members, m ≠ m' → (block m).Disjoint (block m')
  balanced : ∀ m ∈ members, ∀ m' ∈ members, (block m).length ≤ (block m').length + 1
  one_owner : ∀ t p m m', p ∈ plan m t → p ∈ plan m' t → m = m'
  all_owned : ∀ t, (∀ m ∈ members, t ∈ memberTopics members m) → ∀ p ∈ P, ∃! m, p ∈ plan m t

/-- On copartitioned topics the tolerant strategy plans without error, and its plan is a
copartitioned partition of the work. The bounds are taken to be exact. -/
theorem plan_isCopartition (members : GoMap String MemberMetadata)
    (topics : GoMap String (List Int)) (P : Finset Int)
    (hmembers : members.entries ≠ []) (htopics : topics.entries ≠ []) (hnonempty : P.Nonempty)
    (hrequests : ∀ m metadata, members.lookup m = some metadata → metadata.topics.Nodup)
    (hcopartitioned : ∀ t partitions, topics.lookup t = some partitions →
      partitions.Nodup ∧ partitions.toFinset = P) :
    ∃ plan block, copartitioningStrategy.plan exactBounds members topics = .ok plan ∧
      IsCopartition members P plan block := by
  have hpos := memberOrder_length_pos hmembers
  obtain ⟨plan, hrun, hplan⟩ := plan_eq (s := copartitioningStrategy) rfl hpos htopics hnonempty
    (nodup_memberTopics hrequests) hcopartitioned
  have hconcat := flatMap_memberBlock hpos P
  -- only members have a block in the plan
  have howner : ∀ m t p, p ∈ plan m t → m ∈ members ∧ p ∈ memberBlock members P m := by
    intro m t p hp
    rw [hplan] at hp
    by_cases ht : t ∈ memberTopics members m
    · rw [if_pos ht] at hp
      refine ⟨?_, hp⟩
      by_contra hm
      rw [memberTopics_of_notMem hm] at ht
      exact absurd ht List.not_mem_nil
    · rw [if_neg ht] at hp
      exact absurd hp List.not_mem_nil
  have hunique : ∀ t p m m', p ∈ plan m t → p ∈ plan m' t → m = m' := by
    intro t p m m' hp hp'
    obtain ⟨hm, hblock⟩ := howner m t p hp
    obtain ⟨hm', hblock'⟩ := howner m' t p hp'
    by_contra hne
    exact disjoint_memberBlock hm hm' hne hblock hblock'
  refine ⟨plan, memberBlock members P, hrun, hplan, fun m _ => memberBlock_infix P m, hconcat,
    fun m hm m' hm' hne => disjoint_memberBlock hm hm' hne, ?_, hunique, ?_⟩
  · intro m hm m' hm'
    rcases length_memberBlock (P := P) hm with h | h <;>
      rcases length_memberBlock (P := P) hm' with h' | h' <;> rw [h, h'] <;> omega
  · intro t hall p hp
    have hmem : p ∈ sortedPartitions P := (Finset.mem_sort _).mpr hp
    rw [← hconcat, List.mem_flatMap] at hmem
    obtain ⟨m, hm, hblock⟩ := hmem
    have hplanned : p ∈ plan m t := by
      rw [hplan, if_pos (hall m (mem_memberOrder.mp hm))]
      exact hblock
    exact ⟨m, hplanned, fun m' hm' => hunique t p m' m hm' hplanned⟩

theorem two_members_requests (m : String) (metadata : MemberMetadata)
    (h : (List.toAList [⟨"M2", ⟨["T1"]⟩⟩, ⟨"M1", ⟨["T1"]⟩⟩] : GoMap String MemberMetadata).lookup m
      = some metadata) :
    metadata.topics.Nodup := by
  have hentry : (⟨m, metadata⟩ : Sigma fun _ : String => MemberMetadata)
      ∈ [⟨"M2", ⟨["T1"]⟩⟩, ⟨"M1", ⟨["T1"]⟩⟩] := AList.mem_lookup_iff.mp h
  simp only [List.mem_cons, Sigma.mk.injEq, heq_eq_eq, List.not_mem_nil, or_false] at hentry
  rcases hentry with ⟨-, rfl⟩ | ⟨-, rfl⟩ <;> simp

theorem one_topic_partitions (t : String) (partitions : List Int)
    (h : (List.toAList [⟨"T1", [2, 0, 1]⟩] : GoMap String (List Int)).lookup t = some partitions) :
    partitions.Nodup ∧ partitions.toFinset = {0, 1, 2} := by
  have hentry : (⟨t, partitions⟩ : Sigma fun _ : String => List Int) ∈ [⟨"T1", [2, 0, 1]⟩] :=
    AList.mem_lookup_iff.mp h
  simp only [List.mem_singleton, Sigma.mk.injEq, heq_eq_eq] at hentry
  obtain ⟨-, rfl⟩ := hentry
  decide

/-- Two members and one topic with three partitions, listed out of order. -/
theorem plan_isCopartition_two_members :
    ∃ plan block, copartitioningStrategy.plan exactBounds
        (List.toAList [⟨"M2", ⟨["T1"]⟩⟩, ⟨"M1", ⟨["T1"]⟩⟩]) (List.toAList [⟨"T1", [2, 0, 1]⟩])
          = .ok plan ∧
      IsCopartition (List.toAList [⟨"M2", ⟨["T1"]⟩⟩, ⟨"M1", ⟨["T1"]⟩⟩]) {0, 1, 2} plan block :=
  plan_isCopartition _ _ {0, 1, 2} (by decide) (by decide) ⟨0, by decide⟩ two_members_requests
    one_topic_partitions

end CopartitioningStrategy

end Goka

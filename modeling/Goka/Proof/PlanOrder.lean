import Goka.Proof.CopartitionStrategy

/-!
# The plan and the order of the maps

Go iterates a map in any order, so two runs of `Plan` over the same maps may see the topics and the
members in different orders. The members are sorted before they are used. Of the topics, the first
one that has partitions gives the list that the others are compared with and that the plan is made
of. The comparison is not symmetric where lists repeat a partition, and a list without partitions
passes in front of that topic and fails behind it.
-/

namespace Goka

namespace CopartitioningStrategy

variable {s : CopartitioningStrategy} {bounds : BlockBounds}
    {members members' : GoMap String MemberMetadata}
  {topics topics' : GoMap String (List Int)}

/-! ### What the order does not change -/

theorem elementsEqual_perm {α : Type} [DecidableEq α] {a a' : List α} (h : a.Perm a') (b : List α) :
    elementsEqual a b = elementsEqual a' b := by
  have hmem : ∀ p, decide (p ∈ a) = decide (p ∈ a') := fun p => decide_eq_decide.mpr h.mem_iff
  simp only [elementsEqual, h.length_eq, hmem]

theorem length_eq_of_partitionsEqual {a b : List Int} (h : partitionsEqual a b = true) :
    a.length = b.length :=
  beq_iff_eq.mp (Bool.and_eq_true_iff.mp h).1

theorem consistent_perm (hmembers : members'.entries.Perm members.entries)
    (htopics : topics'.entries.Perm topics.entries) :
    Consistent s members' topics' ↔ Consistent s members topics := by
  have hkeys : topics'.keys.Perm topics.keys := htopics.map Sigma.fst
  unfold Consistent
  simp only [topicsEqual, elementsEqual_perm hkeys, hmembers.mem_iff]

theorem memberTopics_perm (h : members'.entries.Perm members.entries) (m : String) :
    memberTopics members' m = memberTopics members m := by
  rw [memberTopics, AList.perm_lookup h]
  rfl

theorem memberOrder_perm (h : members'.entries.Perm members.entries) :
    memberOrder members' = memberOrder members := by
  refine List.Perm.eq_of_pairwise' (List.pairwise_insertionSort _ _)
    (List.pairwise_insertionSort _ _) ?_
  exact (List.perm_insertionSort _ _).trans
    ((h.map Sigma.fst).trans (List.perm_insertionSort _ _).symm)

theorem rangePlan_perm (h : members'.entries.Perm members.entries) (partitions : List Int) :
    rangePlan bounds members' partitions = rangePlan bounds members partitions := by
  funext m t
  rw [rangePlan, rangeBlock, memberTopics_perm h, memberOrder_perm h]
  rfl

/-! ### Orders in which loop (1) comes through -/

/-- The lists with partitions all compare equal to this one. -/
structure IsReference (topics : GoMap String (List Int)) (reference : List Int) : Prop where
  ne_nil : reference ≠ []
  equal : ∀ entry ∈ topics.entries, entry.2 ≠ [] → partitionsEqual reference entry.2 = true

theorem collects_of_empty {entries : List (Sigma fun _ : String => List Int)}
    (h : ∀ entry ∈ entries, entry.2 = []) : Collects entries [] := by
  induction entries with
  | nil => exact .nil
  | cons entry rest ih =>
      obtain ⟨topic, topicPartitions⟩ := entry
      obtain ⟨rfl, hrest⟩ := List.forall_mem_cons.mp h
      exact .skip topic (ih hrest)

theorem Collects.append_left {empty rest : List (Sigma fun _ : String => List Int)}
    {reference : List Int} (h : Collects rest reference) (hempty : ∀ entry ∈ empty, entry.2 = []) :
    Collects (empty ++ rest) reference := by
  induction empty with
  | nil => exact h
  | cons entry empty ih =>
      obtain ⟨topic, topicPartitions⟩ := entry
      obtain ⟨rfl, hrest⟩ := List.forall_mem_cons.mp hempty
      exact .skip topic (ih hrest)

def reorder (topics : GoMap String (List Int)) (entries : List (Sigma fun _ : String => List Int))
    (h : entries.Perm topics.entries) : GoMap String (List Int) :=
  ⟨entries, (List.perm_nodupKeys h).mpr topics.nodupKeys⟩

/-- A list that can be the reference is the reference of the run that visits its topic behind those
without partitions and before the others. -/
theorem exists_collects {entry : Sigma fun _ : String => List Int} (hentry : entry ∈ topics.entries)
    (h : IsReference topics entry.2) :
    ∃ topics' : GoMap String (List Int), topics'.entries.Perm topics.entries ∧
      Collects topics'.entries entry.2 := by
  let empty := topics.entries.filter fun entry => decide (entry.2 = [])
  let others := topics.entries.filter fun entry => !decide (entry.2 = [])
  have hmem : entry ∈ others := List.mem_filter.mpr ⟨hentry, by simpa using h.ne_nil⟩
  have hperm : (empty ++ entry :: others.erase entry).Perm topics.entries :=
    ((List.perm_cons_erase hmem).symm.append_left empty).trans (List.filter_append_perm _ _)
  refine ⟨reorder topics _ hperm, hperm, Collects.append_left (.compare entry.1 h.ne_nil ?_) ?_⟩
  · intro other hother
    obtain ⟨hother, hne⟩ := List.mem_filter.mp (List.mem_of_mem_erase hother)
    exact h.equal other hother (by simpa using hne)
  · intro other hother
    exact of_decide_eq_true (List.mem_filter.mp hother).2

/-! ### Two runs -/

/-- Both runs fail, or both make the same plan. -/
def Agree (outcome outcome' : Outcome BalanceStrategyPlan) : Prop :=
  (∃ text text', outcome = .error text ∧ outcome' = .error text') ∨
    ∃ plan, outcome = .ok plan ∧ outcome' = .ok plan

theorem Agree.ok {outcome : Outcome BalanceStrategyPlan} {plan : BalanceStrategyPlan}
    (h : Agree (.ok plan) outcome) : outcome = .ok plan := by
  rcases h with ⟨text, text', herror, -⟩ | ⟨plan', hok, hok'⟩
  · cases herror
  · rw [hok', ← Outcome.ok.inj hok]

/-- Any two runs over the two maps agree, in whatever orders they iterate them. -/
def OrderIndependent (s : CopartitioningStrategy) (bounds : BlockBounds)
    (members : GoMap String MemberMetadata) (topics : GoMap String (List Int)) : Prop :=
  ∀ (members₁ members₂ : GoMap String MemberMetadata) (topics₁ topics₂ : GoMap String (List Int)),
    members₁.entries.Perm members.entries → members₂.entries.Perm members.entries →
    topics₁.entries.Perm topics.entries → topics₂.entries.Perm topics.entries →
    Agree (s.plan bounds members₁ topics₁) (s.plan bounds members₂ topics₂)

/-- Each list can stand for each other one, in the comparison and in the plan. -/
structure Interchangeable (bounds : BlockBounds) (members : GoMap String MemberMetadata)
    (topics : GoMap String (List Int)) : Prop where
  ne_nil : ∀ entry ∈ topics.entries, entry.2 ≠ []
  equal : ∀ entry ∈ topics.entries, ∀ entry' ∈ topics.entries,
    partitionsEqual entry.2 entry'.2 = true
  same_block : ∀ entry ∈ topics.entries, ∀ entry' ∈ topics.entries,
    ∀ m, memberTopics members m ≠ [] →
    rangeBlock bounds members (entry.2.insertionSort (· ≤ ·)) m
      = rangeBlock bounds members (entry'.2.insertionSort (· ≤ ·)) m

theorem given_inj {requests : List String} {t : String} (ht : t ∈ requests)
    {block block' : List Int} (h : given requests block t = given requests block' t) :
    block = block' := by
  obtain ⟨n, hn⟩ := Nat.exists_eq_succ_of_ne_zero (List.count_pos_iff.mpr ht).ne'
  rw [given, given, hn] at h
  have hlength := congrArg List.length h
  simp only [List.length_flatten, List.map_replicate, List.sum_replicate_nat] at hlength
  have hsame : block.length = block'.length := Nat.eq_of_mul_eq_mul_left n.succ_pos hlength
  rw [List.replicate_succ, List.replicate_succ, List.flatten_cons, List.flatten_cons] at h
  exact (List.append_inj h hsame).1

theorem Interchangeable.rangePlan_eq (h : Interchangeable bounds members topics)
    {entry entry' : Sigma fun _ : String => List Int} (hentry : entry ∈ topics.entries)
    (hentry' : entry' ∈ topics.entries) :
    rangePlan bounds members (entry.2.insertionSort (· ≤ ·))
      = rangePlan bounds members (entry'.2.insertionSort (· ≤ ·)) := by
  funext m t
  by_cases ht : t ∈ memberTopics members m
  · rw [rangePlan, h.same_block entry hentry entry' hentry' m (List.ne_nil_of_mem ht)]
    rfl
  · rw [rangePlan, rangePlan, given_of_notMem ht, given_of_notMem ht]

/-- The bounds cut each of the lists, and the empty one. -/
structure CutsAll (bounds : BlockBounds) (members : GoMap String MemberMetadata)
    (topics : GoMap String (List Int)) : Prop where
  empty : Cuts bounds 0 (memberOrder members).length
  entry : ∀ entry ∈ topics.entries, Cuts bounds entry.2.length (memberOrder members).length

theorem cutsAll_roundedBounds (r : Rounding) (members : GoMap String MemberMetadata)
    (h : ∀ entry ∈ topics.entries, entry.2.length < 2 ^ 50) :
    CutsAll (roundedBounds r) members topics where
  empty := cuts_roundedBounds r (by norm_num) _
  entry entry hentry := cuts_roundedBounds r (h entry hentry) _

theorem CutsAll.plan_eq (h : CutsAll bounds members topics)
    (hconsistent : Consistent s members topics) (hmembers : members'.entries.Perm members.entries)
    (htopics : topics'.entries.Perm topics.entries) {reference : List Int}
    (hcollects : Collects topics'.entries reference) :
    s.plan bounds members' topics'
      = .ok (rangePlan bounds members (reference.insertionSort (· ≤ ·))) := by
  have hcuts : Cuts bounds reference.length (memberOrder members').length := by
    rw [memberOrder_perm hmembers]
    rcases hcollects.cases with ⟨rfl, -⟩ | ⟨⟨entry, hentry, rfl⟩, -⟩
    · exact h.empty
    · exact h.entry entry (htopics.mem_iff.mp hentry)
  rw [plan_of_collects hcollects ((consistent_perm hmembers htopics).mpr hconsistent) hcuts,
    rangePlan_perm hmembers]

/-- Every order of the topics gives a plan that one of the lists gives. -/
theorem Interchangeable.plan_eq (h : Interchangeable bounds members topics)
    (hcuts : CutsAll bounds members topics) (hconsistent : Consistent s members topics)
    (hmembers : members'.entries.Perm members.entries)
    (htopics : topics'.entries.Perm topics.entries) {entry : Sigma fun _ : String => List Int}
    (hentry : entry ∈ topics.entries) :
    s.plan bounds members' topics'
      = .ok (rangePlan bounds members (entry.2.insertionSort (· ≤ ·))) := by
  cases hentries : topics'.entries with
  | nil =>
      rw [hentries] at htopics
      exact absurd (htopics.mem_iff.mpr hentry) List.not_mem_nil
  | cons first rest =>
      obtain ⟨topic, reference⟩ := first
      rw [hentries] at htopics
      have hfirst := htopics.mem_iff.mp List.mem_cons_self
      have hcollects : Collects topics'.entries reference := by
        rw [hentries]
        refine .compare topic (h.ne_nil _ hfirst) fun other hother => ?_
        exact h.equal _ hfirst other (htopics.mem_iff.mp (List.mem_cons_of_mem _ hother))
      rw [hcuts.plan_eq hconsistent hmembers (hentries ▸ htopics) hcollects,
        h.rangePlan_eq hfirst hentry]

theorem OrderIndependent.of_ok (plan : BalanceStrategyPlan)
    (h : ∀ (members' : GoMap String MemberMetadata) (topics' : GoMap String (List Int)),
      members'.entries.Perm members.entries → topics'.entries.Perm topics.entries →
      s.plan bounds members' topics' = .ok plan) : OrderIndependent s bounds members topics :=
  fun members₁ members₂ topics₁ topics₂ hmembers₁ hmembers₂ htopics₁ htopics₂ =>
    .inr ⟨plan, h members₁ topics₁ hmembers₁ htopics₁, h members₂ topics₂ hmembers₂ htopics₂⟩

theorem OrderIndependent.of_error
    (h : ∀ (members' : GoMap String MemberMetadata) (topics' : GoMap String (List Int)),
      members'.entries.Perm members.entries → topics'.entries.Perm topics.entries →
      ∃ text, s.plan bounds members' topics'
        = .error text) : OrderIndependent s bounds members topics := by
  intro members₁ members₂ topics₁ topics₂ hmembers₁ hmembers₂ htopics₁ htopics₂
  obtain ⟨text₁, herror₁⟩ := h members₁ topics₁ hmembers₁ htopics₁
  obtain ⟨text₂, herror₂⟩ := h members₂ topics₂ hmembers₂ htopics₂
  exact .inl ⟨text₁, text₂, herror₁, herror₂⟩

theorem orderIndependent_of_inconsistent (h : ¬ Consistent s members topics) :
    OrderIndependent s bounds members topics :=
  .of_error fun _ _ hmembers htopics =>
    plan_eq_error (.inr (mt (consistent_perm hmembers htopics).mp h))

theorem orderIndependent_of_empty (hcuts : CutsAll bounds members topics)
    (hconsistent : Consistent s members topics) (hempty : ∀ entry ∈ topics.entries, entry.2 = []) :
    OrderIndependent s bounds members topics := by
  refine .of_ok (rangePlan bounds members []) fun members' topics' hmembers htopics => ?_
  have hcollects : Collects topics'.entries [] :=
    collects_of_empty fun entry hentry => hempty entry (htopics.mem_iff.mp hentry)
  exact hcuts.plan_eq hconsistent hmembers htopics hcollects

theorem orderIndependent_of_no_reference {entry : Sigma fun _ : String => List Int}
    (hentry : entry ∈ topics.entries) (hne : entry.2 ≠ [])
    (hnone : ∀ entry ∈ topics.entries, ¬ IsReference topics entry.2) :
    OrderIndependent s bounds members topics := by
  refine .of_error fun members' topics' hmembers htopics =>
    plan_eq_error (.inl fun reference hcollects => ?_)
  rcases hcollects.cases with ⟨-, hempty⟩ | ⟨⟨first, hfirst, rfl⟩, hne, hequal⟩
  · exact hne (hempty entry (htopics.mem_iff.mpr hentry))
  · refine hnone first (htopics.mem_iff.mp hfirst) ⟨hne, fun other hother => ?_⟩
    exact hequal other (htopics.mem_iff.mpr hother)

/-- Each topic is the first one in some order. -/
theorem exists_first {first : Sigma fun _ : String => List Int} (hfirst : first ∈ topics.entries) :
    ∃ topics' : GoMap String (List Int), topics'.entries.Perm topics.entries ∧
      topics'.entries = first :: topics.entries.erase first :=
  ⟨reorder topics _ (List.perm_cons_erase hfirst).symm, (List.perm_cons_erase hfirst).symm, rfl⟩

/-- A run that comes through although it begins with this list. -/
theorem Collects.first_equal {first : Sigma fun _ : String => List Int} {reference : List Int}
    (h : Collects (first :: topics.entries.erase first) reference) (hne : first.2 ≠ []) :
    first.2 = reference ∧ ∀ other ∈ topics.entries, partitionsEqual first.2 other.2 = true := by
  cases h with
  | skip topic hrest => exact absurd rfl hne
  | compare topic hreference hrest =>
      refine ⟨rfl, fun other hother => ?_⟩
      rcases eq_or_ne other ⟨topic, reference⟩ with rfl | hother'
      · exact elementsEqual_refl _
      · exact hrest other ((List.mem_erase_of_ne hother').mpr hother)

/-- Each list is made the reference by iterating it first. -/
theorem interchangeable_of_orderIndependent (h : OrderIndependent s bounds members topics)
    (hcuts : CutsAll bounds members topics) (hconsistent : Consistent s members topics)
    {entry : Sigma fun _ : String => List Int} (hentry : entry ∈ topics.entries)
    (hreference : IsReference topics entry.2) :
    Interchangeable bounds members topics := by
  obtain ⟨topics₀, hperm₀, hcollects₀⟩ := exists_collects hentry hreference
  have hok₀ := hcuts.plan_eq hconsistent (.refl members.entries) hperm₀ hcollects₀
  -- the other runs have to come through as well, with the same plan
  have hfirst : ∀ first ∈ topics.entries, ∃ reference,
      Collects (first :: topics.entries.erase first) reference ∧
        rangePlan bounds members (reference.insertionSort (· ≤ ·))
          = rangePlan bounds members (entry.2.insertionSort (· ≤ ·)) := by
    intro first hfirst
    obtain ⟨topics', hperm, hentries⟩ := exists_first hfirst
    have hagree := h members members topics₀ topics' (.refl _) (.refl _) hperm₀ hperm
    rw [hok₀] at hagree
    rcases plan_cases s bounds members topics' with ⟨reference, hcollects, -, -⟩ | ⟨-, text, herror⟩
    · have hok := hcuts.plan_eq hconsistent (.refl members.entries) hperm hcollects
      exact ⟨reference, hentries ▸ hcollects, Outcome.ok.inj (hok.symm.trans hagree.ok)⟩
    · cases herror.symm.trans hagree.ok
  have hne : ∀ other ∈ topics.entries, other.2 ≠ [] := by
    intro other hother
    obtain ⟨reference, hcollects, -⟩ := hfirst entry hentry
    have hequal := (hcollects.first_equal hreference.ne_nil).2 other hother
    apply List.ne_nil_of_length_pos
    rw [← length_eq_of_partitionsEqual hequal]
    exact List.length_pos_of_ne_nil hreference.ne_nil
  have hplan : ∀ first ∈ topics.entries, rangePlan bounds members (first.2.insertionSort (· ≤ ·))
      = rangePlan bounds members (entry.2.insertionSort (· ≤ ·)) := by
    intro first hmem
    obtain ⟨reference, hcollects, hplan⟩ := hfirst first hmem
    rw [(hcollects.first_equal (hne first hmem)).1]
    exact hplan
  refine ⟨hne, fun first hmem other hother => ?_, fun first hmem other hother m hm => ?_⟩
  · obtain ⟨reference, hcollects, -⟩ := hfirst first hmem
    exact (hcollects.first_equal (hne first hmem)).2 other hother
  · obtain ⟨t, ht⟩ := List.exists_mem_of_ne_nil _ hm
    have hsame := (hplan first hmem).trans (hplan other hother).symm
    exact given_inj ht (congrFun (congrFun hsame m) t)

/-- **When the order does not matter.** Two runs of `Plan` over the same maps agree, whatever orders
they iterate them in, exactly where all fail over the members, no list of partitions can be the
reference for the others, or each of them can. -/
theorem orderIndependent_iff (s : CopartitioningStrategy) (bounds : BlockBounds)
    (members : GoMap String MemberMetadata) (topics : GoMap String (List Int))
    (hcuts : CutsAll bounds members topics) :
    OrderIndependent s bounds members topics ↔
      ¬ Consistent s members topics ∨ (∀ entry ∈ topics.entries, ¬ IsReference topics entry.2) ∨
        Interchangeable bounds members topics := by
  by_cases hconsistent : Consistent s members topics
  case neg => exact iff_of_true (orderIndependent_of_inconsistent hconsistent) (.inl hconsistent)
  by_cases hempty : ∀ entry ∈ topics.entries, entry.2 = []
  · refine iff_of_true (orderIndependent_of_empty hcuts hconsistent hempty) (.inr (.inl ?_))
    exact fun entry hentry hreference => hreference.ne_nil (hempty entry hentry)
  push Not at hempty
  obtain ⟨entry, hentry, hne⟩ := hempty
  constructor
  · intro h
    by_cases hnone : ∀ entry ∈ topics.entries, ¬ IsReference topics entry.2
    · exact .inr (.inl hnone)
    · push Not at hnone
      obtain ⟨first, hfirst, hreference⟩ := hnone
      exact .inr (.inr (interchangeable_of_orderIndependent h hcuts hconsistent hfirst hreference))
  · rintro (hnot | hnone | hinterchangeable)
    · exact absurd hconsistent hnot
    · exact orderIndependent_of_no_reference hentry hne hnone
    · exact .of_ok _ fun members' topics' hmembers htopics =>
        hinterchangeable.plan_eq hcuts hconsistent hmembers htopics hentry

/-- Under `float64`, in whatever order the two topics come, each of two members is given its own
half. -/
theorem orderIndependent_iff_float64 :
    OrderIndependent copartitioningStrategy float64Bounds
      (List.toAList [⟨"m", ⟨["a", "b"]⟩⟩, ⟨"n", ⟨["a", "b"]⟩⟩])
      (List.toAList [⟨"a", [0, 1]⟩, ⟨"b", [1, 0]⟩]) := by
  have hsorted : ∀ entry ∈ (List.toAList [⟨"a", [0, 1]⟩,
    ⟨"b", [1, 0]⟩] : GoMap String (List Int)).entries,
      entry.2.insertionSort (· ≤ ·) = [0, 1] := by decide
  refine (orderIndependent_iff copartitioningStrategy _ _ _
    (cutsAll_roundedBounds .float64 _ (by decide +kernel))).mpr (.inr (.inr ⟨?_, ?_, ?_⟩))
  · decide
  · decide
  · intro entry hentry entry' hentry' m _
    rw [hsorted entry hentry, hsorted entry' hentry']

/-- Behind the other topic, one without partitions fails the comparison. Two lists that repeat
different partitions pass it in both orders and give different plans. -/
theorem plan_depends_on_order :
    ((copartitioningStrategy.plan float64Bounds (List.toAList [⟨"m", ⟨["a", "b"]⟩⟩])
          (List.toAList [⟨"a", []⟩, ⟨"b", [0]⟩]) >>= fun plan => pure (plan "m" "a")) = .ok [0] ∧
      copartitioningStrategy.plan float64Bounds (List.toAList [⟨"m", ⟨["a", "b"]⟩⟩])
          (List.toAList [⟨"b", [0]⟩, ⟨"a", []⟩])
        = .error
          ("Error balancing. Not all topics are copartitioned. For goka, all topics need to " ++
          "have the same number of partitions")) ∧
    (copartitioningStrategy.plan float64Bounds
        (List.toAList [⟨"m", ⟨["a", "b"]⟩⟩, ⟨"n", ⟨["a", "b"]⟩⟩])
        (List.toAList [⟨"a", [0, 0, 1]⟩, ⟨"b", [0, 1, 1]⟩]) >>=
      fun plan => pure (plan "m" "a")) = .ok [0, 0] ∧
    (copartitioningStrategy.plan float64Bounds
        (List.toAList [⟨"m", ⟨["a", "b"]⟩⟩, ⟨"n", ⟨["a", "b"]⟩⟩])
        (List.toAList [⟨"b", [0, 1, 1]⟩, ⟨"a", [0, 0, 1]⟩]) >>=
      fun plan => pure (plan "m" "a")) = .ok [0, 1] := by
  refine ⟨⟨?_, rfl⟩, ?_, ?_⟩
  · decide +kernel
  · decide +kernel
  · decide +kernel

end CopartitioningStrategy

end Goka

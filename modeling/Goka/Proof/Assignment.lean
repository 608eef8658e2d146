import Goka.Assignment
import Goka.Proof.CopartitionStrategy

/-!
# The check of the assignment accepts the plans

The leader's plan and the member's check are written apart. The check compares every claim with the
first one the map yields, so it accepts exactly the claims that agree on their partitions; a plan
gives a member the same block for every topic it requests.
-/

namespace Goka

namespace Assignment

theorem mem_foldl_insert {assignment : Assignment} {claim : List Int} {part : Int} :
    part ∈ claim.foldl (fun assignment part => assignment.insert part offsetNewest) assignment ↔
      part ∈ claim ∨ part ∈ assignment := by
  induction claim generalizing assignment with
  | nil => simp
  | cons first claim ih => rw [List.foldl_cons, ih, AList.mem_insert, List.mem_cons]; tauto

theorem mem_ofClaim {claim : List Int} {part : Int} : part ∈ ofClaim claim ↔ part ∈ claim := by
  rw [ofClaim, mem_foldl_insert]
  exact or_iff_left (AList.notMem_empty part)

/-- A list without repetition that names only partitions of the assignment and is as long as it
names all of them. -/
theorem perm_keys_iff {assignment : Assignment} {claim : List Int} (hnodup : claim.Nodup) :
    (claim.length = assignment.entries.length ∧ ∀ part ∈ claim, part ∈ assignment) ↔
      ∀ part, part ∈ claim ↔ part ∈ assignment := by
  have hlength : assignment.keys.length = assignment.entries.length := List.length_map _
  rw [← hlength]
  constructor
  · rintro ⟨hlength, hsub⟩ part
    have hsubperm : List.Subperm claim assignment.keys :=
      hnodup.subperm fun part hpart => AList.mem_keys.mp (hsub part hpart)
    exact (hsubperm.perm_of_length_le hlength.ge).mem_iff.trans AList.mem_keys.symm
  · intro hsame
    have hperm : claim.Perm assignment.keys :=
      (List.perm_ext_iff_of_nodup hnodup assignment.keys_nodup).mpr fun part =>
        (hsame part).trans AList.mem_keys
    exact ⟨hperm.length_eq, fun part hpart => (hsame part).mp hpart⟩

end Assignment

namespace Processor

open Assignment

def Copartitioned (claims : GoMap String (List Int)) : Prop :=
  ∀ topic claim topic' claim', claims.lookup topic = some claim →
    claims.lookup topic' = some claim' → ∀ part, part ∈ claim ↔ part ∈ claim'

theorem verifyClaims_eq_ok {assignment : Assignment}
    {entries : List (Sigma fun _ : String => List Int)}
    (hnodup : ∀ entry ∈ entries, entry.2.Nodup) (result : Option Assignment) :
    verifyClaims entries (some assignment) = .ok result ↔
      result = some assignment ∧ ∀ entry ∈ entries, ∀ part, part ∈ entry.2 ↔ part ∈ assignment := by
  induction entries with
  | nil => simp [verifyClaims, eq_comm]
  | cons entry rest ih =>
      obtain ⟨topic, claim⟩ := entry
      have hclaim : (claim.length = assignment.entries.length ∧ ∀ part ∈ claim, part ∈ assignment) ↔
          ∀ part, part ∈ claim ↔ part ∈ assignment :=
        perm_keys_iff (hnodup ⟨topic, claim⟩ (List.mem_cons_self ..))
      have hrest := ih fun entry hentry => hnodup entry (List.mem_cons_of_mem _ hentry)
      have hmissing : (claim.any fun part => (assignment.lookup part).isNone) = true ↔
          ¬ ∀ part ∈ claim, part ∈ assignment := by
        simp [AList.lookup_eq_none]
      rw [verifyClaims, List.forall_mem_cons, ← hclaim]
      by_cases hlength : claim.length = assignment.entries.length
      · rw [if_neg (not_not_intro hlength)]
        by_cases hsub : ∀ part ∈ claim, part ∈ assignment
        · rw [if_neg (mt hmissing.mp (not_not_intro hsub)), hrest]
          exact and_congr_right fun _ => (and_iff_right ⟨hlength, hsub⟩).symm
        · rw [if_pos (hmissing.mpr hsub)]
          exact iff_of_false nofun fun h => hsub h.2.1.2
      · rw [if_pos hlength]
        exact iff_of_false nofun fun h => hlength h.2.1.1

theorem nodup_entries {claims : GoMap String (List Int)}
    (hnodup : ∀ topic claim, claims.lookup topic = some claim → claim.Nodup) :
    ∀ entry ∈ claims.entries, entry.2.Nodup :=
  fun entry hentry => hnodup entry.1 entry.2 (AList.mem_lookup_iff.mpr hentry)

/-- The check goes by the claims and not by the order in which the map yields them. -/
theorem assignmentFromSession_eq_ok {claims : GoMap String (List Int)}
    (hnodup : ∀ topic claim, claims.lookup topic = some claim → claim.Nodup) :
    ((∃ assignment, assignmentFromSession claims = .ok assignment) ↔ Copartitioned claims) ∧
      ∀ assignment, assignmentFromSession claims = .ok assignment →
        ∀ part, part ∈ assignedPartitions assignment ↔
          ∃ topic claim, claims.lookup topic = some claim ∧ part ∈ claim := by
  have hmem : ∀ entry, entry ∈ claims.entries ↔ claims.lookup entry.1 = some entry.2 :=
    fun entry => AList.mem_lookup_iff.symm
  have hnodup' := nodup_entries hnodup
  rw [assignmentFromSession]
  cases hentries : claims.entries with
  | nil =>
      have hnone : ∀ topic claim, claims.lookup topic ≠ some claim := by
        intro topic claim hlookup
        simpa [hentries] using (hmem ⟨topic, claim⟩).mpr hlookup
      refine ⟨iff_of_true ⟨_, rfl⟩ fun topic claim _ _ h => absurd h (hnone topic claim), ?_⟩
      intro assignment hok part
      obtain rfl := Except.ok.inj hok
      simp [assignedPartitions, hnone]
  | cons first rest =>
      obtain ⟨topic₀, claim₀⟩ := first
      rw [hentries] at hnodup' hmem
      have hfirst : claims.lookup topic₀ = some claim₀ :=
        (hmem ⟨topic₀, claim₀⟩).mp (List.mem_cons_self ..)
      have hcheck : ∀ result, verifyClaims rest (some (ofClaim claim₀)) = .ok result ↔ _ :=
        verifyClaims_eq_ok fun entry hentry => hnodup' entry (List.mem_cons_of_mem _ hentry)
      simp only [verifyClaims, hcheck, mem_ofClaim]
      -- agreeing with the first claim is agreeing with each other
      have hagree : (∀ entry ∈ rest, ∀ part, part ∈ entry.2 ↔ part ∈ claim₀) ↔
          ∀ topic claim, claims.lookup topic = some claim →
            ∀ part, part ∈ claim ↔ part ∈ claim₀ := by
        constructor
        · intro hall topic claim hlookup part
          rcases List.mem_cons.mp ((hmem ⟨topic, claim⟩).mpr hlookup) with heq | hrest
          · obtain ⟨rfl, rfl⟩ := Sigma.mk.inj heq
            rfl
          · exact hall ⟨topic, claim⟩ hrest part
        · exact fun hall entry hentry =>
            hall entry.1 entry.2 ((hmem entry).mp (List.mem_cons_of_mem _ hentry))
      rw [hagree]
      constructor
      · constructor
        · rintro ⟨assignment, -, hall⟩ topic claim topic' claim' hlookup hlookup' part
          rw [hall topic claim hlookup part, hall topic' claim' hlookup' part]
        · intro hco
          exact ⟨_, rfl, fun topic claim hlookup => hco topic claim topic₀ claim₀ hlookup hfirst⟩
      · rintro assignment ⟨rfl, hall⟩ part
        rw [assignedPartitions, Option.elim_some, ← AList.mem_keys, mem_ofClaim]
        constructor
        · exact fun hpart => ⟨topic₀, claim₀, hfirst, hpart⟩
        · rintro ⟨topic, claim, hlookup, hpart⟩
          exact (hall topic claim hlookup part).mp hpart

/-- The claims that a plan gives a member: what it has planned for each topic the member requests,
where a topic without partitions may be left out. -/
def Receives (members : GoMap String MemberMetadata) (plan : BalanceStrategyPlan)
    (memberID : String) (claims : GoMap String (List Int)) : Prop :=
  (∀ topic claim, claims.lookup topic = some claim →
      topic ∈ CopartitioningStrategy.memberTopics members memberID ∧ claim = plan memberID topic) ∧
    ∀ topic, plan memberID topic ≠ [] → claims.lookup topic = some (plan memberID topic)

/-- The check accepts the claims that are copartitioned and no others, its assignment has the
claimed partitions, and the claims of a member under any plan pass it and give the member's
block. -/
theorem assignment_accepts_plans :
    (∀ claims : GoMap String (List Int),
      (∀ topic claim, claims.lookup topic = some claim → claim.Nodup) →
      ((∃ assignment, assignmentFromSession claims = .ok assignment) ↔ Copartitioned claims) ∧
        ∀ assignment, assignmentFromSession claims = .ok assignment →
          ∀ part, part ∈ assignedPartitions assignment ↔
            ∃ topic claim, claims.lookup topic = some claim ∧ part ∈ claim) ∧
    ∀ (s : CopartitioningStrategy) (bounds : CopartitioningStrategy.BlockBounds)
      (members : GoMap String MemberMetadata) (topics : GoMap String (List Int))
      (plan : BalanceStrategyPlan),
      (∀ m metadata, members.lookup m = some metadata → metadata.topics.Nodup) →
      (∀ t partitions, topics.lookup t = some partitions → partitions.Nodup) →
      s.plan bounds members topics = .ok plan →
      ∀ memberID claims, Receives members plan memberID claims →
        ∃ assignment, assignmentFromSession claims = .ok assignment ∧
          (∀ part, part ∈ assignedPartitions assignment ↔ ∃ topic, part ∈ plan memberID topic) ∧
          ∀ topic ∈ CopartitioningStrategy.memberTopics members memberID,
            ∀ part, part ∈ assignedPartitions assignment ↔ part ∈ plan memberID topic := by
  refine ⟨fun claims hnodup => assignmentFromSession_eq_ok hnodup, ?_⟩
  intro s bounds members topics plan hrequests hpartitions hplan memberID claims hreceives
  obtain ⟨block, hnodup, hblock⟩ := CopartitioningStrategy.plan_eq_ok
    (CopartitioningStrategy.nodup_memberTopics hrequests) hpartitions hplan
  have hclaim : ∀ topic claim, claims.lookup topic = some claim → claim = block memberID := by
    intro topic claim hlookup
    obtain ⟨htopic, rfl⟩ := hreceives.1 topic claim hlookup
    rw [hblock, if_pos htopic]
  have hclaims : ∀ topic claim, claims.lookup topic = some claim → claim.Nodup :=
    fun topic claim hlookup => hclaim topic claim hlookup ▸ hnodup memberID
  obtain ⟨haccepts, hpartitions⟩ := assignmentFromSession_eq_ok hclaims
  have hco : Copartitioned claims := by
    intro topic claim topic' claim' hlookup hlookup' part
    rw [hclaim topic claim hlookup, hclaim topic' claim' hlookup']
  obtain ⟨assignment, hok⟩ := haccepts.mpr hco
  have hunion : ∀ part, part ∈ assignedPartitions assignment ↔ ∃ topic,
      part ∈ plan memberID topic := by
    intro part
    rw [hpartitions assignment hok part]
    constructor
    · rintro ⟨topic, claim, hlookup, hpart⟩
      exact ⟨topic, (hreceives.1 topic claim hlookup).2 ▸ hpart⟩
    · rintro ⟨topic, hpart⟩
      exact ⟨topic, _, hreceives.2 topic (List.ne_nil_of_mem hpart), hpart⟩
  refine ⟨assignment, hok, hunion, fun topic htopic part => ?_⟩
  rw [hunion]
  constructor
  · rintro ⟨topic', hpart⟩
    rw [hblock, if_pos htopic]
    rw [hblock] at hpart
    split at hpart
    · exact hpart
    · exact absurd hpart List.not_mem_nil
  · exact fun hpart => ⟨topic, hpart⟩

/-- The claims of one of two members of a group with one topic of three partitions. -/
theorem assignment_accepts_plans_two_members :
    ∃ plan, copartitioningStrategy.plan CopartitioningStrategy.exactBounds
        (List.toAList [⟨"M2", ⟨["T1"]⟩⟩, ⟨"M1", ⟨["T1"]⟩⟩]) (List.toAList [⟨"T1", [2, 0, 1]⟩])
          = .ok plan ∧
      Receives (List.toAList [⟨"M2", ⟨["T1"]⟩⟩, ⟨"M1", ⟨["T1"]⟩⟩]) plan "M1"
        (AList.singleton "T1" (plan "M1" "T1")) ∧
      ∃ assignment, assignmentFromSession (AList.singleton "T1" (plan "M1" "T1")) = .ok assignment ∧
        (∀ part, part ∈ assignedPartitions assignment ↔ ∃ topic, part ∈ plan "M1" topic) ∧
        ∀ topic ∈ ["T1"], ∀ part, part ∈ assignedPartitions assignment ↔
          part ∈ plan "M1" topic := by
  have htopics : CopartitioningStrategy.memberTopics
      (List.toAList [⟨"M2", ⟨["T1"]⟩⟩, ⟨"M1", ⟨["T1"]⟩⟩]) "M1" = ["T1"] := by decide
  obtain ⟨plan, hplan, hblock⟩ :=
    CopartitioningStrategy.plan_eq rfl (by decide) (by decide) ⟨0, by decide⟩
    (CopartitioningStrategy.nodup_memberTopics CopartitioningStrategy.two_members_requests)
    CopartitioningStrategy.one_topic_partitions
  have hreceives : Receives (List.toAList [⟨"M2", ⟨["T1"]⟩⟩, ⟨"M1", ⟨["T1"]⟩⟩]) plan "M1"
      (AList.singleton "T1" (plan "M1" "T1")) := by
    rw [Receives, htopics]
    constructor
    · intro topic claim hlookup
      have hentry : (⟨topic, claim⟩ : Sigma fun _ : String => List Int)
          ∈ [⟨"T1", plan "M1" "T1"⟩] := AList.mem_lookup_iff.mp hlookup
      simp only [List.mem_singleton, Sigma.mk.injEq, heq_eq_eq] at hentry
      obtain ⟨rfl, rfl⟩ := hentry
      exact ⟨List.mem_singleton_self _, rfl⟩
    · intro topic hne
      rw [hblock, htopics] at hne
      have htopic : topic = "T1" := by
        by_contra htopic
        exact hne (if_neg (mt List.mem_singleton.mp htopic))
      rw [htopic]
      exact AList.mem_lookup_iff.mpr (List.mem_singleton_self _)
  exact ⟨plan, hplan, hreceives, assignment_accepts_plans.2 copartitioningStrategy _ _ _ plan
    CopartitioningStrategy.two_members_requests
    (fun t partitions h => (CopartitioningStrategy.one_topic_partitions t partitions h).1) hplan
      "M1"
    _ hreceives⟩

end Processor

end Goka

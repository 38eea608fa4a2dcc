import Stocktake.Proofs.Ranking.Insertion

/-! The ranking of components is the only list of them in which scores ascend and components of equal
score keep their order. -/

namespace Stocktake

/-- A list has the same candidates as another one, by ascending score and otherwise in the order of
that list. -/
structure IsStableOrder (candidates ordered : List Candidate) : Prop where
  permuted : ordered.Perm candidates
  ascending : ordered.Pairwise fun one next => one.score ≤ next.score
  /-- For each score the candidates come in the same order, as often as they come at all. -/
  ties : ∀ score, ordered.filter (·.score == score) = candidates.filter (·.score == score)

/-- No candidate comes before one of a smaller score. -/
theorem score_head_le {first : Candidate} {others ordered : List Candidate}
    (ascending : (first :: others).Pairwise fun one next => one.score ≤ next.score)
    (same : ∀ score, (first :: others).filter (·.score == score) =
      ordered.filter (·.score == score)) :
    ∀ candidate ∈ ordered, first.score ≤ candidate.score := by
  intro candidate member
  -- The candidate is one of those in the ascending list, too.
  have kept : candidate ∈ (first :: others).filter (·.score == candidate.score) := by
    rw [same]
    exact List.mem_filter.mpr ⟨member, beq_self_eq_true candidate.score⟩
  rcases List.mem_cons.mp (List.mem_filter.mp kept).1 with here | later
  · rw [here]
  · exact (List.pairwise_cons.mp ascending).1 candidate later

/-- The first candidate of a list is the first one of its score. -/
theorem filter_score_cons (first : Candidate) (others : List Candidate) :
    (first :: others).filter (·.score == first.score) =
      first :: others.filter (·.score == first.score) := by
  -- The first candidate has the score that is asked for.
  rw [List.filter_cons, if_pos (beq_self_eq_true first.score)]

/-- Two ascending lists are the same when they have the same candidates of each score in the same
order. -/
theorem eq_of_ascending {one other : List Candidate}
    (ascending : one.Pairwise fun first next => first.score ≤ next.score)
    (ascending' : other.Pairwise fun first next => first.score ≤ next.score)
    (same : ∀ score, one.filter (·.score == score) = other.filter (·.score == score)) :
    one = other := by
  induction one generalizing other with
  | nil =>
    cases other with
    | nil => rfl
    | cons first others =>
      have nothing := same first.score
      rw [List.filter_nil, filter_score_cons] at nothing
      cases nothing
  | cons first others ih =>
    cases other with
    | nil =>
      have nothing := same first.score
      rw [List.filter_nil, filter_score_cons] at nothing
      cases nothing
    | cons first' others' =>
      have least := score_head_le ascending same first' List.mem_cons_self
      have least' := score_head_le ascending' (fun score => (same score).symm) first
        List.mem_cons_self
      have score : first'.score = first.score := Nat.le_antisymm least' least
      -- The first candidates of the least score come first in both lists.
      have heads := same first.score
      rw [filter_score_cons, ← score, filter_score_cons] at heads
      obtain ⟨rfl, _⟩ := List.cons.inj heads
      have rest : ∀ score,
          others.filter (·.score == score) = others'.filter (·.score == score) := by
        intro score
        have both := same score
        rw [List.filter_cons, List.filter_cons] at both
        split at both
        · exact (List.cons.inj both).2
        · exact both
      rw [ih (List.pairwise_cons.mp ascending).2 (List.pairwise_cons.mp ascending').2 rest]

/-- A list is put into stable order in one way only. -/
theorem IsStableOrder.unique {candidates one other : List Candidate}
    (order : IsStableOrder candidates one) (order' : IsStableOrder candidates other) :
    one = other :=
  -- Lists that ascend by score are equal when the candidates of each score are.
  eq_of_ascending order.ascending order'.ascending fun score =>
    (order.ties score).trans (order'.ties score).symm

/-- Sorting puts candidates into stable order. -/
theorem isStableOrder_mergeSort (candidates : List Candidate) :
    IsStableOrder candidates (candidates.mergeSort scoresInOrder) := by
  have permuted := List.mergeSort_perm candidates scoresInOrder
  refine ⟨permuted, ?_, ?_⟩
  · have sorted := List.pairwise_mergeSort scoresInOrder_trans scoresInOrder_total candidates
    apply sorted.imp
    intro one next ordered
    exact of_decide_eq_true ordered
  · intro score
    -- Candidates of one score are sorted as they are, so that sorting all of them keeps their order.
    have level : (candidates.filter (·.score == score)).Pairwise fun one next =>
        scoresInOrder one next = true := by
      apply List.pairwise_iff_forall_sublist.mpr
      intro one next among
      have here := beq_iff_eq.mp (List.mem_filter.mp (among.subset (by simp : one ∈ _))).2
      have here' := beq_iff_eq.mp (List.mem_filter.mp (among.subset (by simp : next ∈ _))).2
      apply decide_eq_true
      omega
    have kept := List.sublist_mergeSort scoresInOrder_trans scoresInOrder_total level
      List.filter_sublist
    have inside := kept.filter (·.score == score)
    rw [List.filter_filter] at inside
    simp only [Bool.and_self] at inside
    -- There are as many of them before sorting as there are afterwards.
    exact (inside.eq_of_length (permuted.filter _).length_eq.symm).symm

/-- Components are ranked when the effort for each of them fits into 64 bits, and then only then. The
ranking is the only stable order of the components by their efforts, and the order of migration has
its names. -/
theorem rank_eq_only_stableOrder (weight : Nat) (dependencies : DependencyMap)
    (components : List Construct) :
    ((∃ ranked, rank weight dependencies components = .ok ranked) ↔
      ∀ component ∈ components, effort weight dependencies component < wordBound) ∧
    ∀ ranked, rank weight dependencies components = .ok ranked →
      IsStableOrder (components.map (candidateOf weight dependencies)) ranked ∧
      (∀ other, IsStableOrder (components.map (candidateOf weight dependencies)) other →
        other = ranked) ∧
      migrationOrder weight dependencies components = .ok (ranked.map Candidate.name) := by
  -- A ranking that is returned has found a candidate for each component.
  have fits : ∀ ranked, rank weight dependencies components = .ok ranked →
      ∀ component ∈ components, effort weight dependencies component < wordBound := by
    intro ranked returned component member
    apply Nat.lt_of_not_le
    intro large
    obtain ⟨step, failed⟩ := (mapM_ofComponent_fails_iff components).mpr ⟨component, member, large⟩
    rw [rank, failed] at returned
    cases returned
  refine ⟨?_, ?_⟩
  · constructor
    · intro returns
      obtain ⟨ranked, returned⟩ := returns
      exact fits ranked returned
    · intro small
      exact ⟨_, rank_eq_ok small⟩
  · intro ranked returned
    have sorted := rank_eq_ok (fits ranked returned)
    rw [returned] at sorted
    obtain rfl := Except.ok.inj sorted
    have order := isStableOrder_mergeSort (components.map (candidateOf weight dependencies))
    refine ⟨order, fun other order' => order'.unique order, ?_⟩
    rw [migrationOrder, returned]
    rfl

/-- Components with a repeated name and with two equal efforts. -/
theorem rank_eq_only_stableOrder_ties :
    let component := fun name loc =>
      Construct.mk name (name ++ ".js") [] loc ⟨false, false, false, false, 0⟩
    let components :=
      [component "card" 200, component "list" 100, component "item" 80, component "card" 20]
    let dependencies := OrderedMap.ofList [("item", ["$http", "$q"])]
    let ranked := [⟨"card", "card.js", 20⟩, ⟨"list", "list.js", 100⟩, ⟨"item", "item.js", 100⟩,
      ⟨"card", "card.js", 200⟩]
    rank 10 dependencies components = .ok ranked ∧
      IsStableOrder (components.map (candidateOf 10 dependencies)) ranked ∧
      migrationOrder 10 dependencies components = .ok ["card", "list", "item", "card"] := by
  -- One run of the ranking is computed, and it can only be the stable order.
  intro component components dependencies ranked
  have returned : rank 10 dependencies components = .ok ranked := by cbv
  obtain ⟨order, _, names⟩ := (rank_eq_only_stableOrder 10 dependencies components).2 ranked returned
  exact ⟨returned, order, names⟩

end Stocktake

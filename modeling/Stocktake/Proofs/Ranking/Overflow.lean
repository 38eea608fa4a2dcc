import Stocktake.Ranking

/-! Components are ranked unless the effort for one of them outgrows the bits of a score. -/

namespace Stocktake

/-- The effort for a component as a number of any size. -/
def effort (weight : Nat) (dependencies : DependencyMap) (component : Construct) : Nat :=
  component.loc + ((dependencies.get? component.name).map List.length).getD 0 * weight

/-- A score is the effort when that is below the bound of a word, and else an overflow. -/
theorem migrationScore_cases (weight : Nat) (dependencies : DependencyMap)
    (component : Construct) :
    (effort weight dependencies component < wordBound ∧
        migrationScore weight dependencies component =
          .ok (effort weight dependencies component)) ∨
      (wordBound ≤ effort weight dependencies component ∧
        ∃ step, migrationScore weight dependencies component = .error step) := by
  rw [migrationScore, effort]
  generalize ((dependencies.get? component.name).map List.length).getD 0 * weight = product
  by_cases large : wordBound ≤ product
  · -- The sum is no smaller than the product.
    exact .inr ⟨by omega, .multiply, if_pos large⟩
  · rw [if_neg large]
    by_cases full : wordBound ≤ component.loc + product
    · exact .inr ⟨full, .add, if_pos full⟩
    · exact .inl ⟨by omega, if_neg full⟩

variable {weight : Nat} {dependencies : DependencyMap}

/-- Candidates are found for all components unless the effort for one of them is too large. -/
theorem mapM_ofComponent_fails_iff (components : List Construct) :
    (∃ step, components.mapM (Candidate.ofComponent weight dependencies) = .error step) ↔
      ∃ component ∈ components, wordBound ≤ effort weight dependencies component := by
  induction components with
  | nil =>
    simp only [List.mapM_nil, List.not_mem_nil, false_and, exists_false, iff_false]
    rintro ⟨step, failed⟩
    cases failed
  | cons component components ih =>
    rw [List.mapM_cons, Candidate.ofComponent]
    obtain ⟨fits, scored⟩ | ⟨large, step, failed⟩ :=
      migrationScore_cases weight dependencies component
    · -- The first component is no obstacle, so that the others decide.
      have others : (∃ other ∈ component :: components,
            wordBound ≤ effort weight dependencies other) ↔
          ∃ other ∈ components, wordBound ≤ effort weight dependencies other := by
        simp [Nat.not_le.mpr fits]
      rw [others, ← ih, scored]
      cases components.mapM (Candidate.ofComponent weight dependencies) <;>
        simp [bind, Except.bind, pure, Except.pure]
    · -- The first component ends the search for candidates at once.
      rw [failed]
      exact ⟨fun _ => ⟨component, List.mem_cons_self, large⟩, fun _ => ⟨step, rfl⟩⟩

/-- Components have an order of migration unless the effort for one of them is too large. -/
theorem migrationOrder_fails_iff (components : List Construct) :
    (∃ step, migrationOrder weight dependencies components = .error step) ↔
      ∃ component ∈ components, wordBound ≤ effort weight dependencies component := by
  -- Sorting the candidates and taking their names cannot fail.
  rw [← mapM_ofComponent_fails_iff, migrationOrder, rank]
  cases components.mapM (Candidate.ofComponent weight dependencies) <;>
    simp [bind, Except.bind, pure, Except.pure]

end Stocktake

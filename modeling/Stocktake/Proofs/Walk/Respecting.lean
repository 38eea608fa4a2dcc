import Stocktake.Proofs.Path.Relative
import Stocktake.Proofs.Walk.Selection

/-! Ignore files take files off a walk and add none, unless a rule of theirs includes a hidden
entry. -/

namespace Stocktake

namespace Workspace

variable {workspace : Workspace} {rules : WalkRules} {root : String} {base : Location}

/-- A rule has a verdict on the entry of a given name on a chain; the rule stands in the ignore file
of a directory on the chain above that entry. -/
def IsJudged (workspace : Workspace) (root : String) (chain : Chain) (name : EntryName)
    (verdict : Gitignore.Verdict) : Prop :=
  ∃ inner between above isDirectory, chain = inner ++ name :: (between ++ above) ∧
    ∃ rule ∈ workspace.ignoreRules (walkedPath root above), rule.verdict = verdict ∧
      rule.applies (Gitignore.pathSeenFrom (walkedPath root above)
        (walkedPath root (name :: (between ++ above)))) isDirectory

/-- What is judged on a chain is judged on each longer one. -/
theorem IsJudged.below {outer : Chain} {name : EntryName} {verdict : Gitignore.Verdict}
    (judged : workspace.IsJudged root outer name verdict) (last : EntryName) :
    workspace.IsJudged root (last :: outer) name verdict := by
  -- The rule is the same, and only the chain is longer.
  obtain ⟨inner, between, above, isDirectory, rfl, spoken⟩ := judged
  exact ⟨last :: inner, between, above, isDirectory, rfl, spoken⟩

end Workspace

end Stocktake

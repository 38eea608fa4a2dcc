import Stocktake.Proofs.Report.Counts
import Stocktake.Proofs.Settings.Decoding

/-! Thresholds split constructs by the lengths of their files, and lose none of them. -/

namespace Stocktake

/-- The position of a level among the levels, from low to high. -/
def Level.rank : Level → Nat
  | .low => 0
  | .medium => 1
  | .high => 2

namespace Buckets

/-- The bucket of a level. -/
def get (buckets : Buckets) : Level → List Construct
  | .low => buckets.low
  | .medium => buckets.medium
  | .high => buckets.high

/-- All constructs of the buckets, one level after the other. -/
def toList (buckets : Buckets) : List Construct :=
  buckets.low ++ buckets.medium ++ buckets.high

/-- A construct comes first in the bucket of its level, and the other buckets stay as they are. -/
theorem get_push (buckets : Buckets) (level other : Level) (construct : Construct) :
    (buckets.push level construct).get other =
      (if level = other then [construct] else []) ++ buckets.get other := by
  -- Each of the nine pairs of levels computes.
  cases level <;> cases other <;> rfl

/-- The buckets together have one more construct. -/
theorem toList_push (buckets : Buckets) (level : Level) (construct : Construct) :
    (buckets.push level construct).toList.Perm (construct :: buckets.toList) := by
  -- What stands before the bucket of the level does not matter.
  cases level with
  | low => exact .refl _
  | medium =>
    change (buckets.low ++ (construct :: buckets.medium) ++ buckets.high).Perm _
    rw [toList, List.append_assoc, List.append_assoc]
    exact List.perm_middle
  | high =>
    change (buckets.low ++ buckets.medium ++ (construct :: buckets.high)).Perm _
    exact List.perm_middle

end Buckets

/-- Settings are usable when they are accepted. -/
theorem Settings.usable_of_validate {settings : Settings}
    (accepted : settings.validate = .ok settings) : settings.Usable := by
  -- Settings are refused for the first flaw found in them, and usable when there is none.
  apply Settings.flaw?_eq_none.mp
  cases found : settings.flaw? with
  | none => rfl
  | some flaw =>
    rw [validate, found] at accepted
    cases accepted

namespace Thresholds

variable (thresholds : Thresholds)

/-- The first construct goes into the bucket of its level. -/
theorem partition_cons (construct : Construct) (constructs : List Construct) :
    thresholds.partition (construct :: constructs) =
      (thresholds.partition constructs).push (thresholds.classify construct.loc) construct :=
  -- The split goes through the constructs from the last to the first.
  rfl

/-- The bucket of a level has the constructs of that level in their order. -/
theorem get_partition (constructs : List Construct) (level : Level) :
    (thresholds.partition constructs).get level =
      constructs.filter fun construct => thresholds.classify construct.loc = level := by
  -- A bucket grows at its front, and only with constructs of its level.
  induction constructs with
  | nil => cases level <;> rfl
  | cons construct constructs ih =>
    rw [partition_cons, Buckets.get_push, ih, List.filter_cons]
    by_cases same : thresholds.classify construct.loc = level <;> simp [same]

/-- The buckets together have the constructs that were split. -/
theorem toList_partition (constructs : List Construct) :
    (thresholds.partition constructs).toList.Perm constructs := by
  -- Each construct goes into exactly one bucket.
  induction constructs with
  | nil => exact .refl []
  | cons construct constructs ih =>
    rw [partition_cons]
    exact (Buckets.toList_push _ _ construct).trans (ih.cons construct)

/-- A length is high above the medium bound, whatever the low bound is. -/
theorem classify_eq_high_iff (loc : Nat) :
    thresholds.classify loc = .high ↔ thresholds.mediumMax < loc := by
  -- The medium bound is asked first, and nothing but it makes a length high.
  rw [classify]
  split
  · rename_i above
    exact iff_of_true rfl above
  · rename_i within
    split <;> simp [within]

/-- A length is medium above the low bound, up to the medium one. -/
theorem classify_eq_medium_iff (loc : Nat) :
    thresholds.classify loc = .medium ↔
      thresholds.lowMax < loc ∧ loc ≤ thresholds.mediumMax := by
  -- A length that is not high is medium unless the low bound takes it.
  rw [classify]
  split
  · rename_i above
    simp [above]
  · rename_i within
    split <;> simp_all

/-- A length is low up to the smaller one of both bounds. -/
theorem classify_eq_low_iff (loc : Nat) :
    thresholds.classify loc = .low ↔ loc ≤ thresholds.lowMax ∧ loc ≤ thresholds.mediumMax := by
  -- Both bounds are asked before a length is low.
  rw [classify]
  split
  · rename_i above
    simp [above]
  · rename_i within
    split <;> simp_all

/-- A longer file is never of a lower level, also when the bounds are inverted. -/
theorem rank_classify_mono {shorter longer : Nat} (le : shorter ≤ longer) :
    (thresholds.classify shorter).rank ≤ (thresholds.classify longer).rank := by
  -- The length that is tested first only grows, and so does the one that is tested then.
  rw [classify, classify]
  split
  · rename_i above
    simp [Nat.lt_of_lt_of_le above le]
  · split
    · rename_i above
      rw [if_pos (Nat.lt_of_lt_of_le above le)]
      split <;> simp [Level.rank]
    · exact Nat.zero_le _

/-- Any thresholds split constructs without loss: a bucket has the constructs of its level in their
order, all buckets together have all constructs, and a longer file is never of a lower level. Of
accepted thresholds the low bound ends the low level and the medium bound the medium level, and each
level has lengths of 64 bits, the high level only when the medium bound is not the greatest one. -/
theorem partition_by_level (constructs : List Construct) :
    let buckets := thresholds.partition constructs
    (∀ level, buckets.get level =
      constructs.filter fun construct => thresholds.classify construct.loc = level) ∧
    (buckets.low ++ buckets.medium ++ buckets.high).Perm constructs ∧
    buckets.metrics.total = constructs.length ∧
    (∀ shorter longer, shorter ≤ longer →
      (thresholds.classify shorter).rank ≤ (thresholds.classify longer).rank) ∧
    ∀ settings : Settings, settings.validate = .ok settings → settings.thresholds = thresholds →
      thresholds.mediumMax < wordBound →
        (∀ loc, thresholds.classify loc = .low ↔ loc ≤ thresholds.lowMax) ∧
        (∀ loc, thresholds.classify loc = .medium ↔
          thresholds.lowMax < loc ∧ loc ≤ thresholds.mediumMax) ∧
        (∀ loc, thresholds.classify loc = .high ↔ thresholds.mediumMax < loc) ∧
        (∃ loc < wordBound, thresholds.classify loc = .low) ∧
        (∃ loc < wordBound, thresholds.classify loc = .medium) ∧
        ((∃ loc < wordBound, thresholds.classify loc = .high) ↔
          thresholds.mediumMax + 1 < wordBound) := by
  refine ⟨thresholds.get_partition constructs, thresholds.toList_partition constructs,
    thresholds.total_metrics constructs, fun _ _ => thresholds.rank_classify_mono, ?_⟩
  rintro settings accepted rfl fits
  -- Accepted bounds ascend, so that the medium bound never cuts off the low level.
  have ascending := (Settings.usable_of_validate accepted).ascending
  refine ⟨?_, settings.thresholds.classify_eq_medium_iff,
    settings.thresholds.classify_eq_high_iff, ?_, ?_, ?_⟩
  · intro loc
    rw [classify_eq_low_iff]
    omega
  · exact ⟨0, by decide, (classify_eq_low_iff _ 0).mpr ⟨Nat.zero_le _, Nat.zero_le _⟩⟩
  · exact ⟨_, fits, (classify_eq_medium_iff _ _).mpr ⟨ascending, Nat.le_refl _⟩⟩
  · constructor
    · rintro ⟨loc, small, high⟩
      have above := (classify_eq_high_iff _ loc).mp high
      omega
    · intro room
      exact ⟨_, room, (classify_eq_high_iff _ _).mpr (Nat.lt_succ_self _)⟩

/-- With the second greatest medium bound all three levels have lengths of 64 bits. -/
theorem partition_by_level_widest :
    let settings : Settings := { thresholds := ⟨0, wordBound - 2⟩ }
    settings.validate = .ok settings ∧ settings.thresholds.mediumMax < wordBound ∧
    (∃ loc < wordBound, settings.thresholds.classify loc = .low) ∧
    (∃ loc < wordBound, settings.thresholds.classify loc = .medium) ∧
    ∃ loc < wordBound, settings.thresholds.classify loc = .high := by
  -- One length is left above the bound, the greatest of 64 bits.
  intro settings
  have accepted : settings.validate = .ok settings := rfl
  have fits : settings.thresholds.mediumMax < wordBound := by decide
  obtain ⟨_, _, _, _, levels⟩ := settings.thresholds.partition_by_level []
  obtain ⟨_, _, _, low, medium, high⟩ := levels settings accepted rfl fits
  exact ⟨accepted, fits, low, medium, high.mpr (by decide)⟩

/-- With the greatest medium bound, which is accepted too, no length of 64 bits is high. -/
theorem no_high_under_greatest_bound :
    let settings : Settings := { thresholds := ⟨0, wordBound - 1⟩ }
    settings.validate = .ok settings ∧
    settings.thresholds.classify (wordBound - 1) = .medium ∧
    ¬ ∃ loc < wordBound, settings.thresholds.classify loc = .high := by
  -- A high length would be greater than the greatest of 64 bits.
  intro settings
  refine ⟨rfl, by decide, ?_⟩
  rintro ⟨loc, small, high⟩
  have above : wordBound - 1 < loc := (classify_eq_high_iff _ loc).mp high
  omega

end Thresholds

end Stocktake

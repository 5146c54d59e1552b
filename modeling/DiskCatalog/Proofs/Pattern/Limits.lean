import Mathlib.Tactic
import DiskCatalog.Pattern.Exclusion
import DiskCatalog.Pattern.Query

/-!
# Conditions within the limits of the query engine

The query engine refuses a pattern that is too long.  A condition whose patterns are all within the
limit is never refused, and its check is then the plain question whether it holds.
-/

namespace DiskCatalog.Pattern

def Condition.HasShortPatterns (c : Condition) : Prop :=
  ∀ p ∈ c.parameters, p.utf8ByteSize ≤ maxPatternBytes

instance (c : Condition) : Decidable c.HasShortPatterns :=
  inferInstanceAs (Decidable (∀ p ∈ c.parameters, p.utf8ByteSize ≤ maxPatternBytes))

theorem Comparison.check_eq {c : Comparison} (hshort : c.pattern.utf8ByteSize ≤ maxPatternBytes)
    (value : Option String) : c.check value = .ok (c.holds value) := by
  have hlong : ¬ maxPatternBytes < c.pattern.utf8ByteSize := by omega
  simp [check, hlong]

theorem checkAll_eq {comparisons : List Comparison}
    (hshort : ∀ c ∈ comparisons, c.pattern.utf8ByteSize ≤ maxPatternBytes)
    (value : Option String) :
    checkAll value comparisons = .ok (comparisons.all (·.holds value)) := by
  induction comparisons with
  | nil => rfl
  | cons c comparisons ih =>
      rw [List.forall_mem_cons] at hshort
      simp only [checkAll, Comparison.check_eq hshort.1, ih hshort.2, List.all_cons, bind,
        Except.bind]
      cases c.holds value <;> rfl

theorem checkAny_eq {comparisons : List Comparison}
    (hshort : ∀ c ∈ comparisons, c.pattern.utf8ByteSize ≤ maxPatternBytes)
    (value : Option String) :
    checkAny value comparisons = .ok (comparisons.any (·.holds value)) := by
  induction comparisons with
  | nil => rfl
  | cons c comparisons ih =>
      rw [List.forall_mem_cons] at hshort
      simp only [checkAny, Comparison.check_eq hshort.1, ih hshort.2, List.any_cons, bind,
        Except.bind]
      cases c.holds value <;> rfl

/-- Within the limits, checking a condition says whether it holds. -/
theorem Condition.check_eq {c : Condition} (hshort : c.HasShortPatterns)
    (value : Option String) : c.check value = .ok (c.holds value) := by
  cases c with
  | all comparisons =>
      apply checkAll_eq
      intro comparison hmem
      exact hshort _ (List.mem_map_of_mem hmem)
  | some groups =>
      have hany : groups.flatten.any (·.holds value) =
          groups.any fun group => group.any (·.holds value) := by
        simp
      rw [check, checkAny_eq, hany, holds]
      intro comparison hmem
      exact hshort _ (List.mem_map_of_mem hmem)

/-! ## Beyond the limits -/

theorem Comparison.check_eq_ok {c : Comparison} {value : Option String} {b : Bool}
    (hcheck : c.check value = .ok b) : c.holds value = b := by
  unfold check at hcheck
  split at hcheck
  · contradiction
  · exact Except.ok.inj hcheck

theorem checkAll_eq_ok {comparisons : List Comparison} {value : Option String} {b : Bool}
    (hcheck : checkAll value comparisons = .ok b) : comparisons.all (·.holds value) = b := by
  induction comparisons with
  | nil => exact Except.ok.inj hcheck
  | cons c comparisons ih =>
      cases hfirst : c.check value with
      | error fault => simp [checkAll, hfirst, bind, Except.bind] at hcheck
      | ok holds =>
          simp only [checkAll, hfirst, bind, Except.bind] at hcheck
          rw [List.all_cons, Comparison.check_eq_ok hfirst]
          cases holds with
          | true => exact ih hcheck
          | false => exact Except.ok.inj hcheck

theorem checkAny_eq_ok {comparisons : List Comparison} {value : Option String} {b : Bool}
    (hcheck : checkAny value comparisons = .ok b) : comparisons.any (·.holds value) = b := by
  induction comparisons with
  | nil => exact Except.ok.inj hcheck
  | cons c comparisons ih =>
      cases hfirst : c.check value with
      | error fault => simp [checkAny, hfirst, bind, Except.bind] at hcheck
      | ok holds =>
          simp only [checkAny, hfirst, bind, Except.bind] at hcheck
          rw [List.any_cons, Comparison.check_eq_ok hfirst]
          cases holds with
          | true => exact Except.ok.inj hcheck
          | false => exact ih hcheck

/-- A check that is not refused says whether the condition holds, within the limits or not. -/
theorem Condition.check_eq_ok {c : Condition} {value : Option String} {b : Bool}
    (hcheck : c.check value = .ok b) : c.holds value = b := by
  cases c with
  | all comparisons => exact checkAll_eq_ok hcheck
  | some groups =>
      have hany := checkAny_eq_ok hcheck
      rwa [List.any_flatten] at hany

end DiskCatalog.Pattern

import DiskCatalog.Proofs.Refresh.Traffic

/-!
# Triggers that nothing disturbs

A trigger that finds the lock free and takes all its steps at once, while the catalog stays as it
is, ends in one of three ways: it finds nothing to do, it displaces the current generation, or its
build fails and the slot stays as it was.
-/

namespace DiskCatalog.Refresh

open Store Index

namespace Trigger

/-- In so many steps a trigger has finished. -/
def EndsIn (disk : Disk) (n : Nat) (k : Keeper) (t : Trigger) (k' : Keeper)
    (result : Except Failure Rebuilt) : Prop :=
  (t.steps disk n k).1 = k' ∧ (t.steps disk n k).2.1.result? = some result

theorem endsIn_of_finished {disk : Disk} {k : Keeper} {t : Trigger}
    {result : Except Failure Rebuilt} (hstage : t.stage = .finished result) (n : Nat) :
    EndsIn disk n k t k result := by
  cases n <;> simp [EndsIn, steps, step, result?, hstage]

theorem EndsIn.step {disk : Disk} {n : Nat} {k k₁ k' : Keeper} {t t₁ : Trigger}
    {logs : List Log.Record} {result : Except Failure Rebuilt}
    (hrest : EndsIn disk n k₁ t₁ k' result) (hstep : t.step k disk = some (k₁, t₁, logs)) :
    EndsIn disk (n + 1) k t k' result := by
  simpa only [EndsIn, steps, hstep] using hrest

theorem EndsIn.run_eq {disk : Disk} {k k' : Keeper} {t : Trigger}
    {result : Except Failure Rebuilt} (hends : EndsIn disk maxSteps k t k' result) :
    (t.run k disk).1 = k' ∧ (t.run k disk).2.1 = result := by
  simp [run, hends.1, hends.2]

/-! ## Builds -/

/-- The six looks of a build see the catalog as it is. -/
theorem EndsIn.look {disk : Disk} {n : Nat} {k k₁ k' : Keeper} {t t₁ : Trigger}
    {logs : List Log.Record} {result : Except Failure Rebuilt}
    (hrest : EndsIn disk n k₁ t₁ k' result)
    (hfinish : finishBuild k (t.moveTo (.building (List.replicate 6 (disk k.path))))
      (.still (disk k.path)) = (k₁, t₁, logs)) :
    EndsIn disk (n + 7) k (t.moveTo (.building [])) k' result := by
  have hbuild : (t.moveTo (.building (List.replicate 6 (disk k.path)))).step k disk =
      some (k₁, t₁, logs) := congrArg some hfinish
  have h₆ := hrest.step hbuild
  have h₅ := h₆.step (t := t.moveTo (.building (List.replicate 5 (disk k.path)))) rfl
  have h₄ := h₅.step (t := t.moveTo (.building (List.replicate 4 (disk k.path)))) rfl
  have h₃ := h₄.step (t := t.moveTo (.building (List.replicate 3 (disk k.path)))) rfl
  have h₂ := h₃.step (t := t.moveTo (.building (List.replicate 2 (disk k.path)))) rfl
  have h₁ := h₂.step (t := t.moveTo (.building [disk k.path])) rfl
  exact h₁.step rfl

theorem run_check_of_fresh {disk : Disk} {k : Keeper} (reason : String) (raising : Bool)
    (hfresh : (k.isFresh disk).1 = true) :
    ((check reason raising).run k disk).1 = k ∧
      ((check reason raising).run k disk).2.1 = .ok ⟨false, none⟩ := by
  have hstep : (check reason raising).step k disk =
      some (k, (check reason raising).moveTo (.finished (.ok ⟨false, none⟩)),
        (k.isFresh disk).2) := by
    simp [step, check, hfresh]
  exact ((endsIn_of_finished rfl 12).step hstep).run_eq

end Trigger

end DiskCatalog.Refresh

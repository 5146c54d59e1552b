import DiskCatalog.Proofs.Index.Trail

/-!
# Walks come to an end

A step of a walk skips a settled item, opens an item that waits for its parents, or takes the best
chain of an item and settles it.  Wherever it takes the best chain, each parent through which chains
go on is open or has a chain, so no chain that is looked up is missing and every step is made.  The
steps are counted by what is left to do, and once nothing is on the stack the first item has a
chain.  None of this depends on what was remembered before.
-/

namespace DiskCatalog.Index

variable {g : ItemGraph} {bound : Nat}

namespace Walk

variable {w v next : Walk} {item start : Int}

/-! ## Where the best chain is taken -/

/-- A step takes the best chain of the item on top of the stack, in a state in which it is open: it
was open before, or this step opens it and it waits for no parent. -/
inductive TakesBest (g : ItemGraph) (w : Walk) : Walk → Int → Prop
  | again {item : Int} {rest : List Int} (hstack : w.stack = item :: rest)
      (hnew : ¬ w.isSettled item) (hopen : item ∈ w.openItems) : TakesBest g w w item
  | atOnce {item : Int} {rest : List Int} (hstack : w.stack = item :: rest)
      (hnew : ¬ w.isSettled item) (hclosed : item ∉ w.openItems)
      (hnone : (w.opened item).pending g item = []) : TakesBest g w (w.opened item) item

theorem TakesBest.isReady (hw : w.Trail g start) (htakes : w.TakesBest g v item) :
    v.IsReady g item := by
  cases htakes with
  | again hstack _ hopen => exact hw.isReady hstack hopen
  | atOnce hstack hnew hclosed hnone =>
      have hopened : w.opening g item = w.opened item := by
        rw [Walk.opening, hnone]
        rfl
      have htrail := hw.opening hstack hnew hclosed
      rw [hopened] at htrail
      exact htrail.isReady hstack List.mem_cons_self

theorem TakesBest.step_eq (bound : Nat) (htakes : w.TakesBest g v item) :
    ∃ rest, w.step g bound = v.settleBest g bound item rest := by
  cases htakes with
  | @again _ rest hstack hnew hopen =>
      exact ⟨rest, by simp [Walk.step, hstack, hnew, hopen]⟩
  | @atOnce _ rest hstack hnew hclosed hnone =>
      exact ⟨rest, by rw [step_opened hstack hnew hclosed, hnone]⟩

/-- A step that takes no best chain leaves all chains as they are. -/
theorem chains_of_idle (hidle : ¬ ∃ v item, w.TakesBest g v item)
    (hstep : w.step g bound = some next) :
    next.memo = w.memo ∧ next.provisional = w.provisional := by
  obtain ⟨item, rest, hstack⟩ : ∃ item rest, w.stack = item :: rest := by
    apply List.exists_cons_of_ne_nil
    intro hnil
    rw [step_of_nil hnil] at hstep
    contradiction
  by_cases hsettled : w.isSettled item
  · simp only [Walk.step, hstack, hsettled, if_true, Option.some.injEq] at hstep
    subst hstep
    exact ⟨rfl, rfl⟩
  · by_cases hopen : item ∈ w.openItems
    · exact absurd ⟨w, item, .again hstack hsettled hopen⟩ hidle
    · rw [step_opened hstack hsettled hopen] at hstep
      cases hpending : (w.opened item).pending g item with
      | nil => exact absurd ⟨_, item, .atOnce hstack hsettled hopen hpending⟩ hidle
      | cons p above =>
          rw [hpending, Option.some.injEq] at hstep
          subst hstep
          exact ⟨rfl, rfl⟩

/-! ## Every step is made -/

/-- A walk makes exactly so many steps until nothing is left on its stack.  Each of them is made:
where one takes a best chain, every parent through which chains go on is open or has a chain. -/
structure EndsAfter (g : ItemGraph) (bound : Nat) (w : Walk) (steps : Nat) : Prop where
  goesOn : ∀ k < steps, (w.run g bound k).stack ≠ [] ∧
    (w.run g bound k).step g bound = some (w.run g bound (k + 1))
  finds : ∀ k < steps, ∀ v item, (w.run g bound k).TakesBest g v item →
    (∀ p, g.LeadsTo item p → p ∈ v.openItems ∨ p ∈ v.provisional ∨ p ∈ v.memo) ∧
    ∃ rest chain exact, v.best g bound item = some (chain, exact) ∧
      w.run g bound (k + 1) = v.settle item rest chain exact
  idle : ∀ k < steps, (¬ ∃ v item, (w.run g bound k).TakesBest g v item) →
    (w.run g bound (k + 1)).memo = (w.run g bound k).memo ∧
      (w.run g bound (k + 1)).provisional = (w.run g bound k).provisional
  stops : (w.run g bound steps).stack = []

theorem run_succ (w : Walk) (k : Nat) :
    w.run g bound (k + 1) = ((w.run g bound k).step g bound).getD (w.run g bound k) := by
  induction k generalizing w with
  | zero =>
      cases hstep : w.step g bound <;> simp [Walk.run, hstep]
  | succ k ih =>
      rw [Walk.run, Walk.run]
      cases hstep : w.step g bound with
      | none => simp [hstep]
      | some next => exact ih next

theorem Trail.endsAfter (hw : w.Trail g start) (bound : Nat) :
    ∃ steps ≤ w.remaining g, w.EndsAfter g bound steps := by
  classical
  have hend : ∃ steps, (w.run g bound steps).stack = [] :=
    ⟨w.remaining g, (hw.run bound _).2 le_rfl⟩
  have htrail : ∀ k, (w.run g bound k).Trail g start := fun k => hw.moves (hw.run bound k).1
  have hstep : ∀ k < Nat.find hend, (w.run g bound k).stack ≠ [] ∧
      (w.run g bound k).step g bound = some (w.run g bound (k + 1)) := by
    intro k hk
    have hstack := Nat.find_min hend hk
    refine ⟨hstack, ?_⟩
    obtain ⟨next, hnext, -⟩ : ∃ next, (w.run g bound k).step g bound = some next ∧ _ :=
      (htrail k).step hstack
    rw [run_succ, hnext, Option.getD_some]
  refine ⟨Nat.find hend, Nat.find_min' hend ((hw.run bound _).2 le_rfl), hstep, ?_, ?_,
    Nat.find_spec hend⟩
  · intro k hk v item htakes
    have hready := htakes.isReady (htrail k)
    obtain ⟨exact, hbest, -⟩ := best_eq bound hready
    obtain ⟨rest, hsettle⟩ := htakes.step_eq bound
    rw [(hstep k hk).2, settleBest, hbest, Option.map_some, Option.some.injEq] at hsettle
    refine ⟨fun p hp => (hready p hp).imp_right fun hsettled => ?_, rest, _, exact, hbest, hsettle⟩
    exact (isSettled_iff.mp hsettled).symm
  · intro k hk hidle
    exact chains_of_idle hidle (hstep k hk).2

/-- The walk of an item whose chain is known takes it off the stack at once. -/
theorem run_start_of_known {memo : Memo} {known : Ancestry} (hknown : memo[item]? = some known)
    (fuel : Nat) : (Walk.start memo item).run g bound (fuel + 1) = ⟨[], [], ∅, memo⟩ := by
  have hsettled : (Walk.start memo item).isSettled item := by
    rw [← isSome_find?, find?_eq, Walk.start, hknown]
    rfl
  have hstack : (Walk.start memo item).stack = [item] := rfl
  have hstep : (Walk.start memo item).step g bound = some ⟨[], [], ∅, memo⟩ := by
    simp only [Walk.step, hstack, hsettled, if_true]
    rfl
  rw [Walk.run, hstep]
  exact run_of_nil rfl fuel

end Walk

/-! ## What an item resolves to -/

namespace ItemGraph

open Walk

/-- What an item resolves to is found by its walk, which may make any number of steps that it does
not need. -/
theorem resolve_eq {maxDepth : Int} {memo : Memo} {item : Int} {steps : Nat} {chain : Ancestry}
    (hinside : g.isVolume item = false)
    (hend : (Walk.run g (boundOf maxDepth) steps (.start memo item)).stack = [])
    (hle : steps ≤ g.maxSteps)
    (hchain : (Walk.run g (boundOf maxDepth) steps (.start memo item)).find? item = some chain) :
    g.resolve maxDepth memo item =
      (chain, (Walk.run g (boundOf maxDepth) steps (.start memo item)).memo) := by
  rw [← run_of_le hend hle] at hchain ⊢
  cases hknown : memo[item]? with
  | none =>
      have hget : memo.get? item = none := hknown
      simp only [resolve, resolveWithin, hinside, Bool.false_eq_true, if_false, hget, hchain,
        Option.getD_some]
  | some known =>
      have hget : memo.get? item = some known := hknown
      have hrun : Walk.run g (boundOf maxDepth) g.maxSteps (.start memo item) =
          ⟨[], [], ∅, memo⟩ := run_start_of_known hknown _
      rw [hrun, find?_eq, hknown, Option.some_or, Option.some.injEq] at hchain
      rw [hrun]
      simp only [resolve, resolveWithin, hinside, Bool.false_eq_true, if_false, hget, hchain]

/-- Whatever is remembered, the walk of an item ends after at most one step for each item with
parents, one for each link and one more; no step misses a chain, and the item has one at the end,
to which it resolves. -/
theorem resolve_completes (g : ItemGraph) (maxDepth : Int) (memo : Memo) (item : Int) :
    ∃ steps ≤ g.parents.size + g.linkCount + 1,
      (Walk.start memo item).EndsAfter g (boundOf maxDepth) steps ∧
      ∃ chain, ((Walk.start memo item).run g (boundOf maxDepth) steps).find? item = some chain ∧
        (g.isVolume item = false → g.resolve maxDepth memo item =
          (chain, ((Walk.start memo item).run g (boundOf maxDepth) steps).memo)) := by
  have htrail := Trail.of_start g memo item
  obtain ⟨steps, hsteps, hends⟩ := htrail.endsAfter (boundOf maxDepth)
  have hless := remaining_start_lt g memo item
  have hmax : g.maxSteps = g.parents.size + g.linkCount + 2 := rfl
  have hlast := htrail.moves (htrail.run (boundOf maxDepth) steps).1
  have hsettled := hlast.start
  rw [hends.stops] at hsettled
  obtain ⟨chain, hchain⟩ := Option.isSome_iff_exists.mp
    (isSome_find?.mpr (hsettled.resolve_left List.not_mem_nil))
  refine ⟨steps, by omega, hends, chain, hchain, fun hinside => ?_⟩
  exact resolve_eq hinside hends.stops (by omega) hchain

/-- Three items in a row. -/
def ladder : ItemGraph where
  parents := ((∅ : Std.TreeMap Int (List Int)).insert 3 [2]).insert 2 [1]
  name? := fun i => if 1 ≤ i ∧ i ≤ 3 then some "d" else none
  isVolume := fun _ => false

/-- The bound is met: with two items with parents and two links, the fifth step is the last one. -/
example : (Walk.run ladder 100 4 (.start ∅ 3)).stack = [3] ∧
    (Walk.run ladder 100 5 (.start ∅ 3)).stack = [] ∧
    ladder.parents.size + ladder.linkCount + 1 = 5 := by
  decide +kernel

end ItemGraph

end DiskCatalog.Index

import Mathlib.Logic.Function.Basic
import DiskCatalog.Proofs.Index.ResolutionOrder

/-!
# The order in which a walk settles items

A walk settles every item that it meets once.  The chain of an item is made of the chains that were
settled before it; a parent that is still open adds none.  So a walk fills in a table of chains, and
the order of settling alone decides what the table holds.

An item is put onto the stack by one that leads to it and that stays open until the item is settled.
Hence every item other than the first is settled before one that leads to it, and what a walk has
settled is handed down to the item where it started.
-/

namespace DiskCatalog.Index

variable {g : ItemGraph} {bound : Nat} {start : Int}

/-! ## The order -/

namespace Walk

/-- The item that a step settles, if any. -/
def settledBy (w next : Walk) : List Int :=
  (w.stack.take 1).filter fun i => !w.isSettled i && next.isSettled i

/-- The items that a run settles, the last one first. -/
def settlings (g : ItemGraph) (bound : Nat) : Nat → Walk → List Int
  | 0, _ => []
  | fuel + 1, w =>
    match w.step g bound with
    | none => []
    | some next => settlings g bound fuel next ++ w.settledBy next

end Walk

/-- The items that the walk of an item settles, the last one first. -/
def ItemGraph.settlingOrder (g : ItemGraph) (maxDepth : Int) (item : Int) : List Int :=
  Walk.settlings g (boundOf maxDepth) g.maxSteps (.start ∅ item)

/-! ## Tables of chains -/

namespace ItemGraph

/-- The chains of items settled one after the other, the last one first.  Each is made of those
before it, and a parent that is not among these lies on a cycle with the item. -/
inductive SettledIn (g : ItemGraph) (bound : Nat) : List Int → (Int → Option Ancestry) → Prop
  | nil : SettledIn g bound [] fun _ => none
  | cons {order : List Int} {chains : Int → Option Ancestry} {item : Int}
      (hbefore : SettledIn g bound order chains) (hnew : chains item = none)
      (habove : ∀ p, g.LeadsTo item p → p ∈ order ∨ Relation.TransGen g.LeadsTo p item) :
      SettledIn g bound (item :: order)
        (Function.update chains item (some (g.bestOf bound chains item)))

variable {order : List Int} {chains : Int → Option Ancestry}

theorem SettledIn.isSome_iff (hsettled : g.SettledIn bound order chains) {i : Int} :
    (chains i).isSome ↔ i ∈ order := by
  induction hsettled with
  | nil => simp
  | @cons order chains item _ _ _ ih =>
      by_cases heq : i = item
      · simp [heq]
      · simp [heq, ih]

theorem SettledIn.nodup (hsettled : g.SettledIn bound order chains) : order.Nodup := by
  induction hsettled with
  | nil => exact List.nodup_nil
  | cons hbefore hnew _ ih =>
      refine List.nodup_cons.mpr ⟨fun hmem => ?_, ih⟩
      rw [← hbefore.isSome_iff, hnew] at hmem
      contradiction

/-- Every item on the stack was put there by one that is still open when the item is taken off. -/
def Awaited (g : ItemGraph) (start : Int) : List Int → List Int → Prop
  | _, [] => True
  | openItems, item :: rest =>
    (item = start ∨ ∃ i ∈ openItems.erase item, g.LeadsTo i item) ∧
      Awaited g start (openItems.erase item) rest

/-- Every item but the first is settled before one that leads to it. -/
def HandedDown (g : ItemGraph) (start : Int) : List Int → List Int → Prop
  | _, [] => True
  | later, item :: order =>
    (item = start ∨ ∃ i ∈ later, g.LeadsTo i item) ∧ HandedDown g start (item :: later) order

theorem Awaited.append {openItems stack above : List Int}
    (hstack : g.Awaited start openItems stack)
    (habove : ∀ p ∈ above, p ∉ openItems ∧ ∃ i ∈ openItems, g.LeadsTo i p) :
    g.Awaited start openItems (above ++ stack) := by
  induction above with
  | nil => exact hstack
  | cons p above ih =>
      rw [List.forall_mem_cons] at habove
      obtain ⟨⟨hclosed, hlink⟩, habove⟩ := habove
      rw [List.cons_append, Awaited, List.erase_of_not_mem hclosed]
      exact ⟨Or.inr hlink, ih habove⟩

theorem HandedDown.mono {later more : List Int} (hhanded : g.HandedDown start later order)
    (hmore : later ⊆ more) : g.HandedDown start more order := by
  induction order generalizing later more with
  | nil => trivial
  | cons item order ih =>
      obtain ⟨hlink, hrest⟩ := hhanded
      refine ⟨hlink.imp_right ?_, ih hrest (List.cons_subset_cons item hmore)⟩
      rintro ⟨i, hi, hp⟩
      exact ⟨i, hmore hi, hp⟩

end ItemGraph

/-! ## Walks fill in a table -/

namespace Walk

open ItemGraph

variable {w next : Walk} {item : Int} {rest order : List Int}

theorem From.chainOf_eq (hw : w.From g bound start) : w.chainOf = w.find? := by
  funext p
  rw [find?_eq]
  by_cases hopen : p ∈ w.openItems
  · have hnew := hw.unsettled p hopen
    rw [isSettled_iff, not_or] at hnew
    rw [chainOf, if_pos hopen, Std.TreeMap.getElem?_eq_none hnew.1,
      Std.TreeMap.getElem?_eq_none hnew.2, Option.none_or]
  · rw [chainOf, if_neg hopen]
    by_cases hmemo : p ∈ w.memo
    · -- what is remembered has a certain chain, and what is provisional has none
      have hprovisional : p ∉ w.provisional :=
        fun hmem => hw.provisional p hmem (hw.isCertain_of_mem hmemo)
      rw [Std.TreeMap.getElem?_eq_none hprovisional, Option.none_or, Option.or_none]
    · rw [Std.TreeMap.getElem?_eq_none hmemo, Option.none_or, Option.or_none]

theorem find?_settle (hnew : ¬ w.isSettled item) (chain : Ancestry) (exact : Bool) :
    (w.settle item rest chain exact).find? = Function.update w.find? item (some chain) := by
  rw [isSettled_iff, not_or] at hnew
  funext p
  by_cases heq : p = item
  · subst heq
    cases exact <;> simp [find?_eq, settle, Std.TreeMap.getElem?_eq_none hnew.1]
  · have hne : ¬ item = p := fun hitem => heq hitem.symm
    cases exact <;> simp [find?_eq, settle, Std.TreeMap.getElem?_insert, heq, hne]

/-- What holds of a walk that has settled some items, the last one first. -/
structure Traced (g : ItemGraph) (bound : Nat) (start : Int) (w : Walk) (order : List Int) :
    Prop where
  origin : w.From g bound start
  table : g.SettledIn bound order w.find?
  awaited : g.Awaited start w.openItems w.stack
  handed : g.HandedDown start w.openItems order
  closed : ∀ i ∈ order, ∀ p, g.LeadsTo i p → p ∈ order ∨ p ∈ w.openItems

namespace Traced

theorem isSettled_iff (hw : w.Traced g bound start order) {i : Int} :
    w.isSettled i ↔ i ∈ order := by
  rw [← isSome_find?, hw.table.isSome_iff]

theorem of_start (g : ItemGraph) (bound : Nat) (start : Int) :
    Traced g bound start (.start ∅ start) [] where
  origin := .of_start (Memo.isSound_empty g bound) start
  table := .nil
  awaited := ⟨Or.inl rfl, trivial⟩
  handed := trivial
  closed := by simp

theorem skip (hw : w.Traced g bound start order) (hstack : w.stack = item :: rest)
    (hsettled : w.isSettled item) : Traced g bound start { w with stack := rest } order where
  origin := hw.origin.skip hstack hsettled
  table := hw.table
  awaited := by
    have hclosed : item ∉ w.openItems := fun hopen => hw.origin.unsettled item hopen hsettled
    have hawaited := hw.awaited
    rw [hstack, Awaited, List.erase_of_not_mem hclosed] at hawaited
    exact hawaited.2
  handed := hw.handed
  closed := hw.closed

theorem opening (hw : w.Traced g bound start order) (hstack : w.stack = item :: rest)
    (hnew : ¬ w.isSettled item) (hclosed : item ∉ w.openItems) :
    Traced g bound start (w.opening g item) order where
  origin := hw.origin.opening hstack hnew hclosed
  table := hw.table
  awaited := by
    have hawaited := hw.awaited
    rw [hstack, Awaited, List.erase_of_not_mem hclosed] at hawaited
    apply Awaited.append
    · rw [hstack]
      -- below what is added to it, the stack waits for the same items once the item is taken off
      have hsame : (w.opening g item).openItems.erase item = w.openItems :=
        List.erase_cons_head item w.openItems
      rwa [Awaited, hsame]
    · intro p hp
      obtain ⟨hlink, -, hpclosed⟩ := mem_pending.mp hp
      exact ⟨hpclosed, item, List.mem_cons_self, hlink⟩
  handed := hw.handed.mono (List.subset_cons_self item w.openItems)
  closed := by
    intro i hi p hp
    exact (hw.closed i hi p hp).imp_right (List.mem_cons_of_mem item)

theorem settle (hw : w.Traced g bound start order) (hstack : w.stack = item :: rest)
    (hopen : item ∈ w.openItems) {chain : Ancestry} {exact : Bool}
    (hbest : w.best g bound item = some (chain, exact)) :
    Traced g bound start (w.settle item rest chain exact) (item :: order) := by
  have hready := hw.origin.trail.isReady hstack hopen
  obtain ⟨rfl, -⟩ := eq_of_best hready hbest
  have hnew := hw.origin.unsettled item hopen
  have hawaited := hw.awaited
  rw [hstack, Awaited] at hawaited
  constructor
  case origin => exact hw.origin.settle hstack hopen hbest
  case table =>
    rw [find?_settle hnew, hw.origin.chainOf_eq]
    apply hw.table.cons
    · rwa [← Option.not_isSome_iff_eq_none, isSome_find?]
    · intro p hp
      rcases hready p hp with hpopen | hsettled
      · exact Or.inr (hw.origin.trail.cycle_of_open hstack hp hpopen)
      · exact Or.inl (hw.isSettled_iff.mp hsettled)
  case awaited => exact hawaited.2
  case handed =>
    -- the one that put the item onto the stack is open still, and will be settled later
    refine ⟨hawaited.1, hw.handed.mono fun i hi => ?_⟩
    by_cases heq : i = item
    · exact heq ▸ List.mem_cons_self
    · exact List.mem_cons_of_mem _ ((List.mem_erase_of_ne heq).mpr hi)
  case closed =>
    have hkept : ∀ p, p ∈ order ∨ p ∈ w.openItems →
        p ∈ item :: order ∨ p ∈ w.openItems.erase item := by
      intro p hp
      by_cases heq : p = item
      · exact Or.inl (heq ▸ List.mem_cons_self)
      · exact hp.imp (List.mem_cons_of_mem item) (List.mem_erase_of_ne heq).mpr
    intro i hi p hp
    apply hkept
    rcases List.mem_cons.mp hi with rfl | hi
    · exact (hready p hp).symm.imp_left hw.isSettled_iff.mp
    · exact hw.closed i hi p hp

theorem move (hw : w.Traced g bound start order) (hmove : w.Move g bound next) :
    next.Traced g bound start (w.settledBy next ++ order) := by
  cases hmove with
  | @skip item rest hstack hsettled =>
      have hnone : w.settledBy { w with stack := rest } = [] := by
        simp [settledBy, hstack, hsettled]
      rw [hnone]
      exact hw.skip hstack hsettled
  | @opening item rest hstack hnew hclosed =>
      have hsame : (w.opening g item).isSettled item = w.isSettled item := rfl
      have hnone : w.settledBy (w.opening g item) = [] := by
        simp [settledBy, hstack, hsame, hnew]
      rw [hnone]
      exact hw.opening hstack hnew hclosed
  | @settle item rest chain exact hstack hopen hbest =>
      have hnew := hw.origin.unsettled item hopen
      have hsettled : (w.settle item rest chain exact).isSettled item :=
        isSettled_settle.mpr (Or.inl rfl)
      have hitem : w.settledBy (w.settle item rest chain exact) = [item] := by
        simp [settledBy, hstack, hnew, hsettled]
      rw [hitem]
      exact hw.settle hstack hopen hbest

theorem stride (hw : w.Traced g bound start order) (hstride : w.Stride g bound next) :
    next.Traced g bound start (w.settledBy next ++ order) := by
  cases hstride with
  | move hmove => exact hw.move hmove
  | @openAndSettle item hopening hsettling =>
      have hopened := hw.move hopening
      have hnone : w.settledBy (w.opened item) = [] := by
        have hsame : (w.opened item).isSettled = w.isSettled := rfl
        simp [settledBy, hsame]
      rw [hnone, List.nil_append] at hopened
      exact hopened.move hsettling

theorem run (hw : w.Traced g bound start order) (fuel : Nat) :
    (w.run g bound fuel).Traced g bound start (w.settlings g bound fuel ++ order) := by
  induction fuel generalizing w order with
  | zero => exact hw
  | succ fuel ih =>
      by_cases hstack : w.stack = []
      · rw [Walk.run, settlings, step_of_nil hstack]
        exact hw
      · obtain ⟨next, hstep, hstride, -⟩ := hw.origin.trail.step hstack
        rw [Walk.run, settlings, hstep]
        simp only [List.append_assoc]
        exact ih (hw.stride hstride)

end Traced

end Walk

namespace ItemGraph

/-- What is known of the items that a walk has settled, the last one first, once it has ended. -/
structure Complete (g : ItemGraph) (bound : Nat) (start : Int) (order : List Int)
    (chains : Int → Option Ancestry) : Prop where
  table : g.SettledIn bound order chains
  handed : g.HandedDown start [] order
  closed : ∀ i ∈ order, ∀ p, g.LeadsTo i p → p ∈ order
  start : start ∈ order

/-- The ancestry of an item stands in the table of its settling order. -/
theorem exists_complete (maxDepth : Int) {item : Int} (hinside : g.isVolume item = false) :
    ∃ chains, g.Complete (boundOf maxDepth) item (g.settlingOrder maxDepth item) chains ∧
      chains item = some (g.ancestry maxDepth item) := by
  have hnone : Memo.IsSound g (boundOf maxDepth) ∅ := Memo.isSound_empty g _
  obtain ⟨-, hempty, hsettled⟩ := Walk.run_start g (boundOf maxDepth) ∅ item
  have hend := (Walk.Traced.of_start g (boundOf maxDepth) item).run g.maxSteps
  rw [List.append_nil] at hend
  have hclosed : (Walk.run g (boundOf maxDepth) g.maxSteps (.start ∅ item)).openItems = [] := by
    rw [List.eq_nil_iff_forall_not_mem]
    intro i hi
    obtain ⟨above, below, hcovers⟩ := hend.origin.covers i hi
    have hstack := hcovers.stack
    rw [hempty] at hstack
    simp at hstack
  refine ⟨_, ⟨hend.table, ?_, ?_, hend.isSettled_iff.mp hsettled⟩, ?_⟩
  · exact hclosed ▸ hend.handed
  · intro i hi p hp
    exact (hend.closed i hi p hp).resolve_right (by simp [hclosed])
  · exact find?_walkFrom hnone hinside

end ItemGraph

end DiskCatalog.Index

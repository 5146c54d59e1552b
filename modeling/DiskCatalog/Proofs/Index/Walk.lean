import DiskCatalog.Proofs.Index.Trail

/-!
# Walks through ancestors

An item whose ancestors meet no cycle has one certain chain, which is made of the certain chains of
its parents.  A walk remembers certain chains only.  What it settles for itself alone has no certain
chain: a chain that was cut at an open item was cut on a cycle.
-/

namespace DiskCatalog.Index

variable {g : ItemGraph} {bound : Nat}

namespace ItemGraph

/-! ## Certain chains -/

/-- The chain of an item above which there is no cycle. -/
inductive Certain (g : ItemGraph) (bound : Nat) : Int → Ancestry → Prop
  | intro {item : Int} (above : Int → Ancestry)
      (habove : ∀ p, g.LeadsTo item p → Certain g bound p (above p)) :
      Certain g bound item (g.bestOf bound (fun p => some (above p)) item)

def IsCertain (g : ItemGraph) (bound : Nat) (item : Int) : Prop :=
  ∃ chain, g.Certain bound item chain

theorem Certain.unique {item : Int} {a b : Ancestry} (ha : g.Certain bound item a)
    (hb : g.Certain bound item b) : a = b := by
  induction ha generalizing b with
  | intro above _ ih =>
      cases hb with
      | intro above' habove' =>
          apply bestOf_congr
          intro p hp
          rw [ih p hp (habove' p hp)]

theorem Certain.not_cyclic {item : Int} {a : Ancestry} (ha : g.Certain bound item a) :
    ¬ Relation.TransGen g.LeadsTo item item := by
  induction ha with
  | intro above _ ih =>
      intro hcycle
      -- the cycle is one of the first parent on it, too
      obtain ⟨p, hp, hback⟩ := Relation.TransGen.head'_iff.mp hcycle
      exact ih p hp (Relation.TransGen.tail' hback hp)

theorem IsCertain.parent {item p : Int} (hitem : g.IsCertain bound item)
    (hp : g.LeadsTo item p) : g.IsCertain bound p := by
  obtain ⟨_, above, habove⟩ := hitem
  exact ⟨above p, habove p hp⟩

theorem IsCertain.ancestor {item p : Int} (hitem : g.IsCertain bound item)
    (hp : Relation.TransGen g.LeadsTo item p) : g.IsCertain bound p := by
  induction hp with
  | single hlink => exact hitem.parent hlink
  | tail _ hlink ih => exact ih.parent hlink

/-- Chains that are certain for the parents make the chain of the item certain. -/
theorem Certain.of_above {item : Int} {above : Int → Option Ancestry}
    (habove : ∀ p, g.LeadsTo item p → ∃ a, above p = some a ∧ g.Certain bound p a) :
    g.Certain bound item (g.bestOf bound above item) := by
  have hsame : ∀ p, g.LeadsTo item p → above p = some ((above p).getD (.ofVolume p)) := by
    intro p hp
    obtain ⟨a, ha, -⟩ := habove p hp
    rw [ha, Option.getD_some]
  rw [bestOf_congr hsame]
  apply Certain.intro
  intro p hp
  obtain ⟨a, ha, hcertain⟩ := habove p hp
  rwa [ha, Option.getD_some]

end ItemGraph

/-- What is remembered are certain chains. -/
def Memo.IsSound (g : ItemGraph) (bound : Nat) (memo : Memo) : Prop :=
  ∀ i a, memo[i]? = some a → g.Certain bound i a

theorem Memo.isSound_empty (g : ItemGraph) (bound : Nat) : Memo.IsSound g bound ∅ := by
  intro i a ha
  rw [Std.TreeMap.getElem?_emptyc] at ha
  contradiction

namespace Walk

open ItemGraph

variable {w next : Walk} {item start : Int}

/-! ## What holds throughout a walk -/

structure From (g : ItemGraph) (bound : Nat) (start : Int) (w : Walk) : Prop where
  memo : w.memo.IsSound g bound
  provisional : ∀ i ∈ w.provisional, ¬ g.IsCertain bound i
  nodup : w.openItems.Nodup
  unsettled : ∀ i ∈ w.openItems, ¬ w.isSettled i
  covers : ∀ i ∈ w.openItems, ∃ above below, w.Covers g i above below
  start : start ∈ w.stack ∨ w.isSettled start

namespace From

variable {rest : List Int}

theorem trail (hw : w.From g bound start) : w.Trail g start :=
  ⟨hw.nodup, hw.unsettled, hw.covers, hw.start⟩

theorem of_trail (htrail : w.Trail g start) (hmemo : w.memo.IsSound g bound)
    (hprovisional : ∀ i ∈ w.provisional, ¬ g.IsCertain bound i) : w.From g bound start where
  memo := hmemo
  provisional := hprovisional
  nodup := htrail.nodup
  unsettled := htrail.unsettled
  covers := htrail.covers
  start := htrail.start

theorem of_start {memo : Memo} (hmemo : memo.IsSound g bound) (start : Int) :
    From g bound start (.start memo start) :=
  of_trail (.of_start g memo start) hmemo (by simp [Walk.start])

theorem isCertain_of_mem (hw : w.From g bound start) {i : Int} (hi : i ∈ w.memo) :
    g.IsCertain bound i := by
  obtain ⟨a, ha⟩ := Option.isSome_iff_exists.mp (Std.TreeMap.mem_iff_isSome_getElem?.mp hi)
  exact ⟨a, hw.memo i a ha⟩

/-- No parent of an item with a certain chain is open when the item is on top of the stack. -/
theorem not_open_of_isCertain (hw : w.From g bound start) (hstack : w.stack = item :: rest)
    (hitem : g.IsCertain bound item) {p : Int} (hp : g.LeadsTo item p) : p ∉ w.openItems := by
  intro hopen
  obtain ⟨_, hcertain⟩ := hitem
  exact hcertain.not_cyclic (.head hp (hw.trail.cycle_of_open hstack hp hopen))

theorem certain_of_isExact (hw : w.From g bound start) (hready : w.IsReady g item)
    (hexact : w.IsExact g item) : g.Certain bound item (g.bestOf bound w.chainOf item) := by
  apply ItemGraph.Certain.of_above
  intro p hp
  obtain ⟨hclosed, hprovisional⟩ := hexact p hp
  have hmemo : p ∈ w.memo :=
    (isSettled_iff.mp ((hready p hp).resolve_left hclosed)).resolve_right hprovisional
  obtain ⟨a, ha⟩ := Option.isSome_iff_exists.mp (Std.TreeMap.mem_iff_isSome_getElem?.mp hmemo)
  refine ⟨a, ?_, hw.memo p a ha⟩
  rw [chainOf, if_neg hclosed, Std.TreeMap.getElem?_eq_none hprovisional, Option.none_or, ha]

theorem isExact_iff (hw : w.From g bound start) (hstack : w.stack = item :: rest)
    (hopen : item ∈ w.openItems) : w.IsExact g item ↔ g.IsCertain bound item := by
  constructor
  · intro hexact
    exact ⟨_, hw.certain_of_isExact (hw.trail.isReady hstack hopen) hexact⟩
  · intro hcertain p hp
    refine ⟨hw.not_open_of_isCertain hstack hcertain hp, ?_⟩
    intro hprovisional
    exact hw.provisional p hprovisional (hcertain.parent hp)

theorem skip (hw : w.From g bound start) (hstack : w.stack = item :: rest)
    (hsettled : w.isSettled item) : From g bound start { w with stack := rest } :=
  of_trail (hw.trail.skip hstack hsettled) hw.memo hw.provisional

theorem opening (hw : w.From g bound start) (hstack : w.stack = item :: rest)
    (hnew : ¬ w.isSettled item) (hclosed : item ∉ w.openItems) :
    From g bound start (w.opening g item) :=
  of_trail (hw.trail.opening hstack hnew hclosed) hw.memo hw.provisional

theorem settle (hw : w.From g bound start) (hstack : w.stack = item :: rest)
    (hopen : item ∈ w.openItems) {chain : Ancestry} {exact : Bool}
    (hbest : w.best g bound item = some (chain, exact)) :
    From g bound start (w.settle item rest chain exact) := by
  have hready := hw.trail.isReady hstack hopen
  obtain ⟨rfl, hexact⟩ := eq_of_best hready hbest
  apply of_trail (hw.trail.settle hstack _ _)
  case hmemo =>
    intro i a ha
    cases exact with
    | false => exact hw.memo i a ha
    | true =>
        simp only [Walk.settle, if_true, Std.TreeMap.getElem?_insert,
          Std.LawfulEqCmp.compare_eq_iff_eq] at ha
        split at ha
        · rename_i heq
          subst heq
          obtain rfl := Option.some.inj ha
          exact hw.certain_of_isExact hready (hexact.mp rfl)
        · exact hw.memo i a ha
  case hprovisional =>
    intro i hi
    cases exact with
    | true => exact hw.provisional i hi
    | false =>
        simp only [Walk.settle, Bool.false_eq_true, if_false, Std.TreeMap.mem_insert,
          Std.LawfulEqCmp.compare_eq_iff_eq] at hi
        rcases hi with rfl | hi
        · intro hcertain
          have hinexact := hexact.mpr ((hw.isExact_iff hstack hopen).mpr hcertain)
          contradiction
        · exact hw.provisional i hi

theorem move (hw : w.From g bound start) (hmove : w.Move g bound next) :
    next.From g bound start := by
  cases hmove with
  | skip hstack hsettled => exact hw.skip hstack hsettled
  | opening hstack hnew hclosed => exact hw.opening hstack hnew hclosed
  | settle hstack hopen hbest => exact hw.settle hstack hopen hbest

theorem moves (hw : w.From g bound start) (hmoves : Relation.ReflTransGen (Move g bound) w next) :
    next.From g bound start := by
  induction hmoves with
  | refl => exact hw
  | tail _ hmove ih => exact ih.move hmove

end From

end Walk

end DiskCatalog.Index

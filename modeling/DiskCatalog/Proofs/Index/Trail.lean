import Mathlib.Logic.Relation
import DiskCatalog.Index.Ancestry
import DiskCatalog.Proofs.Store.Links

/-!
# Moves of a walk

A walk makes three sorts of moves: it skips a settled item, opens an item, or settles an open one.
Every parent of an open item is settled, is open, or stands above the item on the stack, so a walk
that comes back to an open item can settle it.  Each step takes something off the stack or opens an
item for the first time, so a walk ends within its bound, with its item settled, whatever was
remembered when it started.
-/

namespace DiskCatalog.Index

open Store Store.Catalog

variable {g : ItemGraph} {bound : Nat}

namespace ItemGraph

/-- A parent through which chains go on upwards: an item that exists and is no volume. -/
structure LeadsTo (g : ItemGraph) (item p : Int) : Prop where
  parent : p ∈ g.parentsOf item
  named : g.isNamed p = true
  inside : g.isVolume p = false

theorem not_leadsTo_of_missing {item p : Int} (hmissing : g.isNamed p = false) :
    ¬ g.LeadsTo item p := by
  intro hlink
  simp [hlink.named] at hmissing

theorem not_leadsTo_of_volume {item p : Int} (hvolume : g.isVolume p = true) :
    ¬ g.LeadsTo item p := by
  intro hlink
  simp [hlink.inside] at hvolume

/-- The chain through one parent; it starts anew below a parent that has none. -/
def chainThrough (g : ItemGraph) (bound : Nat) (above : Int → Option Ancestry) (name : TextCell)
    (p : Int) : Ancestry :=
  if !g.isNamed p then .alone name
  else if g.isVolume p then ⟨[name], some p, 1⟩
  else ((above p).map (·.extend bound name)).getD (.alone name)

/-- The best chain of an item, given the chains above it. -/
def bestOf (g : ItemGraph) (bound : Nat) (above : Int → Option Ancestry) (item : Int) : Ancestry :=
  let chains := (g.parentsOf item).map (g.chainThrough bound above (g.nameOf item))
  (chains.foldl (fun best chain => some (Ancestry.better best chain)) none).getD
    (.alone (g.nameOf item))

theorem bestOf_congr {above above' : Int → Option Ancestry} {item : Int}
    (hsame : ∀ p, g.LeadsTo item p → above p = above' p) :
    g.bestOf bound above item = g.bestOf bound above' item := by
  have hchains : (g.parentsOf item).map (g.chainThrough bound above (g.nameOf item)) =
      (g.parentsOf item).map (g.chainThrough bound above' (g.nameOf item)) := by
    apply List.map_congr_left
    intro p hp
    unfold chainThrough
    cases hnamed : g.isNamed p with
    | false => rfl
    | true =>
        cases hvolume : g.isVolume p with
        | true => rfl
        | false => simp [hsame p ⟨hp, hnamed, hvolume⟩]
  unfold bestOf
  rw [hchains]

end ItemGraph

namespace Walk

open ItemGraph

variable {w next : Walk} {item start : Int}

/-! ## The chains that a walk has -/

/-- The chain of an item that a walk goes on from; an open item has none yet. -/
def chainOf (w : Walk) (p : Int) : Option Ancestry :=
  if p ∈ w.openItems then none else w.provisional[p]?.or w.memo[p]?

/-- The parents through which the chains of an item go on are open or settled. -/
def IsReady (g : ItemGraph) (w : Walk) (item : Int) : Prop :=
  ∀ p, g.LeadsTo item p → p ∈ w.openItems ∨ w.isSettled p

/-- Nothing that the best chain of an item is made of belongs to this walk alone. -/
def IsExact (g : ItemGraph) (w : Walk) (item : Int) : Prop :=
  ∀ p, g.LeadsTo item p → p ∉ w.openItems ∧ p ∉ w.provisional

theorem isSettled_iff {p : Int} : w.isSettled p ↔ p ∈ w.memo ∨ p ∈ w.provisional := by
  simp [isSettled]

theorem find?_eq (w : Walk) (p : Int) : w.find? p = w.memo[p]?.or w.provisional[p]? :=
  rfl

theorem isSome_find? {p : Int} : (w.find? p).isSome ↔ w.isSettled p := by
  simp [find?_eq, isSettled]

theorem through_eq (bound : Nat) (name : TextCell) {p : Int} (hp : p ∈ g.parentsOf item)
    (hready : w.IsReady g item) :
    ∃ holds : Bool,
      w.through g bound name p = some (g.chainThrough bound w.chainOf name p, holds) ∧
      (holds ↔ (g.LeadsTo item p → p ∉ w.openItems ∧ p ∉ w.provisional)) := by
  unfold through chainThrough
  cases hnamed : g.isNamed p with
  | false =>
      exact ⟨true, rfl, by simp [not_leadsTo_of_missing hnamed]⟩
  | true =>
      cases hvolume : g.isVolume p with
      | true =>
          exact ⟨true, rfl, by simp [not_leadsTo_of_volume hvolume]⟩
      | false =>
          have hlink : g.LeadsTo item p := ⟨hp, hnamed, hvolume⟩
          by_cases hopen : p ∈ w.openItems
          · exact ⟨false, by simp [hopen, chainOf], by simp [hlink, hopen]⟩
          · cases hprovisional : w.provisional[p]? with
            | some above =>
                have hmem : p ∈ w.provisional :=
                  Std.TreeMap.mem_iff_isSome_getElem?.mpr (by rw [hprovisional]; rfl)
                exact ⟨false, by simp [hopen, chainOf, hprovisional], by simp [hlink, hmem]⟩
            | none =>
                have hnot : p ∉ w.provisional := (getElem?_eq_none_iff _ _).mp hprovisional
                have hmemo : p ∈ w.memo :=
                  (isSettled_iff.mp ((hready p hlink).resolve_left hopen)).resolve_right hnot
                obtain ⟨above, habove⟩ := Option.isSome_iff_exists.mp
                  (Std.TreeMap.mem_iff_isSome_getElem?.mp hmemo)
                exact ⟨true, by simp [hopen, chainOf, hprovisional, habove], by simp [hopen, hnot]⟩

theorem bestOver_eq (bound : Nat) (name : TextCell) {parents : List Int}
    (hparents : ∀ p ∈ parents, p ∈ g.parentsOf item) (hready : w.IsReady g item)
    (best : Option Ancestry) (exact : Bool) :
    ∃ holds : Bool, w.bestOver g bound name best exact parents =
        some ((parents.map (g.chainThrough bound w.chainOf name)).foldl
          (fun best chain => some (Ancestry.better best chain)) best, holds) ∧
      (holds ↔ exact ∧ ∀ p ∈ parents, g.LeadsTo item p → p ∉ w.openItems ∧ p ∉ w.provisional) := by
  induction parents generalizing best exact with
  | nil => exact ⟨exact, rfl, by simp⟩
  | cons p parents ih =>
      rw [List.forall_mem_cons] at hparents
      obtain ⟨holds, hthrough, hholds⟩ := through_eq bound name hparents.1 hready
      obtain ⟨all, hover, hall⟩ := ih hparents.2
        (some (Ancestry.better best (g.chainThrough bound w.chainOf name p))) (exact && holds)
      refine ⟨all, ?_, ?_⟩
      · simpa [bestOver, hthrough] using hover
      · rw [hall, Bool.and_eq_true, hholds, List.forall_mem_cons, and_assoc]

theorem best_eq (bound : Nat) (hready : w.IsReady g item) :
    ∃ exact : Bool, w.best g bound item = some (g.bestOf bound w.chainOf item, exact) ∧
      (exact ↔ w.IsExact g item) := by
  obtain ⟨exact, hover, hexact⟩ :=
    bestOver_eq bound (g.nameOf item) (fun _ hp => hp) hready none true
  refine ⟨exact, ?_, ?_⟩
  · simp [best, hover, bestOf]
  · rw [hexact]
    constructor
    · rintro ⟨-, hall⟩ p hp
      exact hall p hp.parent hp
    · intro hall
      exact ⟨rfl, fun p _ hp => hall p hp⟩

theorem eq_of_best (hready : w.IsReady g item) {chain : Ancestry} {exact : Bool}
    (hbest : w.best g bound item = some (chain, exact)) :
    g.bestOf bound w.chainOf item = chain ∧ (exact ↔ w.IsExact g item) := by
  obtain ⟨_, hfound, hexact⟩ := best_eq bound hready
  rw [hbest, Option.some.injEq, Prod.mk.injEq] at hfound
  obtain ⟨rfl, rfl⟩ := hfound
  exact ⟨rfl, hexact⟩

/-! ## Moves -/

def opened (w : Walk) (item : Int) : Walk :=
  { w with openItems := item :: w.openItems }

/-- Opens an item and puts what has to be settled before it onto the stack. -/
def opening (g : ItemGraph) (w : Walk) (item : Int) : Walk :=
  { w.opened item with stack := (w.opened item).pending g item ++ w.stack }

inductive Move (g : ItemGraph) (bound : Nat) (w : Walk) : Walk → Prop
  | skip {item : Int} {rest : List Int} (hstack : w.stack = item :: rest)
      (hsettled : w.isSettled item) : Move g bound w { w with stack := rest }
  | opening {item : Int} {rest : List Int} (hstack : w.stack = item :: rest)
      (hnew : ¬ w.isSettled item) (hclosed : item ∉ w.openItems) : Move g bound w (w.opening g item)
  | settle {item : Int} {rest : List Int} {chain : Ancestry} {exact : Bool}
      (hstack : w.stack = item :: rest) (hopen : item ∈ w.openItems)
      (hbest : w.best g bound item = some (chain, exact)) :
      Move g bound w (w.settle item rest chain exact)

theorem isSettled_settle {rest : List Int} {chain : Ancestry} {exact : Bool} {i : Int} :
    (w.settle item rest chain exact).isSettled i ↔ i = item ∨ w.isSettled i := by
  cases exact with
  | true =>
      simp only [settle, isSettled_iff, if_true, Std.TreeMap.mem_insert,
        Std.LawfulEqCmp.compare_eq_iff_eq, eq_comm (a := item)]
      tauto
  | false =>
      simp only [settle, isSettled_iff, Bool.false_eq_true, if_false, Std.TreeMap.mem_insert,
        Std.LawfulEqCmp.compare_eq_iff_eq, eq_comm (a := item)]
      tauto

theorem mem_pending {p : Int} :
    p ∈ w.pending g item ↔ g.LeadsTo item p ∧ ¬ w.isSettled p ∧ p ∉ w.openItems := by
  simp only [pending, List.mem_filter, Bool.and_eq_true, Bool.not_eq_true', List.contains_eq_mem,
    decide_eq_false_iff_not, Bool.not_eq_true]
  constructor
  · rintro ⟨hp, ⟨⟨hnamed, hinside⟩, hnew⟩, hclosed⟩
    exact ⟨⟨hp, hnamed, hinside⟩, hnew, hclosed⟩
  · rintro ⟨⟨hp, hnamed, hinside⟩, hnew, hclosed⟩
    exact ⟨hp, ⟨⟨hnamed, hinside⟩, hnew⟩, hclosed⟩

/-! ## What holds throughout a walk -/

/-- The part of the stack above an open item holds those of its ancestors that come first. -/
structure Covers (g : ItemGraph) (w : Walk) (item : Int) (above below : List Int) : Prop where
  stack : w.stack = above ++ item :: below
  fresh : item ∉ above
  ancestors : ∀ i ∈ above, Relation.TransGen g.LeadsTo item i
  parents : ∀ p, g.LeadsTo item p → w.isSettled p ∨ p ∈ w.openItems ∨ p ∈ above
theorem Covers.cons {i : Int} {above below rest : List Int} (hi : w.Covers g i above below)
    (hstack : w.stack = item :: rest) (hne : i ≠ item) :
    ∃ more, above = item :: more ∧ rest = more ++ i :: below := by
  have hsplit := hi.stack
  rw [hstack] at hsplit
  cases above with
  | nil =>
      rw [List.nil_append, List.cons.injEq] at hsplit
      exact absurd hsplit.1.symm hne
  | cons first more =>
      rw [List.cons_append, List.cons.injEq] at hsplit
      exact ⟨more, by rw [hsplit.1], hsplit.2⟩

/-- What covers an open item still does so once the item on top has been settled and taken off. -/
theorem Covers.pop {i : Int} {above below rest : List Int} (hi : w.Covers g i above below)
    (hstack : w.stack = item :: rest) (hne : i ≠ item) (hrest : next.stack = rest)
    (hsettled : next.isSettled item)
    (hkept : ∀ p, w.isSettled p ∨ p ∈ w.openItems → next.isSettled p ∨ p ∈ next.openItems) :
    ∃ above below, next.Covers g i above below := by
  obtain ⟨more, rfl, hsplit⟩ := hi.cons hstack hne
  refine ⟨more, below, hrest.trans hsplit, fun hmem => hi.fresh (List.mem_cons_of_mem _ hmem),
    fun j hj => hi.ancestors j (List.mem_cons_of_mem _ hj), ?_⟩
  intro p hp
  rcases hi.parents p hp with hold | hopen | hmem
  · exact (hkept p (Or.inl hold)).imp_right Or.inl
  · exact (hkept p (Or.inr hopen)).imp_right Or.inl
  · rcases List.mem_cons.mp hmem with rfl | hmem
    · exact Or.inl hsettled
    · exact Or.inr (Or.inr hmem)

theorem fresh_opening {i : Int} (hi : i ∈ item :: w.openItems) :
    i ∉ (w.opened item).pending g item :=
  fun hmem => (mem_pending.mp hmem).2.2 hi

/-- What is put onto the stack as an item is opened covers it. -/
theorem covers_opening {rest : List Int} (hstack : w.stack = item :: rest) :
    (w.opening g item).Covers g item ((w.opened item).pending g item) rest where
  stack := by rw [Walk.opening, hstack]
  fresh := fresh_opening List.mem_cons_self
  ancestors := fun i hi => .single (mem_pending.mp hi).1
  parents := by
    intro p hp
    by_cases hsettled : w.isSettled p
    · exact Or.inl hsettled
    · by_cases hopen : p ∈ item :: w.openItems
      · exact Or.inr (Or.inl hopen)
      · exact Or.inr (Or.inr (mem_pending.mpr ⟨hp, hsettled, hopen⟩))

/-- What covers an open item still does so, together with what is put on top of it. -/
theorem Covers.opening {i : Int} {above below rest : List Int} (hcovers : w.Covers g i above below)
    (hstack : w.stack = item :: rest) (hi : i ∈ w.openItems) (hne : i ≠ item) :
    (w.opening g item).Covers g i ((w.opened item).pending g item ++ above) below where
  stack := by rw [Walk.opening, hcovers.stack, List.append_assoc]
  fresh := by
    intro hmem
    exact (List.mem_append.mp hmem).elim (fresh_opening (List.mem_cons_of_mem item hi))
      hcovers.fresh
  ancestors := by
    obtain ⟨more, rfl, -⟩ := hcovers.cons hstack hne
    have hitem := hcovers.ancestors item List.mem_cons_self
    intro j hj
    rcases List.mem_append.mp hj with hj | hj
    · exact hitem.tail (mem_pending.mp hj).1
    · exact hcovers.ancestors j hj
  parents := by
    intro p hp
    rcases hcovers.parents p hp with hold | hopen | hmem
    · exact Or.inl hold
    · exact Or.inr (Or.inl (List.mem_cons_of_mem item hopen))
    · exact Or.inr (Or.inr (List.mem_append_right _ hmem))

/-- What the stack of a walk tells of its open items, whatever is remembered. -/
structure Trail (g : ItemGraph) (start : Int) (w : Walk) : Prop where
  nodup : w.openItems.Nodup
  unsettled : ∀ i ∈ w.openItems, ¬ w.isSettled i
  covers : ∀ i ∈ w.openItems, ∃ above below, w.Covers g i above below
  start : start ∈ w.stack ∨ w.isSettled start

namespace Trail

variable {rest : List Int}

theorem of_start (g : ItemGraph) (memo : Memo) (start : Int) :
    Trail g start (.start memo start) where
  nodup := List.nodup_nil
  unsettled := by simp [Walk.start]
  covers := by simp [Walk.start]
  start := Or.inl (List.mem_singleton_self start)

/-- An open item that comes back to the top of the stack can be settled. -/
theorem isReady (hw : w.Trail g start) (hstack : w.stack = item :: rest)
    (hopen : item ∈ w.openItems) : w.IsReady g item := by
  obtain ⟨above, below, hcovers⟩ := hw.covers item hopen
  have habove : above = [] := by
    cases above with
    | nil => rfl
    | cons first more =>
        have hsplit := hcovers.stack
        rw [hstack, List.cons_append, List.cons.injEq] at hsplit
        exact absurd (by rw [hsplit.1]; exact List.mem_cons_self) hcovers.fresh
  intro p hp
  rcases hcovers.parents p hp with hsettled | hopen | hmem
  · exact Or.inr hsettled
  · exact Or.inl hopen
  · rw [habove] at hmem
    contradiction

/-- An open parent of the item on top of the stack lies on a cycle with it. -/
theorem cycle_of_open (hw : w.Trail g start) (hstack : w.stack = item :: rest) {p : Int}
    (hp : g.LeadsTo item p) (hopen : p ∈ w.openItems) : Relation.TransGen g.LeadsTo p item := by
  by_cases heq : p = item
  · subst heq
    exact .single hp
  · obtain ⟨above, below, hcovers⟩ := hw.covers p hopen
    obtain ⟨more, rfl, -⟩ := hcovers.cons hstack heq
    exact hcovers.ancestors item List.mem_cons_self

theorem skip (hw : w.Trail g start) (hstack : w.stack = item :: rest)
    (hsettled : w.isSettled item) : Trail g start { w with stack := rest } where
  nodup := hw.nodup
  unsettled := hw.unsettled
  covers := by
    intro i hi
    have hne : i ≠ item := by
      rintro rfl
      exact hw.unsettled i hi hsettled
    obtain ⟨above, below, hcovers⟩ := hw.covers i hi
    exact hcovers.pop hstack hne rfl hsettled fun _ hp => hp
  start := by
    rcases hw.start with hmem | hold
    · rw [hstack] at hmem
      rcases List.mem_cons.mp hmem with rfl | hmem
      · exact Or.inr hsettled
      · exact Or.inl hmem
    · exact Or.inr hold

theorem opening (hw : w.Trail g start) (hstack : w.stack = item :: rest)
    (hnew : ¬ w.isSettled item) (hclosed : item ∉ w.openItems) :
    Trail g start (w.opening g item) where
  nodup := List.nodup_cons.mpr ⟨hclosed, hw.nodup⟩
  unsettled := by
    intro i hi
    rcases List.mem_cons.mp hi with rfl | hi
    · exact hnew
    · exact hw.unsettled i hi
  covers := by
    intro i hi
    rcases List.mem_cons.mp hi with rfl | hold
    · exact ⟨_, rest, covers_opening hstack⟩
    · have hne : i ≠ item := by
        rintro rfl
        exact hclosed hold
      obtain ⟨above, below, hcovers⟩ := hw.covers i hold
      exact ⟨_, below, hcovers.opening hstack hold hne⟩
  start := by
    rcases hw.start with hmem | hold
    · exact Or.inl (List.mem_append_right _ hmem)
    · exact Or.inr hold

theorem settle (hw : w.Trail g start) (hstack : w.stack = item :: rest) (chain : Ancestry)
    (exact : Bool) : Trail g start (w.settle item rest chain exact) := by
  constructor
  case nodup => exact hw.nodup.erase item
  case unsettled =>
    intro i hi hsettled
    obtain ⟨hne, hi⟩ := hw.nodup.mem_erase_iff.mp hi
    exact hw.unsettled i hi ((isSettled_settle.mp hsettled).resolve_left hne)
  case covers =>
    intro i hi
    obtain ⟨hne, hi⟩ := hw.nodup.mem_erase_iff.mp hi
    obtain ⟨above, below, hcovers⟩ := hw.covers i hi
    apply hcovers.pop hstack hne rfl (isSettled_settle.mpr (Or.inl rfl))
    rintro p (hold | hopen)
    · exact Or.inl (isSettled_settle.mpr (Or.inr hold))
    · by_cases heq : p = item
      · exact Or.inl (isSettled_settle.mpr (Or.inl heq))
      · exact Or.inr (hw.nodup.mem_erase_iff.mpr ⟨heq, hopen⟩)
  case start =>
    rcases hw.start with hmem | hold
    · rw [hstack] at hmem
      rcases List.mem_cons.mp hmem with rfl | hmem
      · exact Or.inr (isSettled_settle.mpr (Or.inl rfl))
      · exact Or.inl hmem
    · exact Or.inr (isSettled_settle.mpr (Or.inr hold))

theorem move (hw : w.Trail g start) (hmove : w.Move g bound next) : next.Trail g start := by
  cases hmove with
  | skip hstack hsettled => exact hw.skip hstack hsettled
  | opening hstack hnew hclosed => exact hw.opening hstack hnew hclosed
  | settle hstack => exact hw.settle hstack _ _

theorem moves (hw : w.Trail g start) (hmoves : Relation.ReflTransGen (Move g bound) w next) :
    next.Trail g start := by
  induction hmoves with
  | refl => exact hw
  | tail _ hmove ih => exact ih.move hmove

end Trail

/-! ## Walks end -/

def met (w : Walk) : List Int :=
  w.openItems ++ (w.memo.keys ++ w.provisional.keys)

theorem mem_met {i : Int} : i ∈ w.met ↔ i ∈ w.openItems ∨ w.isSettled i := by
  simp [met, isSettled_iff, Std.TreeMap.mem_keys]

/-- What opening an item takes at most: a step for each of its parents and one of its own. -/
def weight (g : ItemGraph) (i : Int) : Nat :=
  if i ∈ g.parents then 1 + (g.parentsOf i).length else 0

/-- A bound on the steps that are left. -/
def remaining (g : ItemGraph) (w : Walk) : Nat :=
  w.stack.length + ∑ i ∈ ParentLinks.unmet g.parents w.met, weight g i

theorem remaining_start_lt (g : ItemGraph) (memo : Memo) (item : Int) :
    remaining g (.start memo item) < g.maxSteps := by
  have hsubset : ∑ i ∈ ParentLinks.unmet g.parents (Walk.start memo item).met, weight g i ≤
      ∑ i ∈ ParentLinks.unmet g.parents [], weight g i :=
    Finset.sum_le_sum_of_subset (ParentLinks.unmet_subset _ _)
  have hweights : ∑ i ∈ ParentLinks.unmet g.parents [], weight g i =
      g.parents.size + g.linkCount := by
    have hkeyed : ∀ i ∈ ParentLinks.unmet g.parents [],
        weight g i = 1 + (g.parentsOf i).length := by
      intro i hi
      exact if_pos (ParentLinks.mem_unmet.mp hi).1
    have hcount : g.linkCount = ∑ i ∈ ParentLinks.unmet g.parents [], (g.parentsOf i).length :=
      ParentLinks.count_eq_sum g.parents
    rw [Finset.sum_congr rfl hkeyed, Finset.sum_add_distrib, Finset.sum_const, smul_eq_mul,
      mul_one, ParentLinks.card_unmet_nil, hcount]
  have hlength : (Walk.start memo item).stack.length = 1 := rfl
  have hsteps : g.maxSteps = g.parents.size + g.linkCount + 2 := rfl
  unfold remaining
  omega

theorem remaining_skip {rest : List Int} (hstack : w.stack = item :: rest) :
    remaining g { w with stack := rest } < w.remaining g := by
  have hlength : w.stack.length = rest.length + 1 := by rw [hstack, List.length_cons]
  have hmet : met { w with stack := rest } = w.met := rfl
  unfold remaining
  rw [hmet, hlength]
  exact Nat.add_lt_add_right (Nat.lt_succ_self _) _

theorem remaining_settle {rest : List Int} (hstack : w.stack = item :: rest)
    (hopen : item ∈ w.openItems) (chain : Ancestry) (exact : Bool) :
    (w.settle item rest chain exact).remaining g < w.remaining g := by
  have hmet : ParentLinks.unmet g.parents (w.settle item rest chain exact).met =
      ParentLinks.unmet g.parents w.met := by
    -- the item was open and is settled now
    apply ParentLinks.unmet_congr
    intro i
    rw [mem_met, mem_met, isSettled_settle]
    by_cases heq : i = item
    · simp [heq, hopen]
    · have herase : i ∈ w.openItems.erase item ↔ i ∈ w.openItems := List.mem_erase_of_ne heq
      simp only [settle, herase, heq, false_or]
  have hlength : w.stack.length = rest.length + 1 := by rw [hstack, List.length_cons]
  have hrest : (w.settle item rest chain exact).stack = rest := rfl
  unfold remaining
  rw [hmet, hlength, hrest]
  exact Nat.add_lt_add_right (Nat.lt_succ_self _) _

theorem remaining_opening (hnew : ¬ w.isSettled item) (hclosed : item ∉ w.openItems) :
    (w.opening g item).remaining g + (if (w.opened item).pending g item = [] then 0 else 1) ≤
      w.remaining g := by
  have hmet : item ∉ w.met := fun hmem => (mem_met.mp hmem).elim hclosed hnew
  have hopened : (w.opening g item).met = item :: w.met := rfl
  have hsum := ParentLinks.sum_unmet_cons g.parents (weight g) hmet
    (fun hout => if_neg hout)
  have hlength : (w.opening g item).stack.length =
      ((w.opened item).pending g item).length + w.stack.length := List.length_append
  -- the weight of the item, which is met now, pays for what it puts onto the stack
  have hpending : ((w.opened item).pending g item).length +
      (if (w.opened item).pending g item = [] then 0 else 1) ≤ weight g item := by
    by_cases hempty : (w.opened item).pending g item = []
    · simp [hempty]
    · obtain ⟨p, hp⟩ := List.exists_mem_of_ne_nil _ hempty
      have hitem : item ∈ g.parents :=
        ParentLinks.mem_of_mem_parentsOf (mem_pending.mp hp).1.parent
      have hle : ((w.opened item).pending g item).length ≤ (g.parentsOf item).length :=
        List.length_filter_le _ _
      rw [if_neg hempty, weight, if_pos hitem]
      omega
  unfold remaining
  rw [hopened, hlength]
  omega

theorem step_of_nil (hstack : w.stack = []) : w.step g bound = none := by
  unfold Walk.step
  rw [hstack]

theorem step_opened {rest : List Int} (hstack : w.stack = item :: rest) (hnew : ¬ w.isSettled item)
    (hclosed : item ∉ w.openItems) :
    w.step g bound = match (w.opened item).pending g item with
      | [] => (w.opened item).settleBest g bound item rest
      | above => some { w.opened item with stack := above ++ w.stack } := by
  obtain ⟨stack, openItems, provisional, memo⟩ := w
  subst hstack
  have hclosed : item ∉ openItems := hclosed
  simp only [Walk.step, hnew, hclosed, Bool.false_eq_true, if_false, List.contains_eq_mem,
    decide_false]
  rfl

/-- A step is one move, or it opens an item that has nothing to wait for and settles it. -/
inductive Stride (g : ItemGraph) (bound : Nat) (w next : Walk) : Prop
  | move (hmove : w.Move g bound next)
  | openAndSettle {item : Int} (hopening : w.Move g bound (w.opened item))
      (hsettling : (w.opened item).Move g bound next)

theorem Stride.moves (hstride : w.Stride g bound next) :
    Relation.ReflTransGen (Move g bound) w next := by
  cases hstride with
  | move hmove => exact .single hmove
  | openAndSettle hopening hsettling => exact .tail (.single hopening) hsettling

/-- While its stack is not empty a walk makes a step, which leaves fewer of them. -/
theorem Trail.step (hw : w.Trail g start) (hstack : w.stack ≠ []) :
    ∃ next, w.step g bound = some next ∧ w.Stride g bound next ∧
      next.remaining g < w.remaining g := by
  obtain ⟨item, rest, hcons⟩ := List.exists_cons_of_ne_nil hstack
  by_cases hsettled : w.isSettled item
  · exact ⟨{ w with stack := rest }, by simp [Walk.step, hcons, hsettled],
      .move (.skip hcons hsettled), remaining_skip hcons⟩
  · by_cases hopen : item ∈ w.openItems
    · obtain ⟨exact, hbest, -⟩ := best_eq bound (hw.isReady hcons hopen)
      exact ⟨_, by simp [Walk.step, hcons, hsettled, hopen, settleBest, hbest],
        .move (.settle hcons hopen hbest), remaining_settle hcons hopen _ _⟩
    · have hopening : w.Move g bound (w.opening g item) := .opening hcons hsettled hopen
      have hremaining := remaining_opening (g := g) hsettled hopen
      cases hpending : (w.opened item).pending g item with
      | nil =>
          -- nothing has to be settled before the item, which is settled in the same step
          have hopened : w.opening g item = w.opened item := by
            rw [Walk.opening, hpending]
            rfl
          have hfrom := hw.move hopening
          rw [hopened] at hfrom hopening hremaining
          have hcons' : (w.opened item).stack = item :: rest := hcons
          have hmem : item ∈ (w.opened item).openItems := List.mem_cons_self
          obtain ⟨exact, hbest, -⟩ := best_eq bound (hfrom.isReady hcons' hmem)
          have hlast := remaining_settle (g := g) hcons' hmem
            (g.bestOf bound (w.opened item).chainOf item) exact
          refine ⟨_, ?_, .openAndSettle hopening (.settle hcons' hmem hbest), by omega⟩
          rw [step_opened hcons hsettled hopen, hpending]
          simp only [settleBest, hbest, Option.map_some]
      | cons p above =>
          rw [hpending, if_neg (List.cons_ne_nil p above)] at hremaining
          refine ⟨w.opening g item, ?_, .move hopening, by omega⟩
          rw [step_opened hcons hsettled hopen, Walk.opening, hpending]

theorem run_of_nil (hstack : w.stack = []) (fuel : Nat) : w.run g bound fuel = w := by
  cases fuel with
  | zero => rfl
  | succ fuel => rw [Walk.run, step_of_nil hstack]

/-- A walk runs by moves, and with enough steps left until nothing is on its stack. -/
theorem Trail.run (hw : w.Trail g start) (bound fuel : Nat) :
    Relation.ReflTransGen (Move g bound) w (w.run g bound fuel) ∧
      (w.remaining g ≤ fuel → (w.run g bound fuel).stack = []) := by
  induction fuel generalizing w with
  | zero =>
      refine ⟨.refl, fun hfuel => ?_⟩
      have hlength : w.stack.length = 0 := by
        unfold remaining at hfuel
        omega
      exact List.length_eq_zero_iff.mp hlength
  | succ fuel ih =>
      by_cases hstack : w.stack = []
      · rw [run_of_nil hstack]
        exact ⟨.refl, fun _ => hstack⟩
      · obtain ⟨next, hstep, hstride, hless⟩ := hw.step hstack
        obtain ⟨hrest, hempty⟩ := ih (hw.moves hstride.moves)
        rw [Walk.run, hstep]
        exact ⟨hstride.moves.trans hrest, fun hfuel => hempty (by omega)⟩

/-- Once its stack is empty, a walk stays where it is. -/
theorem run_of_le {fuel more : Nat} (hend : (w.run g bound fuel).stack = [])
    (hle : fuel ≤ more) : w.run g bound more = w.run g bound fuel := by
  induction fuel generalizing w more with
  | zero => exact run_of_nil hend more
  | succ fuel ih =>
      obtain ⟨more, rfl⟩ := Nat.exists_eq_succ_of_ne_zero (Nat.ne_zero_of_lt hle)
      rw [Walk.run] at hend ⊢
      rw [Walk.run]
      cases hstep : w.step g bound with
      | none => rfl
      | some next =>
          rw [hstep] at hend
          exact ih hend (Nat.le_of_succ_le_succ hle)

/-- The walk of an item ends, and the item is settled at the end. -/
theorem run_start (g : ItemGraph) (bound : Nat) (memo : Memo) (item : Int) :
    Relation.ReflTransGen (Move g bound) (.start memo item)
        (Walk.run g bound g.maxSteps (.start memo item)) ∧
      (Walk.run g bound g.maxSteps (.start memo item)).stack = [] ∧
      (Walk.run g bound g.maxSteps (.start memo item)).isSettled item := by
  have hfirst := Trail.of_start g memo item
  obtain ⟨hmoves, hempty⟩ := hfirst.run bound g.maxSteps
  have hempty := hempty (remaining_start_lt g memo item).le
  refine ⟨hmoves, hempty, ?_⟩
  have hstart := (hfirst.moves hmoves).start
  rw [hempty] at hstart
  exact hstart.resolve_left List.not_mem_nil

end Walk

end DiskCatalog.Index

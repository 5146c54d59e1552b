import DiskCatalog.Proofs.Index.BestChain

/-!
# Resolving items one after the other

What a walk remembers for later walks changes nothing but the number of their steps.  The outline of
a walk is what it does among the items that have no certain chain; it does not show what was
remembered, and it follows a machine of its own, each of whose states has one successor.  Walks of
one item therefore all end with the same chain, whatever was resolved before.

What holds of every chain that is begun and extended holds of every chain that is found.
-/

namespace DiskCatalog.Index

variable {g : ItemGraph} {bound : Nat} {start : Int}

open Classical in
/-- The certain chain of an item, where it has one. -/
noncomputable def ItemGraph.certainChain (g : ItemGraph) (bound : Nat) (p : Int) : Option Ancestry :=
  if h : g.IsCertain bound p then some h.choose else none

theorem ItemGraph.Certain.chain_eq {p : Int} {a : Ancestry} (ha : g.Certain bound p a) :
    g.certainChain bound p = some a := by
  have hp : g.IsCertain bound p := ⟨a, ha⟩
  rw [certainChain, dif_pos hp, hp.choose_spec.unique ha]

open Classical in
noncomputable def ItemGraph.uncertain (g : ItemGraph) (bound : Nat) (items : List Int) : List Int :=
  items.filter fun i => ¬ g.IsCertain bound i

theorem mem_uncertain {items : List Int} {i : Int} :
    i ∈ g.uncertain bound items ↔ i ∈ items ∧ ¬ g.IsCertain bound i := by
  simp [ItemGraph.uncertain]

theorem uncertain_cons_of_isCertain {items : List Int} {i : Int} (hi : g.IsCertain bound i) :
    g.uncertain bound (i :: items) = g.uncertain bound items :=
  List.filter_cons_of_neg (by simpa using hi)

theorem uncertain_cons {items : List Int} {i : Int} (hi : ¬ g.IsCertain bound i) :
    g.uncertain bound (i :: items) = i :: g.uncertain bound items :=
  List.filter_cons_of_pos (by simpa using hi)

theorem uncertain_append (items more : List Int) :
    g.uncertain bound (items ++ more) = g.uncertain bound items ++ g.uncertain bound more :=
  List.filter_append ..

theorem uncertain_eq_nil {items : List Int} (hitems : ∀ i ∈ items, g.IsCertain bound i) :
    g.uncertain bound items = [] :=
  List.filter_eq_nil_iff.mpr fun i hi => by simpa using hitems i hi

theorem uncertain_erase {items : List Int} (hitems : items.Nodup) (i : Int) :
    g.uncertain bound (items.erase i) = (g.uncertain bound items).erase i := by
  unfold ItemGraph.uncertain
  rw [hitems.erase_eq_filter, (hitems.filter _).erase_eq_filter, List.filter_filter,
    List.filter_filter]
  simp only [Bool.and_comm]

/-! ## Outlines -/

/-- The part of a walk that its memory has no say in. -/
structure Outline where
  stack : List Int
  openItems : List Int
  provisional : Memo

namespace Outline

noncomputable def chainOf (g : ItemGraph) (bound : Nat) (o : Outline) (p : Int) : Option Ancestry :=
  if p ∈ o.openItems then none else o.provisional[p]?.or (g.certainChain bound p)

open Classical in
noncomputable def pending (g : ItemGraph) (bound : Nat) (o : Outline) (item : Int) : List Int :=
  (g.parentsOf item).filter fun p =>
    g.LeadsTo item p ∧ ¬ g.IsCertain bound p ∧ p ∉ o.provisional ∧ p ∉ o.openItems

def opened (o : Outline) (item : Int) : Outline :=
  { o with openItems := item :: o.openItems }

noncomputable def opening (g : ItemGraph) (bound : Nat) (o : Outline) (item : Int) : Outline :=
  { o.opened item with stack := (o.opened item).pending g bound item ++ o.stack }

def settle (o : Outline) (item : Int) (rest : List Int) (chain : Ancestry) : Outline :=
  ⟨rest, o.openItems.erase item, o.provisional.insert item chain⟩

noncomputable def step (g : ItemGraph) (bound : Nat) (o : Outline) : Option Outline :=
  match o.stack with
  | [] => none
  | item :: rest =>
    if item ∈ o.provisional then some { o with stack := rest }
    else if item ∈ o.openItems then
      some (o.settle item rest (g.bestOf bound (o.chainOf g bound) item))
    else some (o.opening g bound item)

section Step

variable {o : Outline} {item : Int} {rest : List Int}

theorem step_skip (hstack : o.stack = item :: rest) (hsettled : item ∈ o.provisional) :
    o.step g bound = some { o with stack := rest } := by
  simp only [step, hstack, if_pos hsettled]

theorem step_settle (hstack : o.stack = item :: rest) (hnew : item ∉ o.provisional)
    (hopen : item ∈ o.openItems) : o.step g bound =
      some (o.settle item rest (g.bestOf bound (o.chainOf g bound) item)) := by
  simp only [step, hstack, if_neg hnew, if_pos hopen]

theorem step_opening (hstack : o.stack = item :: rest) (hnew : item ∉ o.provisional)
    (hclosed : item ∉ o.openItems) : o.step g bound = some (o.opening g bound item) := by
  simp only [step, hstack, if_neg hnew, if_neg hclosed]

end Step

/-- One outline comes from another by steps. -/
def Leads (g : ItemGraph) (bound : Nat) : Outline → Outline → Prop :=
  Relation.ReflTransGen fun o next => o.step g bound = some next

theorem eq_of_leads {o a b : Outline} (ha : Leads g bound o a) (hb : Leads g bound o b)
    (haEnd : a.step g bound = none) (hbEnd : b.step g bound = none) : a = b := by
  have hunique : Relator.RightUnique fun o next : Outline => o.step g bound = some next := by
    intro o next next' hnext hnext'
    exact Option.some.inj (hnext.symm.trans hnext')
  have hstays : ∀ {o o' : Outline}, o.step g bound = none → Leads g bound o o' → o = o' := by
    intro o o' hend hleads
    rcases Relation.ReflTransGen.cases_head hleads with heq | ⟨next, hnext, -⟩
    · exact heq
    · rw [hend] at hnext
      contradiction
  rcases Relation.ReflTransGen.total_of_right_unique hunique ha hb with hleads | hleads
  · exact hstays haEnd hleads
  · exact (hstays hbEnd hleads).symm

end Outline

namespace Walk

variable {w next : Walk} {item : Int} {rest : List Int}

noncomputable def outline (g : ItemGraph) (bound : Nat) (w : Walk) : Outline where
  stack := g.uncertain bound w.stack
  openItems := g.uncertain bound w.openItems
  provisional := w.provisional

/-- The chains that a walk goes on from are those of its outline. -/
theorem From.chainOf_outline (hw : w.From g bound start) (hstack : w.stack = item :: rest)
    (hopen : item ∈ w.openItems) (hitem : ¬ g.IsCertain bound item) {p : Int}
    (hp : g.LeadsTo item p) : w.chainOf p = (w.outline g bound).chainOf g bound p := by
  by_cases hpopen : p ∈ w.openItems
  · -- an open parent lies on a cycle with the item
    have hcertain : ¬ g.IsCertain bound p :=
      fun hcertain => hitem (hcertain.ancestor (hw.trail.cycle_of_open hstack hp hpopen))
    have hmem : p ∈ (w.outline g bound).openItems := mem_uncertain.mpr ⟨hpopen, hcertain⟩
    rw [Walk.chainOf, if_pos hpopen, Outline.chainOf, if_pos hmem]
  · have hnot : p ∉ (w.outline g bound).openItems :=
      fun hmem => hpopen (mem_uncertain.mp hmem).1
    have hprovisional : (w.outline g bound).provisional = w.provisional := rfl
    rw [Walk.chainOf, if_neg hpopen, Outline.chainOf, if_neg hnot, hprovisional]
    cases hown : w.provisional[p]? with
    | some a => rfl
    | none =>
        have hsettled := (hw.trail.isReady hstack hopen p hp).resolve_left hpopen
        have hmemo := (isSettled_iff.mp hsettled).resolve_right
          ((getElem?_eq_none_iff _ _).mp hown)
        obtain ⟨a, ha⟩ := Option.isSome_iff_exists.mp
          (Std.TreeMap.mem_iff_isSome_getElem?.mp hmemo)
        rw [Option.none_or, Option.none_or, ha, (hw.memo p a ha).chain_eq]

theorem From.pending_outline (hw : w.From g bound start) (item : Int) :
    g.uncertain bound ((w.opened item).pending g item) =
      ((w.outline g bound).opened item).pending g bound item := by
  have hopened : ∀ p, ¬ g.IsCertain bound p →
      (p ∈ ((w.outline g bound).opened item).openItems ↔ p ∈ (w.opened item).openItems) := by
    intro p hp
    simp only [Outline.opened, opened, outline, List.mem_cons, mem_uncertain, hp, not_false_eq_true,
      and_true]
  have hsettled : ∀ p, ¬ g.IsCertain bound p →
      (p ∈ ((w.outline g bound).opened item).provisional ↔ (w.opened item).isSettled p) := by
    intro p hp
    rw [isSettled_iff]
    constructor
    · exact Or.inr
    · intro hsettled
      exact hsettled.resolve_left fun hmemo => hp (hw.isCertain_of_mem hmemo)
  unfold ItemGraph.uncertain Outline.pending pending
  rw [List.filter_filter]
  apply List.filter_congr
  intro p hp
  by_cases hcertain : g.IsCertain bound p
  · simp [hcertain]
  · have hlink : g.LeadsTo item p ↔ g.isNamed p = true ∧ g.isVolume p = false :=
      ⟨fun hlink => ⟨hlink.named, hlink.inside⟩, fun hlink => ⟨hp, hlink.1, hlink.2⟩⟩
    simp [hcertain, hopened p hcertain, hsettled p hcertain, hlink, Bool.and_assoc]

theorem outline_cons (hstack : w.stack = item :: rest) (hitem : ¬ g.IsCertain bound item) :
    (w.outline g bound).stack = item :: g.uncertain bound rest := by
  rw [outline, hstack, uncertain_cons hitem]

/-! A move over a certain item does not show in the outline, and any other move is a step of it. -/

theorem From.outline_skip (hw : w.From g bound start) (hstack : w.stack = item :: rest)
    (hsettled : w.isSettled item) :
    Outline.Leads g bound (w.outline g bound) (outline g bound { w with stack := rest }) := by
  by_cases hitem : g.IsCertain bound item
  · have hsame : outline g bound { w with stack := rest } = w.outline g bound := by
      simp only [outline, hstack, uncertain_cons_of_isCertain hitem]
    rw [hsame]
    exact .refl
  · have hmem : item ∈ w.provisional :=
      (isSettled_iff.mp hsettled).resolve_left fun hmemo => hitem (hw.isCertain_of_mem hmemo)
    exact .single (Outline.step_skip (outline_cons hstack hitem) hmem)

theorem From.outline_opening (hw : w.From g bound start) (hstack : w.stack = item :: rest)
    (hnew : ¬ w.isSettled item) (hclosed : item ∉ w.openItems) :
    Outline.Leads g bound (w.outline g bound) ((w.opening g item).outline g bound) := by
  by_cases hitem : g.IsCertain bound item
  · have hpending : g.uncertain bound ((w.opened item).pending g item) = [] :=
      uncertain_eq_nil fun p hp => hitem.parent (mem_pending.mp hp).1
    have hsame : (w.opening g item).outline g bound = w.outline g bound := by
      simp only [outline, Walk.opening, uncertain_append, hpending, List.nil_append]
      simp only [Walk.opened, uncertain_cons_of_isCertain hitem]
    rw [hsame]
    exact .refl
  · have hmem : item ∉ (w.outline g bound).provisional :=
      fun hmem => hnew (isSettled_iff.mpr (Or.inr hmem))
    have hclosed' : item ∉ (w.outline g bound).openItems :=
      fun hmem => hclosed (mem_uncertain.mp hmem).1
    have hsame : (w.opening g item).outline g bound =
        (w.outline g bound).opening g bound item := by
      rw [Outline.opening, ← hw.pending_outline item]
      simp only [outline, Walk.opening, uncertain_append]
      simp only [opened, Outline.opened, uncertain_cons hitem]
    rw [hsame]
    exact .single (Outline.step_opening (outline_cons hstack hitem) hmem hclosed')

theorem From.outline_settle (hw : w.From g bound start) (hstack : w.stack = item :: rest)
    (hopen : item ∈ w.openItems) {chain : Ancestry} {exact : Bool}
    (hbest : w.best g bound item = some (chain, exact)) :
    Outline.Leads g bound (w.outline g bound) ((w.settle item rest chain exact).outline g bound) := by
  obtain ⟨rfl, hexact⟩ := eq_of_best (hw.trail.isReady hstack hopen) hbest
  rw [hw.isExact_iff hstack hopen] at hexact
  by_cases hitem : g.IsCertain bound item
  · have hclosed : item ∉ g.uncertain bound w.openItems :=
      fun hmem => (mem_uncertain.mp hmem).2 hitem
    have hsame : (w.settle item rest (g.bestOf bound w.chainOf item) exact).outline g bound =
        w.outline g bound := by
      simp only [outline, Walk.settle, hexact.mpr hitem, if_true, uncertain_erase hw.nodup,
        List.erase_of_not_mem hclosed, hstack, uncertain_cons_of_isCertain hitem]
    rw [hsame]
    exact .refl
  · have hinexact : exact = false := by
      rw [← Bool.not_eq_true, hexact]
      exact hitem
    have hmem : item ∉ (w.outline g bound).provisional :=
      fun hmem => hw.unsettled item hopen (isSettled_iff.mpr (Or.inr hmem))
    have hopen' : item ∈ (w.outline g bound).openItems := mem_uncertain.mpr ⟨hopen, hitem⟩
    have hchain : g.bestOf bound w.chainOf item =
        g.bestOf bound ((w.outline g bound).chainOf g bound) item :=
      ItemGraph.bestOf_congr fun p hp => hw.chainOf_outline hstack hopen hitem hp
    have hsame : (w.settle item rest (g.bestOf bound w.chainOf item) exact).outline g bound =
        (w.outline g bound).settle item (g.uncertain bound rest)
          (g.bestOf bound w.chainOf item) := by
      simp only [outline, Walk.settle, Outline.settle, hinexact, Bool.false_eq_true, if_false,
        uncertain_erase hw.nodup]
    rw [hsame, hchain]
    exact .single (Outline.step_settle (outline_cons hstack hitem) hmem hopen')

theorem From.outline_move (hw : w.From g bound start) (hmove : w.Move g bound next) :
    Outline.Leads g bound (w.outline g bound) (next.outline g bound) := by
  cases hmove with
  | skip hstack hsettled => exact hw.outline_skip hstack hsettled
  | opening hstack hnew hclosed => exact hw.outline_opening hstack hnew hclosed
  | settle hstack hopen hbest => exact hw.outline_settle hstack hopen hbest

theorem From.outline_moves (hw : w.From g bound start)
    (hmoves : Relation.ReflTransGen (Move g bound) w next) :
    Outline.Leads g bound (w.outline g bound) (next.outline g bound) := by
  induction hmoves with
  | refl => exact .refl
  | tail hbefore hmove ih => exact ih.trans ((hw.moves hbefore).outline_move hmove)

/-- A settled item has its certain chain, if there is one. -/
theorem From.find?_of_certain (hw : w.From g bound start) (hsettled : w.isSettled item)
    {a : Ancestry} (ha : g.Certain bound item a) : w.find? item = some a := by
  have hmemo : item ∈ w.memo :=
    (isSettled_iff.mp hsettled).resolve_right fun hmem => hw.provisional item hmem ⟨a, ha⟩
  obtain ⟨b, hb⟩ := Option.isSome_iff_exists.mp (Std.TreeMap.mem_iff_isSome_getElem?.mp hmemo)
  rw [find?, Std.TreeMap.get?_eq_getElem?, hb, Option.some_or, (hw.memo item b hb).unique ha]

theorem From.find?_of_uncertain (hw : w.From g bound start) (hitem : ¬ g.IsCertain bound item) :
    w.find? item = w.provisional[item]? := by
  have hmemo : item ∉ w.memo := fun hmem => hitem (hw.isCertain_of_mem hmem)
  rw [find?, Std.TreeMap.get?_eq_getElem?, Std.TreeMap.getElem?_eq_none hmemo, Option.none_or,
    Std.TreeMap.get?_eq_getElem?]

/-- A walk finds for its item what it finds when nothing is remembered. -/
theorem find?_run {memo : Memo} (hmemo : memo.IsSound g bound) (item : Int) :
    (Walk.run g bound g.maxSteps (.start memo item)).find? item =
      (Walk.run g bound g.maxSteps (.start ∅ item)).find? item := by
  have hnone : Memo.IsSound g bound ∅ := Memo.isSound_empty g bound
  obtain ⟨hmoves, hempty, hsettled⟩ := run_start g bound memo item
  obtain ⟨hmoves', hempty', hsettled'⟩ := run_start g bound ∅ item
  have hw := (From.of_start hmemo item).moves hmoves
  have hw' := (From.of_start hnone item).moves hmoves'
  by_cases hitem : g.IsCertain bound item
  · obtain ⟨a, ha⟩ := hitem
    rw [hw.find?_of_certain hsettled ha, hw'.find?_of_certain hsettled' ha]
  · have hend : ∀ {w : Walk}, w.stack = [] → (w.outline g bound).step g bound = none := by
      intro w hstack
      have hnil : (w.outline g bound).stack = [] := by
        rw [outline, hstack]
        rfl
      simp only [Outline.step, hnil]
    have hsame := Outline.eq_of_leads ((From.of_start hmemo item).outline_moves hmoves)
      ((From.of_start hnone item).outline_moves hmoves') (hend hempty) (hend hempty')
    have hprovisional := congrArg Outline.provisional hsame
    rw [hw.find?_of_uncertain hitem, hw'.find?_of_uncertain hitem]
    exact congrArg (·[item]?) hprovisional

end Walk

/-! ## Resolving items -/

namespace ItemGraph

open Walk

/-- What is remembered after an item has been resolved is certain, too. -/
theorem resolveWithin_isSound {memo : Memo} (hmemo : memo.IsSound g bound) (item : Int) :
    (g.resolveWithin bound g.maxSteps memo item).2.IsSound g bound := by
  unfold resolveWithin
  split
  · exact hmemo
  · split
    · exact hmemo
    · obtain ⟨hmoves, -, -⟩ := run_start g bound memo item
      exact ((From.of_start hmemo item).moves hmoves).memo

/-- What an item resolves to does not depend on what is remembered. -/
theorem resolveWithin_eq {memo : Memo} (hmemo : memo.IsSound g bound) (item : Int) :
    (g.resolveWithin bound g.maxSteps memo item).1 = (g.resolveWithin bound g.maxSteps ∅ item).1 := by
  unfold resolveWithin
  split
  · rfl
  · have hnone : (∅ : Memo).get? item = none := Std.TreeMap.getElem?_emptyc
    rw [hnone]
    cases hknown : memo.get? item with
    | none => simp only [find?_run hmemo item]
    | some known =>
        -- what is remembered is certain, and a walk finds what is certain
        have hcertain : g.Certain bound item known := hmemo item known hknown
        have hempty : Memo.IsSound g bound ∅ := Memo.isSound_empty g bound
        obtain ⟨hmoves, -, hsettled⟩ := run_start g bound ∅ item
        have hfound := ((From.of_start hempty item).moves hmoves).find?_of_certain hsettled hcertain
        simp only [hfound, Option.getD_some]

theorem resolveEach_eq {memo : Memo} (hmemo : memo.IsSound g bound) (items : List Int) :
    g.resolveEach bound g.maxSteps memo items =
      items.map fun item => (g.resolveWithin bound g.maxSteps ∅ item).1 := by
  induction items generalizing memo with
  | nil => rfl
  | cons item items ih =>
      simp only [resolveEach, List.map_cons, resolveWithin_eq hmemo item,
        ih (resolveWithin_isSound hmemo item)]

/-- The ancestry of an item, resolved on its own. -/
def ancestry (g : ItemGraph) (maxDepth : Int) (item : Int) : Ancestry :=
  (g.resolve maxDepth ∅ item).1

/-- Resolving items one after the other gives each the ancestry that it has on its own. -/
theorem resolveAll_eq (g : ItemGraph) (maxDepth : Int) (items : List Int) :
    g.resolveAll maxDepth items = items.map (g.ancestry maxDepth) :=
  resolveEach_eq (Memo.isSound_empty g _) items

/-! ## What holds of chains -/

/-- A property of items and their chains that holds of each chain that is begun, and goes on to hold
when a chain is extended. -/
structure IsClosed (g : ItemGraph) (bound : Nat) (P : Int → Ancestry → Prop) : Prop where
  volume : ∀ item, g.isVolume item → P item (.ofVolume item)
  alone : ∀ item, P item (.alone (g.nameOf item))
  below : ∀ item p, p ∈ g.parentsOf item → g.isNamed p → g.isVolume p →
    P item ⟨[g.nameOf item], some p, 1⟩
  extend : ∀ item p a, g.LeadsTo item p → P p a → P item (a.extend bound (g.nameOf item))

variable {P : Int → Ancestry → Prop}

theorem IsClosed.bestOf (hP : g.IsClosed bound P) {above : Int → Option Ancestry} {item : Int}
    (habove : ∀ p a, g.LeadsTo item p → above p = some a → P p a) :
    P item (g.bestOf bound above item) :=
  bestOf_cases (hP.alone item) (hP.below item)
    fun p a hlink ha => hP.extend item p a hlink (habove p a hlink ha)

/-- Every chain that a walk has found has the property. -/
def Keeps (P : Int → Ancestry → Prop) (w : Walk) : Prop :=
  ∀ i a, w.memo[i]? = some a ∨ w.provisional[i]? = some a → P i a

theorem IsClosed.settle (hP : g.IsClosed bound P) {w : Walk} (hw : Keeps P w) {item : Int}
    (hready : w.IsReady g item) {rest : List Int} {chain : Ancestry} {exact : Bool}
    (hbest : w.best g bound item = some (chain, exact)) :
    Keeps P (w.settle item rest chain exact) := by
  obtain ⟨rfl, -⟩ := eq_of_best hready hbest
  have hchain : P item (g.bestOf bound w.chainOf item) := by
    apply hP.bestOf
    intro p a _ ha
    unfold Walk.chainOf at ha
    split at ha
    · contradiction
    · exact hw p a ((Option.or_eq_some_iff.mp ha).symm.imp And.right id)
  have hinsert : ∀ {memo : Memo} {i : Int} {a : Ancestry},
      (memo.insert item (g.bestOf bound w.chainOf item))[i]? = some a →
        (memo[i]? = some a → P i a) → P i a := by
    intro memo i a ha hold
    rw [Std.TreeMap.getElem?_insert] at ha
    split at ha
    · rename_i heq
      obtain rfl := Std.LawfulEqCmp.compare_eq_iff_eq.mp heq
      obtain rfl := Option.some.inj ha
      exact hchain
    · exact hold ha
  cases exact with
  | true =>
      rintro i a (ha | ha)
      · exact hinsert ha fun hold => hw i a (Or.inl hold)
      · exact hw i a (Or.inr ha)
  | false =>
      rintro i a (ha | ha)
      · exact hw i a (Or.inl ha)
      · exact hinsert ha fun hold => hw i a (Or.inr hold)

theorem IsClosed.moves (hP : g.IsClosed bound P) {w next : Walk} (hw : w.From g bound start)
    (hkeeps : Keeps P w) (hmoves : Relation.ReflTransGen (Move g bound) w next) :
    Keeps P next := by
  induction hmoves with
  | refl => exact hkeeps
  | tail hbefore hmove ih =>
      have hmiddle := hw.moves hbefore
      cases hmove with
      | skip hstack hsettled => exact ih
      | opening hstack hnew hclosed => exact ih
      | settle hstack hopen hbest => exact hP.settle ih (hmiddle.trail.isReady hstack hopen) hbest

/-- A property that the making of chains keeps holds of the ancestry of every item. -/
theorem IsClosed.ancestry {maxDepth : Int} (hP : g.IsClosed (boundOf maxDepth) P) (item : Int) :
    P item (g.ancestry maxDepth item) := by
  have hnone : Memo.IsSound g (boundOf maxDepth) ∅ := Memo.isSound_empty g _
  obtain ⟨hmoves, -, -⟩ := run_start g (boundOf maxDepth) ∅ item
  have hstart : Keeps P (.start ∅ item) := by
    rintro i a (ha | ha) <;> simp [Walk.start] at ha
  have hkeeps := hP.moves (From.of_start hnone item) hstart hmoves
  unfold ItemGraph.ancestry resolve resolveWithin
  split
  · rename_i hvolume
    exact hP.volume item hvolume
  · have hempty : (∅ : Memo).get? item = none := Std.TreeMap.getElem?_emptyc
    rw [hempty]
    cases hfound : (Walk.run g (boundOf maxDepth) g.maxSteps (.start ∅ item)).find? item with
    | none => simpa [hfound] using hP.alone item
    | some a =>
        have ha := hkeeps item a ((Option.or_eq_some_iff.mp hfound).imp id And.right)
        simpa [hfound] using ha

end ItemGraph

end DiskCatalog.Index

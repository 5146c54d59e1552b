import DiskCatalog.Proofs.Refresh.Traffic

/-!
# Lifetimes under traffic

A generation that was built is in hand while it is in the slot, or while a trigger or a call that
closes still has to publish or to retire it.  `Traffic.Accounted` says that every generation is in
hand at most once, that its lifetime is the one that its holders and its readers determine, and
that its database was closed once if neither of them is left and never otherwise.  Every step
keeps this, and reader safety and the absence of leaks are read off it.
-/

namespace DiskCatalog.Refresh

open Store Index

def Slot.lifetime? (s : Slot) (g : Nat) : Option Lifetime :=
  (s.built[g]?).map (·.lifetime)

namespace Slot

@[simp] theorem lifetime?_setLifetime (s : Slot) (i g : Nat) (f : Lifetime → Lifetime) :
    (s.setLifetime i f).lifetime? g =
      if i = g then (s.lifetime? g).map f else s.lifetime? g := by
  by_cases hig : i = g
  · subst hig
    simp [lifetime?, setLifetime, Array.getElem?_modify, Function.comp_def]
  · simp [lifetime?, setLifetime, Array.getElem?_modify, hig]

@[simp] theorem size_setLifetime (s : Slot) (i : Nat) (f : Lifetime → Lifetime) :
    (s.setLifetime i f).built.size = s.built.size := by
  simp [setLifetime]

@[simp] theorem lifetime?_add (s : Slot) (g : Generation) (i : Nat) :
    (s.add g).1.lifetime? i = if i = s.built.size then some {} else s.lifetime? i := by
  by_cases hi : i = s.built.size
  · simp [lifetime?, add, hi]
  · simp [lifetime?, add, hi, Array.getElem?_push]

theorem enter_eq_ok {s entered : Slot} {g : Nat} (henter : s.enter = .ok (entered, g)) :
    ∃ l, s.current = some g ∧ s.lifetime? g = some l ∧ l.closed = false ∧
      entered = s.setLifetime g fun _ => { l with readers := l.readers + 1 } := by
  unfold enter at henter
  cases hcurrent : s.current with
  | none => simp [hcurrent] at henter
  | some i =>
      cases hbuilt : s.built[i]? with
      | none => simp [hcurrent, hbuilt] at henter
      | some h =>
          cases hclosed : h.lifetime.closed with
          | true => simp [hcurrent, hbuilt, Lifetime.acquire, hclosed, Except.map] at henter
          | false =>
              simp only [hcurrent, hbuilt, Lifetime.acquire, hclosed, Bool.false_eq_true,
                if_false, Except.map, Except.ok.injEq, Prod.mk.injEq] at henter
              obtain ⟨rfl, rfl⟩ := henter
              exact ⟨h.lifetime, rfl, by simp [lifetime?, hbuilt], hclosed, by simp [hclosed]⟩

theorem enter_of_current {s : Slot} {g : Nat} {l : Lifetime} (hcurrent : s.current = some g)
    (hl : s.lifetime? g = some l) (hclosed : l.closed = false) :
    s.enter = .ok (s.setLifetime g fun _ => { l with readers := l.readers + 1 }, g) := by
  obtain ⟨h, hbuilt, rfl⟩ := Option.map_eq_some_iff.mp hl
  simp [enter, hcurrent, hbuilt, Lifetime.acquire, hclosed, Except.map]

theorem closedWith_some {s : Slot} {g : Nat} {l : Lifetime} (hl : s.lifetime? g = some l) :
    s.closedWith (some g) = if l.isOver then [g] else [] := by
  obtain ⟨h, hh, rfl⟩ := Option.map_eq_some_iff.mp hl
  by_cases hover : h.lifetime.isOver <;> simp [closedWith, hh, hover]

end Slot

theorem Lifetime.settle_eq (l : Lifetime) :
    l.settle = { l with closed := l.closed || l.isOver } := by
  unfold settle isOver
  by_cases hover : (l.retired && l.readers == 0) = true
  · simp [hover]
  · simp [hover]

def Trigger.holds (t : Trigger) : List Nat :=
  match t.stage with
  | .publishing g => [g]
  | .retiring g _ => g.toList
  | _ => []

def Closer.holds : Closer → List Nat
  | .retiring g => g.toList
  | _ => []

namespace Traffic

/-- The generations in hand: the one in the slot and those still to be published or retired. -/
def inHand (s : Traffic) : List Nat :=
  s.slot.current.toList ++ (s.triggers.flatMap (·.holds) ++ s.closers.flatMap (·.holds))

/-- The lifetime that a generation has by those who hold and who read it. -/
def lifetimeDue (s : Traffic) (g : Nat) : Lifetime where
  readers := s.readers.count g
  retired := g ∉ s.inHand
  closed := g ∉ s.inHand ∧ g ∉ s.readers

/-- How often the database of a generation was closed by those who hold and who read it. -/
def closingsDue (s : Traffic) (g : Nat) : Nat :=
  if g < s.slot.built.size ∧ g ∉ s.inHand ∧ g ∉ s.readers then 1 else 0

structure Accounted (s : Traffic) : Prop where
  nodup : s.inHand.Nodup
  held_lt : ∀ g ∈ s.inHand, g < s.slot.built.size
  read_lt : ∀ g ∈ s.readers, g < s.slot.built.size
  lifetime : ∀ g, g < s.slot.built.size → s.slot.lifetime? g = some (s.lifetimeDue g)
  closings : ∀ g, s.closings.count g = s.closingsDue g

private theorem count_beq_zero (readers : List Nat) (g : Nat) :
    ((readers.count g : Int) == 0) = !decide (g ∈ readers) := by
  by_cases hread : g ∈ readers
  · have hne : readers.count g ≠ 0 := (List.count_pos_iff.mpr hread).ne'
    simp [hread, hne]
  · simp [hread, List.count_eq_zero.mpr hread]

@[simp] theorem lifetimeDue_isOver (s : Traffic) (g : Nat) :
    (s.lifetimeDue g).isOver = decide (g ∉ s.inHand ∧ g ∉ s.readers) := by
  simp [lifetimeDue, Lifetime.isOver, count_beq_zero]

theorem start_accounted (path : String) (builder : Builder) (disk : Disk) :
    (start path builder disk).Accounted := by
  constructor <;> simp [start, inHand, slot, closingsDue]

/-! ## What is done to generations -/

/-- Handing a generation on changes nothing about it. -/
theorem Accounted.handOn {s next : Traffic} (hs : s.Accounted)
    (hhand : next.inHand.Perm s.inHand) (hbuilt : next.slot.built = s.slot.built)
    (hreaders : next.readers = s.readers) (hclosings : next.closings = s.closings) :
    next.Accounted := by
  have hmem : ∀ g, g ∈ next.inHand ↔ g ∈ s.inHand := fun g => hhand.mem_iff
  have hdue : ∀ g, next.lifetimeDue g = s.lifetimeDue g := by
    intro g
    simp only [lifetimeDue, hmem, hreaders]
  constructor
  · exact hhand.nodup_iff.mpr hs.nodup
  · intro g hg
    rw [hbuilt]
    exact hs.held_lt g ((hmem g).mp hg)
  · intro g hg
    rw [hbuilt]
    exact hs.read_lt g (hreaders ▸ hg)
  · intro g hg
    rw [hbuilt] at hg
    rw [hdue, ← hs.lifetime g hg]
    simp only [Slot.lifetime?, hbuilt]
  · intro g
    rw [hclosings, hs.closings g]
    simp only [closingsDue, hmem, hbuilt, hreaders]

/-- A generation that was just built is in hand and has no readers. -/
theorem Accounted.build {s next : Traffic} (hs : s.Accounted) (generation : Generation)
    (hhand : next.inHand.Perm (s.slot.built.size :: s.inHand))
    (hslot : next.slot = (s.slot.add generation).1)
    (hreaders : next.readers = s.readers) (hclosings : next.closings = s.closings) :
    next.Accounted := by
  have hsize : next.slot.built.size = s.slot.built.size + 1 := by
    simp [hslot, Slot.add]
  have hmem : ∀ g, g ∈ next.inHand ↔ g = s.slot.built.size ∨ g ∈ s.inHand := by
    intro g
    rw [hhand.mem_iff, List.mem_cons]
  have hheld : s.slot.built.size ∉ s.inHand := fun hg => by
    have := hs.held_lt _ hg
    omega
  have hread : s.slot.built.size ∉ s.readers := fun hg => by
    have := hs.read_lt _ hg
    omega
  constructor
  · exact hhand.nodup_iff.mpr (List.nodup_cons.mpr ⟨hheld, hs.nodup⟩)
  · intro g hg
    rw [hsize]
    rcases (hmem g).mp hg with rfl | hg
    · omega
    · have := hs.held_lt g hg
      omega
  · intro g hg
    rw [hsize]
    have := hs.read_lt g (hreaders ▸ hg)
    omega
  · intro g hg
    rw [hslot, Slot.lifetime?_add]
    by_cases hnew : g = s.slot.built.size
    · subst hnew
      have hcount : s.readers.count s.slot.built.size = 0 := List.count_eq_zero.mpr hread
      simp [lifetimeDue, hmem, hreaders, hcount]
    · have hold : g < s.slot.built.size := by omega
      rw [if_neg hnew, hs.lifetime g hold]
      simp [lifetimeDue, hmem, hreaders, hnew]
  · intro g
    rw [hclosings, hs.closings g]
    simp only [closingsDue, hmem, hsize, hreaders]
    by_cases hnew : g = s.slot.built.size
    · simp [hnew]
    · have hlt : g < s.slot.built.size + 1 ↔ g < s.slot.built.size := by omega
      simp [hnew, hlt]

/-- A generation that was needed until now is closed when neither a hand nor a reader is left, and
no other one is. -/
theorem Accounted.closings_settle {s next : Traffic} {g : Nat} (hs : s.Accounted)
    (hneeded : g ∈ s.inHand ∨ g ∈ s.readers) (hsize : next.slot.built.size = s.slot.built.size)
    (hothers : ∀ i, i ≠ g →
      (i ∈ next.inHand ↔ i ∈ s.inHand) ∧ (i ∈ next.readers ↔ i ∈ s.readers))
    (hlifetime : next.slot.lifetime? g = some (next.lifetimeDue g))
    (hclosings : next.closings = s.closings ++ next.slot.closedWith (some g)) (i : Nat) :
    next.closings.count i = next.closingsDue i := by
  have hlt : g < s.slot.built.size := hneeded.elim (hs.held_lt g) (hs.read_lt g)
  rw [hclosings, List.count_append, hs.closings i, Slot.closedWith_some hlifetime,
    lifetimeDue_isOver]
  simp only [closingsDue, hsize]
  by_cases hig : i = g
  · subst hig
    have hnone : ¬ (i ∉ s.inHand ∧ i ∉ s.readers) := by tauto
    by_cases hover : i ∉ next.inHand ∧ i ∉ next.readers <;> simp [hover, hnone, hlt]
  · have hgi : g ≠ i := fun h => hig h.symm
    obtain ⟨hhand, hread⟩ := hothers i hig
    by_cases hover : g ∉ next.inHand ∧ g ∉ next.readers <;> simp [hover, hgi, hhand, hread]

/-- A generation that is retired is in hand no longer; without readers its database is closed. -/
theorem Accounted.retire {s next : Traffic} {g : Nat} (hs : s.Accounted)
    (hhand : s.inHand.Perm (g :: next.inHand)) (hbuilt : next.slot.built = (s.slot.retire g).built)
    (hreaders : next.readers = s.readers)
    (hclosings : next.closings = s.closings ++ next.slot.closedWith (some g)) :
    next.Accounted := by
  have hsize : next.slot.built.size = s.slot.built.size := by
    simp [hbuilt, Slot.retire]
  have hnodup := hhand.nodup_iff.mp hs.nodup
  have hmem : ∀ i, i ∈ s.inHand ↔ i = g ∨ i ∈ next.inHand := by
    intro i
    rw [hhand.mem_iff, List.mem_cons]
  have hgone : g ∉ next.inHand := (List.nodup_cons.mp hnodup).1
  have hheld : g ∈ s.inHand := (hmem g).mpr (Or.inl rfl)
  have hg : g < s.slot.built.size := hs.held_lt g hheld
  have hlifetime : ∀ i, i < s.slot.built.size →
      next.slot.lifetime? i = some (next.lifetimeDue i) := by
    intro i hi
    have hnext : next.slot.lifetime? i = (s.slot.retire g).lifetime? i := by
      simp only [Slot.lifetime?, hbuilt]
    rw [hnext, Slot.retire, Slot.lifetime?_setLifetime, hs.lifetime i hi]
    by_cases hgi : g = i
    · subst hgi
      simp [lifetimeDue, Lifetime.retire, Lifetime.settle_eq, Lifetime.isOver, count_beq_zero,
        hheld, hgone, hreaders]
    · have hig : i ≠ g := fun h => hgi h.symm
      simp [lifetimeDue, hgi, hig, hmem, hreaders]
  constructor
  · exact (List.nodup_cons.mp hnodup).2
  · intro i hi
    rw [hsize]
    exact hs.held_lt i ((hmem i).mpr (Or.inr hi))
  · intro i hi
    rw [hsize]
    exact hs.read_lt i (hreaders ▸ hi)
  · intro i hi
    exact hlifetime i (hsize ▸ hi)
  · refine hs.closings_settle (Or.inl hheld) hsize (fun i hig => ?_) (hlifetime g hg) hclosings
    simp [hmem, hig, hreaders]

theorem Accounted.enter {s next : Traffic} {g : Nat} (hs : s.Accounted) (hheld : g ∈ s.inHand)
    (hhand : next.inHand = s.inHand)
    (hslot : next.slot.built =
      (s.slot.setLifetime g fun _ => { s.lifetimeDue g with readers := s.readers.count g + 1 }).built)
    (hreaders : next.readers = g :: s.readers) (hclosings : next.closings = s.closings) :
    next.Accounted := by
  have hsize : next.slot.built.size = s.slot.built.size := by
    simp [hslot]
  constructor
  · rw [hhand]
    exact hs.nodup
  · intro i hi
    rw [hsize]
    exact hs.held_lt i (hhand ▸ hi)
  · intro i hi
    rw [hsize]
    rw [hreaders, List.mem_cons] at hi
    rcases hi with rfl | hi
    · exact hs.held_lt i hheld
    · exact hs.read_lt i hi
  · intro i hi
    have hnext : next.slot.lifetime? i = (s.slot.setLifetime g fun _ =>
        { s.lifetimeDue g with readers := s.readers.count g + 1 }).lifetime? i := by
      simp only [Slot.lifetime?, hslot]
    rw [hnext, Slot.lifetime?_setLifetime, hs.lifetime i (hsize ▸ hi)]
    by_cases hgi : g = i
    · subst hgi
      simp [lifetimeDue, hhand, hreaders, hheld]
    · have hig : i ≠ g := fun h => hgi h.symm
      simp [lifetimeDue, hhand, hreaders, hgi, hig]
  · intro i
    rw [hclosings, hs.closings i]
    simp only [closingsDue, hhand, hsize, hreaders, List.mem_cons]
    by_cases hig : i = g
    · subst hig
      simp [hheld]
    · simp [hig]

/-- The last reader of a generation that is not in hand closes its database. -/
theorem Accounted.leave {s : Traffic} {g : Nat} (hs : s.Accounted) (hread : g ∈ s.readers) :
    (s.withLeft g).Accounted := by
  have hsize : (s.withLeft g).slot.built.size = s.slot.built.size := by
    simp [withLeft, withSlot, slot, Slot.leave]
  have hhand : (s.withLeft g).inHand = s.inHand := rfl
  have hreaders : (s.withLeft g).readers = s.readers.erase g := rfl
  have hg : g < s.slot.built.size := hs.read_lt g hread
  have hcount : 0 < s.readers.count g := List.count_pos_iff.mpr hread
  have hmem : ∀ i, i ≠ g → (i ∈ s.readers.erase g ↔ i ∈ s.readers) := fun i hi =>
    List.mem_erase_of_ne hi
  have hlifetime : ∀ i, i < s.slot.built.size →
      (s.withLeft g).slot.lifetime? i = some ((s.withLeft g).lifetimeDue i) := by
    intro i hi
    have hnext : (s.withLeft g).slot.lifetime? i = (s.slot.leave g).lifetime? i := rfl
    rw [hnext, Slot.leave, Slot.lifetime?_setLifetime, hs.lifetime i hi]
    by_cases hgi : g = i
    · subst hgi
      have hpred : (s.readers.count g : Int) - 1 = ((s.withLeft g).readers.count g : Nat) := by
        rw [hreaders, List.count_erase_self]
        omega
      simp [lifetimeDue, Lifetime.release, Lifetime.settle_eq, Lifetime.isOver, hhand, hread,
        hpred, count_beq_zero]
    · have hig : i ≠ g := fun h => hgi h.symm
      simp [lifetimeDue, hhand, hreaders, hgi, hmem i hig, List.count_erase_of_ne hig]
  constructor
  · exact hs.nodup
  · intro i hi
    rw [hsize]
    exact hs.held_lt i hi
  · intro i hi
    rw [hsize]
    exact hs.read_lt i (List.mem_of_mem_erase hi)
  · intro i hi
    exact hlifetime i (hsize ▸ hi)
  · refine hs.closings_settle (Or.inr hread) hsize (fun i hig => ?_) (hlifetime g hg) rfl
    exact ⟨by rw [hhand], by rw [hreaders, hmem i hig]⟩

/-! ## What a step does to what is in hand -/

theorem exists_set_eq {α : Type} {items : List α} {i : Nat} {item : α}
    (hitem : items[i]? = some item) :
    ∃ before after, items = before ++ item :: after ∧
      ∀ other, items.set i other = before ++ other :: after := by
  obtain ⟨hlt, rfl⟩ := List.getElem?_eq_some_iff.mp hitem
  refine ⟨items.take i, items.drop (i + 1), ?_, fun other => ?_⟩
  · rw [List.getElem_cons_drop, List.take_append_drop]
  · rw [List.set_eq_take_append_cons_drop, if_pos hlt]

/-- A trigger holds what it holds beside the slot, and only that is replaced by its step. -/
theorem exists_inHand_trigger {s : Traffic} {i : Nat} {t : Trigger}
    (ht : s.triggers[i]? = some t) :
    ∃ others, s.inHand.Perm (s.slot.current.toList ++ t.holds ++ others) ∧
      ∀ k t', (s.withTrigger i t k t').inHand.Perm
        (k.slot.current.toList ++ t'.holds ++ others) := by
  obtain ⟨before, after, htriggers, hset⟩ := exists_set_eq ht
  refine ⟨before.flatMap (·.holds) ++ after.flatMap (·.holds) ++ s.closers.flatMap (·.holds),
    ?_, fun k t' => ?_⟩
  · simp only [inHand, htriggers, List.flatMap_append, List.flatMap_cons, List.perm_iff_count,
      List.count_append]
    intro g
    omega
  · simp only [inHand, withTrigger, slot, hset, List.flatMap_append, List.flatMap_cons,
      List.perm_iff_count, List.count_append]
    intro g
    omega

theorem exists_inHand_closer {s : Traffic} {i : Nat} {c : Closer}
    (hc : s.closers[i]? = some c) :
    ∃ others, s.inHand.Perm (s.slot.current.toList ++ c.holds ++ others) ∧
      ∀ (next : Traffic) (c' : Closer), next.triggers = s.triggers →
        next.closers = s.closers.set i c' →
        next.inHand.Perm (next.slot.current.toList ++ c'.holds ++ others) := by
  obtain ⟨before, after, hclosers, hset⟩ := exists_set_eq hc
  refine ⟨s.triggers.flatMap (·.holds) ++ before.flatMap (·.holds) ++ after.flatMap (·.holds),
    ?_, fun next c' htriggers hnext => ?_⟩
  · simp only [inHand, hclosers, List.flatMap_append, List.flatMap_cons, List.perm_iff_count,
      List.count_append]
    intro g
    omega
  · simp only [inHand, htriggers, hnext, hset, List.flatMap_append, List.flatMap_cons,
      List.perm_iff_count, List.count_append]
    intro g
    omega

theorem Accounted.quiet {s : Traffic} {i : Nat} {t t' : Trigger} {k : Keeper} (hs : s.Accounted)
    (ht : s.triggers[i]? = some t) (hslot : k.slot = s.slot) (hholds : t'.holds = t.holds)
    (hretiree : t.retiree = none) : (s.withTrigger i t k t').Accounted := by
  obtain ⟨others, hhand, hnext⟩ := exists_inHand_trigger ht
  apply hs.handOn
  · refine (hnext k t').trans ?_
    rw [hslot, hholds]
    exact hhand.symm
  · simp only [withTrigger, slot] at hslot ⊢
    rw [hslot]
  · rfl
  · simp [withTrigger, hretiree, Slot.closedWith]

theorem Accounted.move {s : Traffic} {i : Nat} {t t' : Trigger} {k : Keeper}
    (hs : s.Accounted) (ht : s.triggers[i]? = some t) (hmove : t.Move s.disk s.keeper k t') :
    (s.withTrigger i t k t').Accounted := by
  obtain ⟨others, hhand, hnext⟩ := exists_inHand_trigger ht
  cases hmove with
  | check hstage =>
      apply hs.quiet ht rfl _ (by simp [Trigger.retiree, hstage])
      by_cases hfresh : (s.keeper.isFresh s.disk).1 <;> simp [Trigger.holds, hstage, hfresh]
  | lock hstage hfree =>
      refine hs.quiet ht (k := { s.keeper with rebuilding := true }) rfl ?_
        (by simp [Trigger.retiree, hstage])
      by_cases hrequest : t.request = .ifChanged <;> simp [Trigger.holds, hstage, hrequest]
  | recheck hstage =>
      apply hs.quiet ht rfl _ (by simp [Trigger.retiree, hstage])
      by_cases hfresh : (s.keeper.isFresh s.disk).1 <;> simp [Trigger.holds, hstage, hfresh]
  | look seen hstage hseen =>
      exact hs.quiet ht rfl (by simp [Trigger.holds, hstage]) (by simp [Trigger.retiree, hstage])
  | fail seen sightings failure hstage hseen hresult =>
      exact hs.quiet ht rfl (by simp [Trigger.holds, hstage]) (by simp [Trigger.retiree, hstage])
  | unlock result hstage =>
      exact hs.quiet ht rfl (by simp [Trigger.holds, hstage]) (by simp [Trigger.retiree, hstage])
  | build seen sightings generation hstage hseen hresult =>
      have hholds : t.holds = [] := by simp [Trigger.holds, hstage]
      have hretiree : t.retiree = none := by simp [Trigger.retiree, hstage]
      refine hs.build generation ?_ rfl rfl ?_
      · refine (hnext _ _).trans ?_
        rw [hholds, List.append_nil] at hhand
        have hcons := hhand.cons s.slot.built.size
        refine List.Perm.trans ?_ hcons.symm
        simp only [Trigger.holds, Trigger.moveTo_stage, Slot.add, slot]
        simp
      · simp [withTrigger, hretiree, Slot.closedWith]
  | publish g hstage =>
      have hholds : t.holds = [g] := by simp [Trigger.holds, hstage]
      have hretiree : t.retiree = none := by simp [Trigger.retiree, hstage]
      refine hs.handOn ?_ ?_ rfl (by simp [withTrigger, hretiree, Slot.closedWith])
      · refine (hnext _ _).trans ?_
        refine List.Perm.trans ?_ hhand.symm
        rw [hholds]
        apply List.Perm.append_right
        by_cases hclosed : s.keeper.slot.closed
        · simp [Trigger.holds, Slot.publish, hclosed, slot]
        · simp only [Trigger.holds, Trigger.moveTo_stage, Slot.publish, hclosed, slot]
          exact List.perm_append_comm
      · by_cases hclosed : s.keeper.slot.closed <;>
          simp [withTrigger, slot, Slot.publish, hclosed]
  | retire previous result hstage =>
      have hholds : t.holds = previous.toList := by simp [Trigger.holds, hstage]
      have hretiree : t.retiree = previous := by simp [Trigger.retiree, hstage]
      cases previous with
      | none => exact hs.quiet ht rfl (by simp [Trigger.holds, hstage]) hretiree
      | some g =>
          refine hs.retire (g := g) ?_ rfl rfl (by simp [withTrigger, hretiree, slot])
          refine hhand.trans ?_
          refine List.Perm.trans ?_ ((hnext _ _).cons g).symm
          rw [hholds]
          simp [Trigger.holds, Slot.retire, Slot.setLifetime, slot]

theorem act_accounted {s next : Traffic} {action : Action} (hs : s.Accounted)
    (hact : s.act action = some next) : next.Accounted := by
  cases effect_of_act hact with
  | change | tick => exact hs.handOn (List.Perm.refl _) rfl rfl rfl
  | call request reason raising =>
      refine hs.handOn ?_ rfl rfl rfl
      by_cases hrequest : request = .ifChanged <;>
        simp [inHand, slot, Trigger.begin, Trigger.holds, hrequest]
  | advance ht hmove => exact hs.move ht hmove
  | close =>
      refine hs.handOn ?_ rfl rfl rfl
      simp [inHand, withSlot, slot, Slot.shut, Closer.holds]
  | @empty i hcloser =>
      obtain ⟨others, hhand, hnext⟩ := exists_inHand_closer hcloser
      refine hs.handOn ?_ rfl rfl rfl
      refine (hnext (s.withEmptied i) _ rfl rfl).trans (List.Perm.trans ?_ hhand.symm)
      simp [withEmptied, withSlot, slot, Slot.clear, Closer.holds]
  | @retire i previous hcloser =>
      obtain ⟨others, hhand, hnext⟩ := exists_inHand_closer hcloser
      have hperm := hnext (s.withClosed i previous) .finished rfl rfl
      cases previous with
      | none =>
          refine hs.handOn ?_ rfl rfl (by simp [withClosed, Slot.closedWith])
          exact hperm.trans hhand.symm
      | some g =>
          refine hs.retire (g := g) ?_ rfl rfl rfl
          refine hhand.trans (List.Perm.trans ?_ (hperm.cons g).symm)
          simp [withClosed, withSlot, slot, Closer.holds, Slot.retire, Slot.setLifetime]
  | @enter slot g henter =>
      obtain ⟨l, hcurrent, hl, -, rfl⟩ := Slot.enter_eq_ok henter
      have hheld : g ∈ s.inHand := by simp [inHand, hcurrent]
      have hdue : l = s.lifetimeDue g := by
        have := hs.lifetime g (hs.held_lt g hheld)
        rw [hl] at this
        exact Option.some.inj this
      subst l
      exact hs.enter hheld rfl rfl rfl rfl
  | leave hread => exact hs.leave hread

theorem Reachable.accounted {allowed : Traffic → Action → Prop} {path : String}
    {builder : Builder} {disk : Disk} {s : Traffic}
    (hreach : Reachable allowed (Traffic.start path builder disk) s) : s.Accounted := by
  induction hreach with
  | start => exact start_accounted path builder disk
  | act action _ _ hact ih => exact act_accounted ih hact

/-! ## Safety of readers -/

/-- What readers rely on, and what becomes of generations that nobody needs any more. -/
structure Safe (s : Traffic) : Prop where
  /-- A generation that a reader has entered is open, and its rows can be read. -/
  entered : ∀ g ∈ s.readers, ∃ h, s.slot.built[g]? = some h ∧ h.lifetime.closed = false ∧
    h.entries = .ok h.generation.entries
  /-- The generation in the slot is neither retired nor closed, and a reader can enter it. -/
  current : ∀ g, s.slot.current = some g → ∃ h entered, s.slot.built[g]? = some h ∧
    h.lifetime.retired = false ∧ h.lifetime.closed = false ∧ s.slot.enter = .ok (entered, g)
  enter_ne : s.slot.enter ≠ .error .generationClosed
  /-- A retired generation without readers is closed. -/
  retired : ∀ g h, s.slot.built[g]? = some h → h.lifetime.retired = true → g ∉ s.readers →
    h.lifetime.closed = true
  /-- A generation that nothing still has to publish or to retire is in the slot or retired. -/
  released : ∀ g h, s.slot.built[g]? = some h → s.slot.current ≠ some g →
    (∀ t ∈ s.triggers, g ∉ t.holds) → (∀ c ∈ s.closers, g ∉ c.holds) → h.lifetime.retired = true
  /-- The database of a generation was closed once if the generation is closed, else never. -/
  closings : ∀ g h, s.slot.built[g]? = some h →
    s.closings.count g = if h.lifetime.closed then 1 else 0
  /-- Nothing can read, enter, publish or retire a generation that is closed. -/
  closed : ∀ g h, s.slot.built[g]? = some h → h.lifetime.closed = true → g ∉ s.readers ∧
    s.slot.current ≠ some g ∧ (∀ t ∈ s.triggers, g ∉ t.holds) ∧ ∀ c ∈ s.closers, g ∉ c.holds

theorem Accounted.lifetime_eq {s : Traffic} {g : Nat} {h : Held} (hs : s.Accounted)
    (hbuilt : s.slot.built[g]? = some h) : h.lifetime = s.lifetimeDue g := by
  obtain ⟨hlt, -⟩ := Array.getElem?_eq_some_iff.mp hbuilt
  have hlifetime := hs.lifetime g hlt
  simpa [Slot.lifetime?, hbuilt] using hlifetime

theorem Accounted.exists_built {s : Traffic} {g : Nat} (hlt : g < s.slot.built.size) :
    ∃ h, s.slot.built[g]? = some h :=
  ⟨_, Array.getElem?_eq_getElem hlt⟩

theorem mem_inHand {s : Traffic} {g : Nat} :
    g ∈ s.inHand ↔ s.slot.current = some g ∨ (∃ t ∈ s.triggers, g ∈ t.holds) ∨
      ∃ c ∈ s.closers, g ∈ c.holds := by
  simp [inHand]

theorem Accounted.safe {s : Traffic} (hs : s.Accounted) : s.Safe where
  entered := by
    intro g hread
    obtain ⟨h, hbuilt⟩ := Accounted.exists_built (hs.read_lt g hread)
    have hclosed : h.lifetime.closed = false := by
      rw [hs.lifetime_eq hbuilt]
      simp [lifetimeDue, hread]
    exact ⟨h, hbuilt, hclosed, by simp [Held.entries, hclosed]⟩
  current := by
    intro g hcurrent
    have hheld : g ∈ s.inHand := mem_inHand.mpr (Or.inl hcurrent)
    obtain ⟨h, hbuilt⟩ := Accounted.exists_built (hs.held_lt g hheld)
    have hretired : h.lifetime.retired = false := by
      rw [hs.lifetime_eq hbuilt]
      simp [lifetimeDue, hheld]
    have hclosed : h.lifetime.closed = false := by
      rw [hs.lifetime_eq hbuilt]
      simp [lifetimeDue, hheld]
    exact ⟨h, _, hbuilt, hretired, hclosed,
      Slot.enter_of_current hcurrent (by simp [Slot.lifetime?, hbuilt]) hclosed⟩
  enter_ne := by
    intro henter
    cases hcurrent : s.slot.current with
    | none => simp [Slot.enter, hcurrent] at henter
    | some g =>
        have hheld : g ∈ s.inHand := mem_inHand.mpr (Or.inl hcurrent)
        have hlifetime := hs.lifetime g (hs.held_lt g hheld)
        rw [Slot.enter_of_current hcurrent hlifetime (by simp [lifetimeDue, hheld])] at henter
        contradiction
  retired := by
    intro g h hbuilt hretired hread
    rw [hs.lifetime_eq hbuilt] at hretired ⊢
    simp_all [lifetimeDue]
  released := by
    intro g h hbuilt hcurrent htriggers hclosers
    have hheld : g ∉ s.inHand := by
      rw [mem_inHand]
      rintro (hg | ⟨t, ht, hg⟩ | ⟨c, hc, hg⟩)
      · exact hcurrent hg
      · exact htriggers t ht hg
      · exact hclosers c hc hg
    rw [hs.lifetime_eq hbuilt]
    simp [lifetimeDue, hheld]
  closings := by
    intro g h hbuilt
    obtain ⟨hlt, -⟩ := Array.getElem?_eq_some_iff.mp hbuilt
    rw [hs.closings g, hs.lifetime_eq hbuilt]
    simp [closingsDue, lifetimeDue, hlt]
  closed := by
    intro g h hbuilt hclosed
    rw [hs.lifetime_eq hbuilt] at hclosed
    simp only [lifetimeDue, decide_eq_true_eq, mem_inHand, not_or, not_exists, not_and] at hclosed
    exact ⟨hclosed.2, hclosed.1.1, hclosed.1.2.1, hclosed.1.2.2⟩

/-- Whatever readers, triggers and calls that close do, and in whatever order, readers are safe
and no generation is left open that nobody needs. -/
theorem readers_safe {path : String} {builder : Builder} {disk : Disk} {s : Traffic}
    (hreach : Reachable Anyhow (Traffic.start path builder disk) s) : s.Safe :=
  hreach.accounted.safe

/-- A reader enters the first generation; then a second one is published in its place, and a call
closes the keeper. -/
def displacement : List Action :=
  [.call .first "" true] ++ List.replicate 11 (.advance 0) ++ [.enter, .call .always "" false] ++
    List.replicate 10 (.advance 1) ++ [.close, .advanceClose 0, .advanceClose 0]

def emptyBuilder : Builder := fun _ =>
  ⟨.ok ⟨"c", ⟨0, 0⟩, ⟨0, 0, 0, 0, 0⟩, ⟨0, 0, []⟩, []⟩, []⟩

theorem readers_safe_displacement :
    ∃ s, (start "c" emptyBuilder fun _ => .directory).run displacement = some s ∧
      s.readers = [0] ∧ s.closings = [1] ∧ s.slot.current = none ∧ s.Safe := by
  obtain ⟨s, hrun, hreaders, hclosings, hcurrent⟩ :
      ∃ s, (start "c" emptyBuilder fun _ => .directory).run displacement = some s ∧
        s.readers = [0] ∧ s.closings = [1] ∧ s.slot.current = none := ⟨_, rfl, rfl, rfl, rfl⟩
  exact ⟨s, hrun, hreaders, hclosings, hcurrent, readers_safe (.of_run (fun _ _ _ => trivial) hrun)⟩

end Traffic

end DiskCatalog.Refresh

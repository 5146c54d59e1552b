import DiskCatalog.Proofs.Refresh.Pace

/-!
# What a step does to the slot

Each step leaves what the slot says alone, publishes, marks the slot as closed or empties it.  A
generation that is closed stays closed.  One that comes too late is withheld by its trigger: no
reader gets at it, so it is closed when it is retired.
-/

namespace DiskCatalog.Refresh

open Store Index

/-! ## Triggers -/

namespace Trigger

def isBuilding (t : Trigger) : Bool :=
  match t.stage with
  | .building _ => true
  | _ => false

/-- The failure in which the next step of a trigger ends its build. -/
def buildFailure? (k : Keeper) (t : Trigger) : Option Failure :=
  match t.stage with
  | .building seen => (sightings? seen).bind fun s =>
    match (k.builder s).result with
    | .ok _ => none
    | .error failure => some failure
  | _ => none

/-- What a trigger reports whose build has failed. -/
def failed (t : Trigger) (failure : Failure) : Except Failure Rebuilt :=
  if t.survives failure then .ok ⟨false, none⟩ else .error failure

/-- Whether nothing is left to do but to give the lock back and to report. -/
def Reports (t : Trigger) (result : Except Failure Rebuilt) : Prop :=
  t.stage = .leaving result ∨ t.stage = .finished result

/-- Whether a trigger has a generation that it has not published and, once it was refused, will
retire. -/
def Withholds (t : Trigger) (g : Nat) : Prop :=
  t.stage = .publishing g ∨ t.stage = .retiring (some g) ⟨false, some g⟩

variable {disk : Disk} {k k' : Keeper} {t t' : Trigger} {g : Nat} {failure : Failure}

theorem fail_eq (t : Trigger) (failure : Failure) :
    (t.fail failure).1 = t.moveTo (.leaving (t.failed failure)) := by
  unfold fail failed
  split <;> rfl

theorem abort_eq (hbuilding : t.isBuilding = true) :
    (t.abort failure).1 = t.moveTo (.leaving (t.failed failure)) := by
  unfold isBuilding at hbuilding
  unfold abort
  split at hbuilding
  · rename_i seen hstage
    simp only [hstage, fail_eq]
  · contradiction

theorem not_withholds_begin (request : Request) (reason : String) (raising : Bool) (g : Nat) :
    ¬(begin request reason raising).Withholds g := by
  by_cases hrequest : request = .ifChanged <;> simp [begin, Withholds, hrequest]

theorem Withholds.mem_holds (ht : t.Withholds g) : g ∈ t.holds := by
  rcases ht with hstage | hstage <;> simp [holds, hstage]

/-- A build that fails is over, and the keeper is as it was. -/
theorem Move.of_buildFailure (hmove : t.Move disk k k' t')
    (hfailure : t.buildFailure? k = some failure) :
    k' = k ∧ t' = t.moveTo (.leaving (t.failed failure)) ∧ t.retiree = none := by
  cases hmove with
  | fail seen s other hstage hseen hresult =>
      simp only [buildFailure?, hstage, hseen, Option.bind_some, hresult,
        Option.some.injEq] at hfailure
      subst other
      exact ⟨rfl, rfl, by simp [retiree, hstage]⟩
  | look seen hstage hseen => simp [buildFailure?, hstage, hseen] at hfailure
  | build seen s generation hstage hseen hresult =>
      simp [buildFailure?, hstage, hseen, hresult] at hfailure
  | check hstage | lock hstage hfree | recheck hstage | publish i hstage
  | retire previous result hstage | unlock result hstage =>
      simp [buildFailure?, hstage] at hfailure

/-- The last step of a trigger gives the lock back. -/
theorem Move.reports {result : Except Failure Rebuilt} (hmove : t.Move disk k k' t')
    (hreports : t.Reports result) : t'.Reports result ∧ k'.slot = k.slot := by
  cases hmove with
  | unlock other hstage =>
      rcases hreports with hleaving | hfinished
      · obtain rfl : other = result := Stage.leaving.inj (hstage.symm.trans hleaving)
        exact ⟨Or.inr rfl, rfl⟩
      · simp [hstage] at hfinished
  | check hstage | lock hstage hfree | recheck hstage | look seen hstage hseen
  | build seen s generation hstage hseen hresult | fail seen s other hstage hseen hresult
  | publish i hstage | retire previous result hstage =>
      simp [Reports, hstage] at hreports

/-- What is withheld after a step was withheld before, or it was just built. -/
theorem Move.withholds (hmove : t.Move disk k k' t') (ht' : t'.Withholds g) :
    t.Withholds g ∨ g = k.slot.built.size := by
  cases hmove with
  | build seen s generation hstage hseen hresult =>
      refine Or.inr ?_
      simpa [Withholds, eq_comm] using ht'
  | publish i hstage =>
      refine Or.inl (Or.inl ?_)
      simp only [Withholds, moveTo_stage, reduceCtorEq, Stage.retiring.injEq, Rebuilt.mk.injEq,
        Option.some.injEq, false_or] at ht'
      rw [hstage, ht'.2.2]
  | check hstage | recheck hstage =>
      by_cases hfresh : (k.isFresh disk).1 <;> simp [Withholds, hfresh] at ht'
  | lock hstage hfree =>
      by_cases hrequest : t.request = .ifChanged <;> simp [Withholds, hrequest] at ht'
  | look | fail | retire | unlock => simp [Withholds] at ht'

/-- A closed slot takes no generation. -/
theorem Move.refuse (hmove : t.Move disk k k' t') (hclosed : k.slot.closed = true)
    (hstage : t.stage = .publishing g) : t'.stage = .retiring (some g) ⟨false, some g⟩ := by
  cases hmove with
  | publish i hi =>
      obtain rfl : i = g := Stage.publishing.inj (hi.symm.trans hstage)
      simp [Slot.publish, hclosed]
  | check | lock | recheck | look | build | fail | retire | unlock => simp_all

theorem Move.discard (hmove : t.Move disk k k' t')
    (hstage : t.stage = .retiring (some g) ⟨false, some g⟩) :
    t'.stage = .leaving (.ok ⟨false, some g⟩) ∧ k'.slot = k.slot.retire g := by
  cases hmove with
  | retire previous result hretiring =>
      obtain ⟨rfl, rfl⟩ := Stage.retiring.inj (hretiring.symm.trans hstage)
      exact ⟨rfl, rfl⟩
  | check | lock | recheck | look | build | fail | publish | unlock => simp_all

end Trigger

/-! ## Lifetimes that have ended -/

namespace Lifetime

variable {l : Lifetime}

theorem closed_retire (hclosed : l.closed = true) : l.retire.closed = true := by
  simp [retire, settle_eq, hclosed]

theorem closed_release (hclosed : l.closed = true) : l.release.closed = true := by
  simp [release, settle_eq, hclosed]

end Lifetime

namespace Slot

/-- Whether the database of a generation is closed. -/
def hasClosed (s : Slot) (g : Nat) : Bool :=
  (s.lifetime? g).any (·.closed)

variable {s : Slot} {g : Nat}

theorem hasClosed_setLifetime {f : Lifetime → Lifetime}
    (hf : ∀ l, l.closed = true → (f l).closed = true) (i : Nat)
    (hclosed : s.hasClosed g = true) : (s.setLifetime i f).hasClosed g = true := by
  obtain ⟨l, hl, hlclosed⟩ := (Option.any_eq_true _ _).mp hclosed
  rw [hasClosed, lifetime?_setLifetime, hl]
  by_cases hig : i = g
  · rw [if_pos hig]
    exact hf l hlclosed
  · rw [if_neg hig]
    exact hlclosed

theorem hasClosed_retire (i : Nat) (hclosed : s.hasClosed g = true) :
    (s.retire i).hasClosed g = true :=
  hasClosed_setLifetime (fun _ => Lifetime.closed_retire) i hclosed

theorem hasClosed_leave (i : Nat) (hclosed : s.hasClosed g = true) :
    (s.leave i).hasClosed g = true :=
  hasClosed_setLifetime (fun _ => Lifetime.closed_release) i hclosed

theorem hasClosed_add (generation : Generation) (hclosed : s.hasClosed g = true) :
    (s.add generation).1.hasClosed g = true := by
  obtain ⟨l, hl, hlclosed⟩ := (Option.any_eq_true _ _).mp hclosed
  obtain ⟨h, hbuilt, -⟩ := Option.map_eq_some_iff.mp hl
  have hlt := (Array.getElem?_eq_some_iff.mp hbuilt).1
  rw [hasClosed, lifetime?_add, if_neg hlt.ne, hl]
  exact hlclosed

theorem hasClosed_publish (i : Nat) (now : Calendar.DateTime) (hclosed : s.hasClosed g = true) :
    (s.publish i now).1.hasClosed g = true := by
  cases hshut : s.closed <;> simpa [publish, hshut, hasClosed, lifetime?] using hclosed

theorem hasClosed_enter {entered : Slot} {i : Nat} (henter : s.enter = .ok (entered, i))
    (hclosed : s.hasClosed g = true) : entered.hasClosed g = true := by
  obtain ⟨l, -, hl, hopen, rfl⟩ := enter_eq_ok henter
  by_cases hig : i = g
  · subst hig
    simp [hasClosed, hl, hopen] at hclosed
  · simpa [hasClosed, hig] using hclosed

end Slot

theorem Trigger.Move.hasClosed {disk : Disk} {k k' : Keeper} {t t' : Trigger} {g : Nat}
    (hmove : t.Move disk k k' t') (hclosed : k.slot.hasClosed g = true) :
    k'.slot.hasClosed g = true := by
  cases hmove with
  | build seen s generation hstage hseen hresult => exact Slot.hasClosed_add generation hclosed
  | publish i hstage => exact Slot.hasClosed_publish i k.clock hclosed
  | retire previous result hstage =>
      cases previous with
      | none => exact hclosed
      | some retired => exact Slot.hasClosed_retire retired hclosed
  | check | lock | recheck | look | fail | unlock => exact hclosed

namespace Traffic

variable {s next : Traffic} {action : Action} {g i : Nat} {t : Trigger}

/-- A generation that is closed stays closed. -/
theorem act_hasClosed (hact : s.act action = some next) (hclosed : s.slot.hasClosed g = true) :
    next.slot.hasClosed g = true := by
  cases effect_of_act hact with
  | advance ht hmove => exact hmove.hasClosed hclosed
  | @retire i previous hcloser =>
      cases previous with
      | none => exact hclosed
      | some retired => exact Slot.hasClosed_retire retired hclosed
  | enter henter => exact Slot.hasClosed_enter henter hclosed
  | @leave left hread => exact Slot.hasClosed_leave left hclosed
  | change | tick | call | close | empty => exact hclosed

/-! ## What a step does to the slot -/

/-- Whether a call that closes has emptied the slot. -/
def isEmptied (s : Traffic) : Bool :=
  s.closers.any (· ≠ .emptying)

/-- The generation that an action publishes. -/
def published? (s : Traffic) : Action → Option Nat
  | .advance i => (s.triggers[i]?).bind fun t =>
    match t.stage with
    | .publishing g => if (s.slot.publish g s.keeper.clock).2.2 then some g else none
    | _ => none
  | _ => none

/-- What a step does to the slot and to the calls that close, with what it publishes. -/
inductive Course (s next : Traffic) : Option Nat → Prop where
  | quiet : s.slot.Kept next.slot → next.closers.isEmpty = s.closers.isEmpty →
      next.isEmptied = s.isEmptied → Course s next none
  | publish (g : Nat) (generation : Generation) : s.slot.closed = false →
      s.slot.generation? g = some generation →
      next.slot = { s.slot with
        current := some g, signature := some generation.signature, number := s.slot.number + 1
        loaded := some s.keeper.clock } →
      next.closers = s.closers → Course s next (some g)
  | shut : next.slot = s.slot.shut → next.closers = s.closers ++ [.emptying] → Course s next none
  | empty : next.slot = s.slot.clear.1 → next.closers.isEmpty = s.closers.isEmpty →
      next.isEmptied = true → Course s next none

theorem course_withTrigger {k : Keeper} {t' : Trigger} (hs : s.Accounted)
    (ht : s.triggers[i]? = some t) (hmove : t.Move s.disk s.keeper k t') :
    s.Course (s.withTrigger i t k t') (s.published? (.advance i)) := by
  by_cases hpublishing : ∃ g, t.stage = .publishing g
  · obtain ⟨g, hstage⟩ := hpublishing
    have hheld : g ∈ s.inHand :=
      mem_inHand.mpr (Or.inr (Or.inl ⟨t, List.mem_of_getElem? ht, by simp [Trigger.holds, hstage]⟩))
    obtain ⟨h, hbuilt⟩ := Accounted.exists_built (hs.held_lt g hheld)
    have hgeneration : s.slot.generation? g = some h.generation :=
      Slot.generation?_eq_some_iff.mpr ⟨h, hbuilt, rfl⟩
    cases hclosed : s.slot.closed with
    | false =>
        obtain ⟨rfl, -⟩ := hmove.publish_eq hstage hclosed hgeneration
        have hpublished : s.published? (.advance i) = some g := by
          simp [published?, ht, hstage, Slot.publish, hclosed]
        rw [hpublished]
        exact .publish g h.generation hclosed hgeneration rfl rfl
    | true =>
        have hpublished : s.published? (.advance i) = none := by
          simp [published?, ht, hstage, Slot.publish, hclosed]
        have hslot : k.slot = s.slot := by
          cases hmove with
          | publish other hother =>
              have hclosed : s.keeper.slot.closed = true := hclosed
              simp [Slot.publish, hclosed, slot]
          | check | lock | recheck | look | build | fail | retire | unlock => simp_all
        rw [hpublished]
        refine .quiet ?_ rfl rfl
        change s.slot.Kept k.slot
        rw [hslot]
        exact Slot.Kept.refl s.slot
  · have hother : ∀ g, t.stage ≠ .publishing g := not_exists.mp hpublishing
    have hpublished : s.published? (.advance i) = none := by
      simp only [published?, ht, Option.bind_some]
    rw [hpublished]
    exact .quiet (hmove.kept hother) rfl rfl

theorem isEmpty_set_closer {closers : List Closer} (i : Nat) (c : Closer) :
    (closers.set i c).isEmpty = closers.isEmpty := by
  cases closers <;> cases i <;> rfl

theorem any_set_closer {closers : List Closer} {c c' : Closer} (hc : closers[i]? = some c)
    (hnext : c' ≠ .emptying) : (closers.set i c').any (· ≠ .emptying) = true := by
  have hlt := (List.getElem?_eq_some_iff.mp hc).1
  exact List.any_eq_true.mpr ⟨c', List.mem_set hlt c', decide_eq_true hnext⟩

theorem act_course (hs : s.Accounted) (hact : s.act action = some next) :
    s.Course next (s.published? action) := by
  cases effect_of_act hact with
  | advance ht hmove => exact course_withTrigger hs ht hmove
  | change | tick | call => exact .quiet (.refl s.slot) rfl rfl
  | close => exact .shut rfl rfl
  | @empty i hcloser =>
      exact .empty rfl (isEmpty_set_closer i _) (any_set_closer hcloser (by simp))
  | @retire i previous hcloser =>
      have hbefore : s.isEmptied = true :=
        List.any_eq_true.mpr ⟨_, List.mem_of_getElem? hcloser, by simp⟩
      refine .quiet ?_ (isEmpty_set_closer i _) ((any_set_closer hcloser (by simp)).trans hbefore.symm)
      cases previous with
      | none => exact .refl s.slot
      | some g => exact s.slot.kept_setLifetime g _
  | enter => exact .quiet (act_enter hact).slot rfl rfl
  | leave => exact .quiet (act_leave hact).slot rfl rfl

/-- A trigger takes a step of its own, or it stays as it is. -/
theorem act_trigger (hact : s.act action = some next) (ht : s.triggers[i]? = some t) :
    next.triggers[i]? = some t ∨ ∃ k t', action = .advance i ∧ t.Move s.disk s.keeper k t' ∧
      next = s.withTrigger i t k t' ∧ next.triggers[i]? = some t' := by
  have hlt := (List.getElem?_eq_some_iff.mp ht).1
  cases effect_of_act hact with
  | @advance j u u' k hu hmove =>
      by_cases hji : j = i
      · subst hji
        obtain rfl : u = t := Option.some.inj (hu.symm.trans ht)
        exact Or.inr ⟨k, u', rfl, hmove, rfl, List.getElem?_set_self hlt⟩
      · exact Or.inl ((List.getElem?_set_ne hji).trans ht)
  | call => exact Or.inl ((List.getElem?_append_left hlt).trans ht)
  | change | tick | close | empty | retire | enter | leave => exact Or.inl ht

/-- No reader has a generation that is withheld. -/
def Unread (s : Traffic) : Prop :=
  ∀ t ∈ s.triggers, ∀ g, t.Withholds g → g ∉ s.readers

theorem Unread.of_le (hs : s.Unread) (htriggers : next.triggers = s.triggers)
    (hreaders : ∀ g ∈ next.readers, g ∈ s.readers) : next.Unread := by
  intro t ht g hwithholds hread
  exact hs t (htriggers ▸ ht) g hwithholds (hreaders g hread)

/-- What is withheld is in hand there, and nowhere else. -/
theorem Accounted.current_ne_of_withholds (hs : s.Accounted) (ht : t ∈ s.triggers)
    (hwithholds : t.Withholds g) : s.slot.current ≠ some g := by
  intro hcurrent
  have hheld : g ∈ s.triggers.flatMap (·.holds) ++ s.closers.flatMap (·.holds) :=
    List.mem_append_left _ (List.mem_flatMap.mpr ⟨t, ht, hwithholds.mem_holds⟩)
  have hnodup := hs.nodup
  simp only [inHand, hcurrent, Option.toList_some, List.singleton_append] at hnodup
  exact (List.nodup_cons.mp hnodup).1 hheld

theorem act_unread (hs : s.Accounted) (hunread : s.Unread) (hact : s.act action = some next) :
    next.Unread := by
  cases effect_of_act hact with
  | @advance j t t' k ht hmove =>
      intro u hu g hwithholds hread
      rcases List.mem_or_eq_of_mem_set hu with hu | rfl
      · exact hunread u hu g hwithholds hread
      · rcases hmove.withholds hwithholds with hbefore | rfl
        · exact hunread t (List.mem_of_getElem? ht) g hbefore hread
        · exact (hs.read_lt _ hread).ne rfl
  | call request reason raising =>
      intro u hu g hwithholds hread
      rcases List.mem_append.mp hu with hu | hu
      · exact hunread u hu g hwithholds hread
      · obtain rfl := List.mem_singleton.mp hu
        exact absurd hwithholds (Trigger.not_withholds_begin request reason raising g)
  | change | tick | close | empty | retire => exact hunread.of_le rfl fun _ => id
  | @enter slot entered henter =>
      obtain ⟨l, hcurrent, -⟩ := Slot.enter_eq_ok henter
      intro u hu g hwithholds hread
      rcases List.mem_cons.mp hread with rfl | hread
      · exact hs.current_ne_of_withholds hu hwithholds hcurrent
      · exact hunread u hu g hwithholds hread
  | leave => exact hunread.of_le rfl fun _ => List.mem_of_mem_erase

theorem Accounted.hasClosed_retire (hs : s.Accounted) (hlt : g < s.slot.built.size)
    (hread : g ∉ s.readers) : (s.slot.retire g).hasClosed g = true := by
  have hcount : s.readers.count g = 0 := List.count_eq_zero.mpr hread
  simp [Slot.hasClosed, Slot.retire, hs.lifetime g hlt, lifetimeDue, hcount, Lifetime.retire,
    Lifetime.settle_eq, Lifetime.isOver]

/-- A slot that is closed stays so, and nothing is published. -/
theorem Course.closed {published : Option Nat} (hcourse : s.Course next published)
    (hclosed : s.slot.closed = true) :
    published = none ∧ next.slot.closed = true ∧ next.slot.number = s.slot.number ∧
      next.slot.loaded = s.slot.loaded := by
  cases hcourse with
  | quiet hkept hempty hemptied =>
      exact ⟨rfl, hkept.closed.trans hclosed, hkept.number, hkept.loaded⟩
  | publish g generation hopen hgeneration hslot hclosers => simp [hopen] at hclosed
  | shut hslot hclosers =>
      rw [hslot]
      exact ⟨rfl, rfl, rfl, rfl⟩
  | empty hslot hempty hemptied =>
      rw [hslot]
      exact ⟨rfl, hclosed, rfl, rfl⟩

theorem Course.isEmptied {published : Option Nat} (hcourse : s.Course next published)
    (hclosed : s.slot.closed = true) (hemptied : s.isEmptied = true) : next.isEmptied = true := by
  cases hcourse with
  | quiet hkept hempty hsame => exact hsame.trans hemptied
  | publish g generation hopen hgeneration hslot hclosers => simp [hopen] at hclosed
  | shut hslot hclosers =>
      rw [Traffic.isEmptied, hclosers, List.any_append, Bool.or_eq_true]
      exact Or.inl hemptied
  | empty hslot hempty hemptied => exact hemptied

/-- What a build that fails leaves behind. -/
def withFailed (s : Traffic) (i : Nat) (t : Trigger) (failure : Failure) : Traffic :=
  { s with triggers := s.triggers.set i (t.moveTo (.leaving (t.failed failure))) }

theorem withTrigger_of_buildFailure {k : Keeper} {t' : Trigger} {failure : Failure}
    (hmove : t.Move s.disk s.keeper k t') (hfailure : t.buildFailure? s.keeper = some failure) :
    s.withTrigger i t k t' = s.withFailed i t failure := by
  obtain ⟨rfl, rfl, hretiree⟩ := hmove.of_buildFailure hfailure
  simp [withTrigger, withFailed, hretiree, Slot.closedWith]

theorem withFailed_eq (hbuilding : t.isBuilding = true) (failure : Failure) :
    s.withFailed i t failure =
      s.withTrigger i t s.keeper (t.moveTo (.leaving (t.failed failure))) := by
  have hretiree : t.retiree = none := by
    unfold Trigger.isBuilding at hbuilding
    unfold Trigger.retiree
    split at hbuilding <;> simp_all
  simp [withTrigger, withFailed, hretiree, Slot.closedWith]

theorem Accounted.withFailed (hs : s.Accounted) (ht : s.triggers[i]? = some t)
    (hbuilding : t.isBuilding = true) (failure : Failure) :
    (s.withFailed i t failure).Accounted := by
  have hstage : t.holds = [] ∧ t.retiree = none := by
    unfold Trigger.isBuilding at hbuilding
    unfold Trigger.holds Trigger.retiree
    split at hbuilding <;> simp_all
  rw [withFailed_eq hbuilding]
  exact hs.quiet ht rfl (by rw [hstage.1]; rfl) hstage.2

theorem Unread.withFailed (hs : s.Unread) (failure : Failure) :
    (s.withFailed i t failure).Unread := by
  intro u hu g hwithholds
  rcases List.mem_or_eq_of_mem_set hu with hu | rfl
  · exact hs u hu g hwithholds
  · simp [Trigger.Withholds] at hwithholds

end Traffic

end DiskCatalog.Refresh

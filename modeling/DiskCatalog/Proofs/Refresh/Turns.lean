import DiskCatalog.Proofs.Refresh.Lifetimes

/-!
# Triggers take turns

The lock is taken exactly while one trigger is between getting it and leaving, and that trigger can
always take a step.  So no two triggers ever rebuild at the same time, something can be done as long
as a trigger has not finished, and since each step leaves fewer to take, all of them finish.
-/

namespace DiskCatalog.Refresh

open Store Index

namespace Trigger

/-- Whether a trigger has the lock. -/
def isInside (t : Trigger) : Bool :=
  match t.stage with
  | .checking | .waiting | .finished _ => false
  | .rechecking | .building _ | .publishing _ | .retiring .. | .leaving _ => true

/-- The steps that a trigger still has before it, if it builds. -/
def stepsLeft (t : Trigger) : Nat :=
  match t.stage with
  | .checking => 13
  | .waiting => 12
  | .rechecking => 11
  | .building seen => 10 - seen.length
  | .publishing _ => 3
  | .retiring .. => 2
  | .leaving _ => 1
  | .finished _ => 0

/-- A build looks six times at most. -/
def LooksEnough (t : Trigger) : Prop :=
  ∀ seen, t.stage = .building seen → seen.length ≤ 6

theorem sightings?_eq_none {seen : List Target} (hseen : sightings? seen = none) :
    seen.length ≠ 6 := by
  intro hlength
  match seen, hlength with
  | [_, _, _, _, _, _], _ => simp [sightings?] at hseen

theorem sightings?_eq_some {seen : List Target} {s : Sightings}
    (hseen : sightings? seen = some s) : seen.length = 6 := by
  unfold sightings? at hseen
  split at hseen
  · rfl
  · contradiction

variable {disk : Disk} {k k' : Keeper} {t t' : Trigger}

/-- A step leaves the lock and the place of its trigger alone, or it gets the lock or gives it
back. -/
theorem Move.turn (hmove : t.Move disk k k' t') :
    (t'.isInside = t.isInside ∧ k'.rebuilding = k.rebuilding) ∨
    (k.rebuilding = false ∧ t'.isInside = true ∧ k'.rebuilding = true) ∨
    (t.isInside = true ∧ t'.isInside = false ∧ k'.rebuilding = false) := by
  cases hmove with
  | check hstage =>
      apply Or.inl
      by_cases hfresh : (k.isFresh disk).1 <;> simp [isInside, moveTo, hstage, hfresh]
  | lock hstage hfree =>
      refine Or.inr (Or.inl ⟨hfree, ?_, rfl⟩)
      by_cases hrequest : t.request = .ifChanged <;> simp [isInside, moveTo, hrequest]
  | recheck hstage =>
      apply Or.inl
      by_cases hfresh : (k.isFresh disk).1 <;> simp [isInside, moveTo, hstage, hfresh]
  | look seen hstage hseen => simp [isInside, moveTo, hstage]
  | build seen s g hstage hseen hresult => simp [isInside, moveTo, hstage]
  | fail seen s failure hstage hseen hresult => simp [isInside, moveTo, hstage]
  | publish i hstage => simp [isInside, moveTo, hstage]
  | retire previous result hstage => simp [isInside, moveTo, hstage]
  | unlock result hstage => simp [isInside, moveTo, hstage]

theorem Move.looksEnough (hmove : t.Move disk k k' t') (ht : t.LooksEnough) :
    t'.LooksEnough := by
  intro more hmore
  cases hmove with
  | check hstage => by_cases hfresh : (k.isFresh disk).1 <;> simp [hfresh] at hmore
  | lock hstage hfree =>
      by_cases hrequest : t.request = .ifChanged <;> simp [hrequest] at hmore
      exact hmore ▸ Nat.zero_le 6
  | recheck hstage =>
      by_cases hfresh : (k.isFresh disk).1 <;> simp [hfresh] at hmore
      exact hmore ▸ Nat.zero_le 6
  | look seen hstage hseen =>
      simp only [moveTo_stage, Stage.building.injEq] at hmore
      have hfew := ht seen hstage
      have hnot := sightings?_eq_none hseen
      rw [← hmore, List.length_append, List.length_singleton]
      omega
  | build seen s g hstage hseen hresult => simp at hmore
  | fail seen s failure hstage hseen hresult => simp at hmore
  | publish i hstage => simp at hmore
  | retire previous result hstage => simp at hmore
  | unlock result hstage => simp at hmore

theorem Move.stepsLeft_lt (hmove : t.Move disk k k' t') (ht : t.LooksEnough) :
    t'.stepsLeft < t.stepsLeft := by
  cases hmove with
  | check hstage =>
      by_cases hfresh : (k.isFresh disk).1 <;> simp [stepsLeft, moveTo, hstage, hfresh]
  | lock hstage hfree =>
      by_cases hrequest : t.request = .ifChanged <;> simp [stepsLeft, moveTo, hstage, hrequest]
  | recheck hstage =>
      by_cases hfresh : (k.isFresh disk).1 <;> simp [stepsLeft, moveTo, hstage, hfresh]
  | look seen hstage hseen =>
      have hfew := ht seen hstage
      simp only [stepsLeft, moveTo, hstage, List.length_append, List.length_singleton]
      omega
  | build seen s g hstage hseen hresult =>
      simp [stepsLeft, moveTo, hstage, sightings?_eq_some hseen]
  | fail seen s failure hstage hseen hresult =>
      simp [stepsLeft, moveTo, hstage, sightings?_eq_some hseen]
  | publish i hstage => simp [stepsLeft, moveTo, hstage]
  | retire previous result hstage => simp [stepsLeft, moveTo, hstage]
  | unlock result hstage => simp [stepsLeft, moveTo, hstage]

/-- Only the lock keeps a trigger that has not finished from its next step. -/
theorem exists_step (hstage : t.result? = none) (hfree : t.isInside = true ∨ k.rebuilding = false) :
    (t.step k disk).isSome := by
  unfold step
  cases h : t.stage with
  | finished result => simp [result?, h] at hstage
  | waiting =>
      have hunlocked : k.rebuilding = false := by simpa [isInside, h] using hfree
      simp [hunlocked]
  | building seen => cases hseen : sightings? seen <;> simp [hseen]
  | checking | rechecking | publishing i | retiring previous result | leaving result => simp

end Trigger

namespace Traffic

/-! ## One holder at a time -/

/-- The lock is taken exactly while a trigger is inside, which is the holder and no other. -/
structure Orderly (s : Traffic) (holder : Option Nat) : Prop where
  lock : s.keeper.rebuilding = holder.isSome
  inside : ∀ i t, s.triggers[i]? = some t → (t.isInside = true ↔ holder = some i)
  range : ∀ i ∈ holder, i < s.triggers.length
  looks : ∀ t ∈ s.triggers, t.LooksEnough

variable {s next : Traffic} {holder : Option Nat}

/-- A step that touches neither the lock nor a trigger. -/
theorem Orderly.congr (hs : s.Orderly holder) (hlock : next.keeper.rebuilding = s.keeper.rebuilding)
    (htriggers : next.triggers = s.triggers) : next.Orderly holder := by
  constructor
  · rw [hlock, hs.lock]
  · rw [htriggers]
    exact hs.inside
  · rw [htriggers]
    exact hs.range
  · rw [htriggers]
    exact hs.looks

/-- While one trigger is inside, no other is. -/
theorem Orderly.outside (hs : s.Orderly holder) {i j : Nat} {t u : Trigger}
    (ht : s.triggers[i]? = some t) (hinside : t.isInside = true)
    (hother : j ≠ i ∧ s.triggers[j]? = some u) : u.isInside = false := by
  rw [← Bool.not_eq_true, hs.inside j u hother.2, (hs.inside i t ht).mp hinside]
  exact fun hsame => hother.1 (Option.some.inj hsame).symm

theorem getElem?_call {triggers : List Trigger} {new t : Trigger} {i : Nat}
    (ht : (triggers ++ [new])[i]? = some t) :
    triggers[i]? = some t ∨ (i = triggers.length ∧ t = new) := by
  by_cases hlt : i < triggers.length
  · rw [List.getElem?_append_left hlt] at ht
    exact Or.inl ht
  · rw [List.getElem?_append_right (not_lt.mp hlt)] at ht
    obtain ⟨hplace, hsame⟩ := List.getElem?_eq_some_iff.mp ht
    rw [List.length_singleton] at hplace
    rw [List.getElem_singleton] at hsame
    exact Or.inr ⟨by omega, hsame.symm⟩

theorem getElem?_withTrigger {i j : Nat} {t u t' : Trigger} {k : Keeper}
    (hu : (s.withTrigger i t k t').triggers[j]? = some u) :
    (j = i ∧ u = t') ∨ (j ≠ i ∧ s.triggers[j]? = some u) := by
  by_cases hij : j = i
  · subst hij
    have hset : (s.triggers.set j t')[j]? = some u := hu
    obtain ⟨hlt, hsame⟩ := List.getElem?_eq_some_iff.mp hset
    rw [List.getElem_set_self] at hsame
    exact Or.inl ⟨rfl, hsame.symm⟩
  · have hset : (s.triggers.set i t')[j]? = some u := hu
    rw [List.getElem?_set_ne (Ne.symm hij)] at hset
    exact Or.inr ⟨hij, hset⟩

theorem Orderly.call (hs : s.Orderly holder) (request : Request) (reason : String)
    (raising : Bool) :
    Orderly { s with triggers := s.triggers ++ [.begin request reason raising] } holder := by
  have hnew : (Trigger.begin request reason raising).isInside = false ∧
      (Trigger.begin request reason raising).LooksEnough := by
    cases request <;> simp [Trigger.begin, Trigger.isInside, Trigger.LooksEnough]
  constructor
  · exact hs.lock
  · intro i t ht
    cases getElem?_call ht with
    | inl hold => exact hs.inside i t hold
    | inr hlast =>
        have hother : holder ≠ some i := fun hi => (hs.range i hi).ne hlast.1
        rw [hlast.2]
        exact iff_of_false (by simp [hnew.1]) hother
  · intro i hi
    have hlt := hs.range i hi
    simp only [List.length_append]
    omega
  · intro t ht
    cases List.mem_append.mp ht with
    | inl hold => exact hs.looks t hold
    | inr hlast =>
        rw [List.mem_singleton.mp hlast]
        exact hnew.2

/-- A step of a trigger after which the lock is as its place says. -/
theorem Orderly.withTrigger (hs : s.Orderly holder) {i : Nat} {t t' : Trigger} {k : Keeper}
    (ht : s.triggers[i]? = some t) (hlooks : t'.LooksEnough) {holder' : Option Nat}
    (hlock : k.rebuilding = holder'.isSome) (hinside : t'.isInside = true ↔ holder' = some i)
    (hothers : ∀ j ≠ i, holder' = some j ↔ holder = some j) :
    (s.withTrigger i t k t').Orderly holder' := by
  have hlength : (s.withTrigger i t k t').triggers.length = s.triggers.length :=
    List.length_set ..
  constructor
  · exact hlock
  · intro j u hu
    cases getElem?_withTrigger hu with
    | inl hsame =>
        rw [hsame.1, hsame.2]
        exact hinside
    | inr hother => rw [hs.inside j u hother.2, hothers j hother.1]
  · intro j hj
    rw [hlength]
    by_cases hij : j = i
    · rw [hij]
      exact (List.getElem?_eq_some_iff.mp ht).1
    · exact hs.range j ((hothers j hij).mp hj)
  · intro u hu
    cases List.mem_or_eq_of_mem_set hu with
    | inl hold => exact hs.looks u hold
    | inr hsame =>
        rw [hsame]
        exact hlooks

theorem Orderly.move (hs : s.Orderly holder) {i : Nat} {t t' : Trigger} {k : Keeper}
    (ht : s.triggers[i]? = some t) (hmove : t.Move s.disk s.keeper k t') :
    ∃ holder', (s.withTrigger i t k t').Orderly holder' := by
  have hlooks := hmove.looksEnough (hs.looks t (List.mem_of_getElem? ht))
  have hinside := hs.inside i t ht
  obtain ⟨hsame, hlock⟩ | ⟨hfree, hin, hlock⟩ | ⟨hin, hout, hlock⟩ := hmove.turn
  · refine ⟨holder, hs.withTrigger ht hlooks ?_ ?_ fun _ _ => Iff.rfl⟩
    · rw [hlock, hs.lock]
    · rw [hsame, hinside]
  · -- the lock was free, so nobody held it
    have hnone : holder = none := by
      rw [hs.lock] at hfree
      simpa using hfree
    refine ⟨some i, hs.withTrigger ht hlooks hlock (by simp [hin]) fun j hij => ?_⟩
    simp [hnone, Ne.symm hij]
  · have hholder := hinside.mp hin
    refine ⟨none, hs.withTrigger ht hlooks hlock (by simp [hout]) fun j hij => ?_⟩
    simp [hholder, Ne.symm hij]

theorem act_orderly {action : Action} (hs : s.Orderly holder) (hact : s.act action = some next) :
    ∃ holder', next.Orderly holder' := by
  cases effect_of_act hact with
  | advance ht hmove => exact hs.move ht hmove
  | call request reason raising => exact ⟨holder, hs.call request reason raising⟩
  | @retire i previous hcloser => cases previous <;> exact ⟨holder, hs.congr rfl rfl⟩
  | change | tick | close | empty | enter | leave => exact ⟨holder, hs.congr rfl rfl⟩

/-! ## Every trigger finishes -/

def stepsLeft (s : Traffic) : Nat :=
  (s.triggers.map (·.stepsLeft)).sum

/-- Each step of a trigger leaves fewer steps to take. -/
theorem Orderly.stepsLeft_lt (hs : s.Orderly holder) {i : Nat}
    (hact : s.act (.advance i) = some next) : next.stepsLeft < s.stepsLeft := by
  obtain ⟨t, k, t', ht, hmove, rfl⟩ := act_advance hact
  have hlt := hmove.stepsLeft_lt (hs.looks t (List.mem_of_getElem? ht))
  obtain ⟨before, after, htriggers, hset⟩ := exists_set_eq ht
  have hnext : (s.withTrigger i t k t').triggers = before ++ t' :: after := hset t'
  simp only [stepsLeft, htriggers, hnext, List.map_append, List.map_cons, List.sum_append,
    List.sum_cons]
  omega

theorem isSome_advance {i : Nat} {t : Trigger} (ht : s.triggers[i]? = some t)
    (hunfinished : t.result? = none) (hfree : t.isInside = true ∨ s.keeper.rebuilding = false) :
    (s.act (.advance i)).isSome := by
  rw [act]
  simp only [ht, Option.isSome_map]
  exact Trigger.exists_step hunfinished hfree

/-- As long as a trigger has not finished, one of them can take a step. -/
theorem Orderly.exists_advance (hs : s.Orderly holder)
    (hunfinished : ∃ t ∈ s.triggers, t.result? = none) : ∃ i, (s.act (.advance i)).isSome := by
  cases holder with
  | none =>
      obtain ⟨t, hmem, hresult⟩ := hunfinished
      obtain ⟨i, ht⟩ := List.getElem?_of_mem hmem
      exact ⟨i, isSome_advance ht hresult (Or.inr hs.lock)⟩
  | some i =>
      obtain ⟨t, ht⟩ : ∃ t, s.triggers[i]? = some t :=
        ⟨_, List.getElem?_eq_getElem (hs.range i rfl)⟩
      have hin : t.isInside = true := (hs.inside i t ht).mpr rfl
      have hresult : t.result? = none := by
        unfold Trigger.isInside at hin
        unfold Trigger.result?
        split at hin <;> simp_all
      exact ⟨i, isSome_advance ht hresult (Or.inl hin)⟩

/-- Whatever happens around a keeper, at most one trigger is inside, and the lock says whether
one is. -/
theorem Orderly.run {last : Traffic} {actions : List Action} (hs : s.Orderly holder)
    (hrun : s.run actions = some last) : ∃ holder', last.Orderly holder' := by
  induction actions generalizing s holder with
  | nil =>
      obtain rfl := Option.some.inj hrun
      exact ⟨holder, hs⟩
  | cons action actions ih =>
      obtain ⟨next, hact, hrest⟩ := Option.bind_eq_some_iff.mp hrun
      obtain ⟨holder', hnext⟩ := act_orderly hs hact
      exact ih hnext hrest

/-- Triggers that are left alone take only so many steps. -/
theorem Orderly.length_le_stepsLeft {last : Traffic} {actions : List Action} (hs : s.Orderly holder)
    (hadvances : ∀ action ∈ actions, ∃ i, action = .advance i) (hrun : s.run actions = some last) :
    actions.length ≤ s.stepsLeft := by
  induction actions generalizing s holder with
  | nil => exact Nat.zero_le s.stepsLeft
  | cons action actions ih =>
      obtain ⟨next, hact, hrest⟩ := Option.bind_eq_some_iff.mp hrun
      obtain ⟨holder', hnext⟩ := act_orderly hs hact
      obtain ⟨i, rfl⟩ := hadvances action List.mem_cons_self
      have hlater := ih hnext (fun other hother => hadvances other (List.mem_cons_of_mem _ hother))
        hrest
      exact Nat.succ_le_of_lt (hlater.trans_lt (hs.stepsLeft_lt hact))

/-- When no trigger can take a step any more, all of them have returned. -/
theorem Orderly.returned (hs : s.Orderly holder) (hstuck : ∀ i, s.act (.advance i) = none)
    {t : Trigger} (ht : t ∈ s.triggers) : ∃ result, t.result? = some result := by
  by_contra hnone
  have hunfinished : t.result? = none := Option.eq_none_iff_forall_ne_some.mpr (not_exists.mp hnone)
  obtain ⟨i, hi⟩ := hs.exists_advance ⟨t, ht, hunfinished⟩
  simp [hstuck i] at hi

end Traffic

end DiskCatalog.Refresh

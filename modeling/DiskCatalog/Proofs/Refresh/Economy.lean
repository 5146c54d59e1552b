import DiskCatalog.Proofs.Refresh.Pace

/-!
# No rebuild is redundant

Triggers that look for changes overlap in any way, and the catalog changes at any moment.  Not more
generations are published than there were changes, the triggers that published say so and no others
do, and after the last change the recorded signature is the present one as soon as a trigger that
came later has returned.  One change is answered by one rebuild, however many triggers follow it.
-/

namespace DiskCatalog.Refresh

open Store Index

namespace Trigger

/-- Whether nothing is left to do but to retire a generation and to leave. -/
def isDone (t : Trigger) : Bool :=
  match t.stage with
  | .retiring .. | .leaving _ | .finished _ => true
  | .checking | .waiting | .rechecking | .building _ | .publishing _ => false

/-- A trigger is done when it has published or has found nothing to do. -/
theorem Move.done {disk : Disk} {k k' : Keeper} {t t' : Trigger} (hmove : t.Move disk k k' t')
    (hsucceeds : t.buildSucceeds k) (hdone : t'.isDone = true) :
    t.isDone = true ∨ (∃ g, t.stage = .publishing g) ∨
      ((k.isFresh disk).1 = true ∧ ∀ g, t.stage ≠ .publishing g) := by
  cases hmove with
  | check hstage =>
      by_cases hfresh : (k.isFresh disk).1
      · exact Or.inr (Or.inr ⟨hfresh, by simp [hstage]⟩)
      · simp [isDone, hfresh] at hdone
  | lock hstage hfree =>
      by_cases hrequest : t.request = .ifChanged <;> simp [isDone, hrequest] at hdone
  | recheck hstage =>
      by_cases hfresh : (k.isFresh disk).1
      · exact Or.inr (Or.inr ⟨hfresh, by simp [hstage]⟩)
      · simp [isDone, hfresh] at hdone
  | look | build => simp [isDone] at hdone
  | fail seen s failure hstage hseen hresult =>
      simp [buildSucceeds, hstage, hseen, hresult, Except.isOk, Except.toBool] at hsucceeds
  | publish g hstage => exact Or.inr (Or.inl ⟨g, hstage⟩)
  | retire previous result hstage => simp [isDone, hstage]
  | unlock result hstage => simp [isDone, hstage]

end Trigger

namespace Traffic

/-! ## Runs -/

/-- Each step of a run is allowed where it is taken. -/
def Along (allowed : Traffic → Action → Prop) : Traffic → List Action → Prop
  | _, [] => True
  | s, action :: actions =>
    allowed s action ∧ ∀ next ∈ s.act action, Along allowed next actions

instance decidableAlong (allowed : Traffic → Action → Prop)
    [∀ s action, Decidable (allowed s action)] :
    (s : Traffic) → (actions : List Action) → Decidable (s.Along allowed actions)
  | _, [] => .isTrue trivial
  | s, action :: actions =>
    have := fun next : Traffic => decidableAlong allowed next actions
    inferInstanceAs (Decidable (allowed s action ∧ ∀ next ∈ s.act action, _))

/-- The triggers that publish in a run, in order. -/
def publishers : Traffic → List Action → List Nat
  | _, [] => []
  | s, action :: actions =>
    (s.act action).elim [] fun next => s.publishedBy next action ++ next.publishers actions

/-- The triggers after the first one that publish in a run. -/
def rebuilders (s : Traffic) (actions : List Action) : List Nat :=
  (s.publishers actions).filter (· ≠ 0)

variable {s next : Traffic} {path : String} {options : Options} {origin : Signature}
  {changes missed : Nat} {published : List Nat} {holder : Option Nat} {actions : List Action}

theorem along_append {allowed : Traffic → Action → Prop} {middle : Traffic}
    {before after : List Action} (halong : s.Along allowed (before ++ after))
    (hrun : s.run before = some middle) : s.Along allowed before ∧ middle.Along allowed after := by
  induction before generalizing s with
  | nil =>
      obtain rfl := Option.some.inj hrun
      exact ⟨trivial, halong⟩
  | cons action before ih =>
      obtain ⟨next, hact, hrest⟩ := Option.bind_eq_some_iff.mp hrun
      have hlater := ih (halong.2 next hact) hrest
      refine ⟨⟨halong.1, fun other hother => ?_⟩, hlater.2⟩
      rw [hact] at hother
      exact Option.some.inj hother ▸ hlater.1

theorem Paced.run {last : Traffic} (hs : s.Paced path options origin changes missed published)
    (horderly : s.Orderly holder) (hsmooth : s.Along Smoothly actions)
    (hrun : s.run actions = some last) :
    last.Paced path options origin (changes + actions.countP Action.isChange) missed
      (published ++ s.publishers actions) := by
  induction actions generalizing s changes published holder with
  | nil =>
      obtain rfl := Option.some.inj hrun
      rw [publishers, List.append_nil]
      exact hs
  | cons action actions ih =>
      obtain ⟨next, hact, hrest⟩ := Option.bind_eq_some_iff.mp hrun
      obtain ⟨holder', hnext⟩ := act_orderly horderly hact
      have hstep := smoothStep_of_act hsmooth.1 hact
      have hpaced := ih (hs.act horderly hstep) hnext (hsmooth.2 next hact) hrest
      rw [publishers, hact, Option.elim_some, ← List.append_assoc, List.countP_cons,
        Nat.add_comm (actions.countP _), ← Nat.add_assoc]
      exact hpaced

/-! ## After the last change -/

/-- What a trigger carries along is the present signature, and when it is done that is recorded. -/
structure Settles (s : Traffic) (t : Trigger) : Prop where
  carries : t.Carries s.keeper fun signature => some signature = s.signatures.getLast?
  done : t.isDone = true → s.slot.signature = s.signatures.getLast?

/-- The triggers from a place on settle. -/
def SettlesFrom (s : Traffic) (place : Nat) : Prop :=
  ∀ (i : Nat) (t : Trigger), place ≤ i → s.triggers[i]? = some t → s.Settles t

theorem Settles.kept {t : Trigger} (ht : s.Settles t) (hpath : next.keeper.path = s.keeper.path)
    (hslot : s.slot.Kept next.slot) (hsignatures : next.signatures = s.signatures) :
    next.Settles t := by
  constructor
  · apply ht.carries.mono hpath hslot.generations
    intro signature hlast
    rw [hsignatures]
    exact hlast
  · intro hdone
    rw [hslot.signature, hsignatures]
    exact ht.done hdone

/-- Nobody publishes when the present signature is recorded. -/
theorem Paced.stale (hs : s.Paced path options origin changes missed published) {i : Nat}
    {signature : Signature} (hadvances : s.Advances origin i signature) :
    s.slot.signature ≠ s.signatures.getLast? := by
  intro hrecorded
  obtain ⟨last, -, hlast⟩ := hs.present
  have hlater := hadvances.later
  rw [hrecorded, hlast, rank_last hs.distinct hlast] at hlater
  refine hlater.not_ge (rank_le fun known hknown => ?_)
  obtain rfl := Option.some.inj hknown
  exact hadvances.known

theorem Settles.move {i : Nat} {t t' : Trigger} {k : Keeper} (hsettles : s.Settles t)
    (hs : s.Paced path options origin changes missed published)
    (hmove : t.Move s.disk s.keeper k t') (hsucceeds : t.buildSucceeds s.keeper) :
    (s.withTrigger i t k t').Settles t' := by
  constructor
  · apply hsettles.carries.move hmove
    · rw [hs.keeper.1, hs.keeper.2]
    · intro _
      obtain ⟨last, hread, hlast⟩ := hs.present
      rw [← hs.keeper.1] at hread
      exact ⟨last, hread, hlast.symm⟩
  · intro hdone
    change k.slot.signature = s.signatures.getLast?
    obtain halready | ⟨g, hstage⟩ | ⟨hfresh, hother⟩ := hmove.done hsucceeds hdone
    · have hother : ∀ g, t.stage ≠ .publishing g := by
        intro g hstage
        simp [Trigger.isDone, hstage] at halready
      rw [(hmove.kept hother).signature]
      exact hsettles.done halready
    · have hcarries := hsettles.carries
      simp only [Trigger.Carries, hstage] at hcarries
      obtain ⟨generation, hbuilt, hlast⟩ := hcarries
      obtain ⟨rfl, -⟩ := hmove.publish_eq hstage hs.unclosed hbuilt
      exact hlast
    · rw [(hmove.kept hother).signature]
      exact hs.isFresh_iff.mp hfresh

theorem SettlesFrom.quiet {place : Nat} (hsettles : s.SettlesFrom place) (hquiet : s.Quiet next) :
    next.SettlesFrom place := by
  intro i t hplace ht
  rw [hquiet.triggers] at ht
  exact (hsettles i t hplace ht).kept hquiet.keeper.1 hquiet.slot hquiet.signatures

theorem SettlesFrom.act {place : Nat} (hsettles : s.SettlesFrom place)
    (hs : s.Paced path options origin changes missed published) (horderly : s.Orderly holder)
    {action : Action} (hunchanged : action.isChange = false) (hstep : s.SmoothStep action next) :
    next.SettlesFrom place := by
  cases hstep with
  | change target last hread hnew => simp [Action.isChange] at hunchanged
  | call reason raising =>
      intro i t hplace ht
      cases getElem?_call ht with
      | inl hold => exact (hsettles i t hplace hold).kept rfl (.refl s.slot) rfl
      | inr hlast =>
          rw [hlast.2]
          exact ⟨Trigger.carries_of_outside rfl, fun hdone => Bool.noConfusion hdone⟩
  | publish i g t t' k ht hstage hmove =>
      intro j u hplace hu
      cases getElem?_withTrigger hu with
      | inl hsame =>
          rw [hsame.1] at hplace
          rw [hsame.2]
          apply (hsettles i t hplace ht).move hs hmove
          simp [Trigger.buildSucceeds, hstage]
      | inr hold =>
          have hcarries := (hs.aims i t ht).carries
          simp only [Trigger.Carries, hstage] at hcarries
          obtain ⟨generation, -, hadvances⟩ := hcarries
          constructor
          · apply Trigger.carries_of_outside
            exact horderly.outside ht (by simp [Trigger.isInside, hstage]) hold
          · -- a trigger that is done has left the present signature recorded
            intro hdone
            exact absurd ((hsettles j u hplace hold.2).done hdone) (hs.stale hadvances)
  | move i t t' k ht hmove hother hsucceeds =>
      intro j u hplace hu
      cases getElem?_withTrigger hu with
      | inl hsame =>
          rw [hsame.1] at hplace
          rw [hsame.2]
          exact (hsettles i t hplace ht).move hs hmove hsucceeds
      | inr hold =>
          exact (hsettles j u hplace hold.2).kept hmove.keeper_eq.1 (hmove.kept hother) rfl
  | tick now next hquiet | enter next hquiet | leave g next hquiet => exact hsettles.quiet hquiet

theorem SettlesFrom.run {place : Nat} {last : Traffic} (hsettles : s.SettlesFrom place)
    (hs : s.Paced path options origin changes missed published) (horderly : s.Orderly holder)
    (hsmooth : s.Along Smoothly actions) (hunchanged : actions.countP Action.isChange = 0)
    (hrun : s.run actions = some last) : last.SettlesFrom place := by
  induction actions generalizing s changes published holder with
  | nil =>
      obtain rfl := Option.some.inj hrun
      exact hsettles
  | cons action actions ih =>
      obtain ⟨next, hact, hrest⟩ := Option.bind_eq_some_iff.mp hrun
      obtain ⟨holder', hnext⟩ := act_orderly horderly hact
      have hnone := List.countP_eq_zero.mp hunchanged
      have hfirst : action.isChange = false := by
        simpa using hnone action List.mem_cons_self
      have hothers : actions.countP Action.isChange = 0 :=
        List.countP_eq_zero.mpr fun other hother => hnone other (List.mem_cons_of_mem action hother)
      have hstep := smoothStep_of_act hsmooth.1 hact
      exact ih (hsettles.act hs horderly hfirst hstep) (hs.act horderly hstep) hnext
        (hsmooth.2 next hact) hothers hrest

/-! ## Nothing published -/

/-- A step that publishes nothing leaves the recorded signature alone. -/
theorem Paced.unpublished (hs : s.Paced path options origin changes missed published)
    (horderly : s.Orderly holder) {action : Action} (hstep : s.SmoothStep action next)
    (hnone : s.publishedBy next action = []) :
    next.slot.signature = s.slot.signature ∧ s.signatures <+: next.signatures := by
  cases hstep with
  | change target last hread hnew => exact ⟨rfl, List.prefix_append ..⟩
  | call reason raising => exact ⟨rfl, List.prefix_rfl⟩
  | publish i g t t' k ht hstage hmove =>
      rw [publishedBy, if_pos (hs.publish horderly ht hstage hmove).2] at hnone
      contradiction
  | move i t t' k ht hmove hother hsucceeds =>
      exact ⟨(hmove.kept hother).signature, List.prefix_rfl⟩
  | tick now next hquiet | enter next hquiet | leave g next hquiet =>
      exact ⟨hquiet.slot.signature, hquiet.signatures ▸ List.prefix_rfl⟩

theorem Paced.run_unpublished {last : Traffic}
    (hs : s.Paced path options origin changes missed published) (horderly : s.Orderly holder)
    (hsmooth : s.Along Smoothly actions) (hrun : s.run actions = some last)
    (hnone : s.publishers actions = []) :
    last.slot.signature = s.slot.signature ∧ s.signatures <+: last.signatures := by
  induction actions generalizing s changes published holder with
  | nil =>
      obtain rfl := Option.some.inj hrun
      exact ⟨rfl, List.prefix_rfl⟩
  | cons action actions ih =>
      obtain ⟨next, hact, hrest⟩ := Option.bind_eq_some_iff.mp hrun
      obtain ⟨holder', hnext⟩ := act_orderly horderly hact
      rw [publishers, hact, Option.elim_some] at hnone
      obtain ⟨hfirst, hothers⟩ := List.append_eq_nil_iff.mp hnone
      have hstep := smoothStep_of_act hsmooth.1 hact
      have hkept := hs.unpublished horderly hstep hfirst
      have hlater := ih (hs.act horderly hstep) hnext (hsmooth.2 next hact) hrest hothers
      exact ⟨hlater.1.trans hkept.1, hkept.2.trans hlater.2⟩

/-- A run with a change does not end with the signature with which it began. -/
theorem Paced.getLast?_ne {last : Traffic} {later : Nat} {more : List Nat}
    (hs : s.Paced path options origin changes missed published)
    (hlast : last.Paced path options origin later missed more) (hlater : later ≠ changes)
    (hsignatures : s.signatures <+: last.signatures) :
    last.signatures.getLast? ≠ s.signatures.getLast? := by
  intro hsame
  obtain ⟨signature, -, hpresent⟩ := hs.present
  have hknown : ∀ known ∈ some signature, known ∈ s.signatures := by
    intro known hknown
    obtain rfl := Option.some.inj hknown
    exact List.mem_of_getLast? hpresent
  obtain ⟨added, hadded⟩ := hsignatures
  -- its place is the last one at both ends of the run
  have hplace := rank_extend hadded.symm hknown
  rw [rank_last hs.distinct hpresent, rank_last hlast.distinct (hsame.trans hpresent)] at hplace
  obtain ⟨before, hbefore, hlength⟩ := hs.changes
  obtain ⟨after, hafter, hlength'⟩ := hlast.changes
  rw [hbefore, hafter, List.length_cons, List.length_cons] at hplace
  omega

/-! ## Rebuilds and changes -/

theorem Paced.count_le (hs : s.Paced path options origin changes missed published) :
    published.length + missed ≤ changes + 1 := by
  obtain ⟨later, hlater, hlength⟩ := hs.changes
  have hcount := hs.count.trans (rank_le hs.recorded)
  rw [hlater, List.length_cons, hlength] at hcount
  exact hcount

theorem Paced.bounded (hs : s.Paced path options origin changes missed published) :
    (published.filter (· ≠ 0)).length ≤ changes := by
  have hcount := hs.count_le
  by_cases hzero : 0 ∈ published
  · have hfewer : (published.filter (· ≠ 0)).length < published.length :=
      List.length_filter_lt_length_iff_exists.mpr ⟨0, hzero, by simp⟩
    omega
  · rw [hs.first hzero]
    exact Nat.zero_le changes

/-- With the present signature recorded after one change, a trigger has rebuilt. -/
theorem Paced.rebuilt (hs : s.Paced path options origin 1 missed published)
    (hrecorded : s.slot.signature = s.signatures.getLast?) :
    (published.filter (· ≠ 0)).length = 1 := by
  apply le_antisymm hs.bounded
  by_contra hnone
  have hempty : published.filter (· ≠ 0) = [] := by
    apply List.eq_nil_of_length_eq_zero
    omega
  obtain ⟨later, hlater, hlength⟩ := hs.changes
  obtain ⟨last, rfl⟩ := List.length_eq_one_iff.mp hlength
  have hdistinct := hs.distinct
  rw [hlater] at hrecorded hdistinct
  -- only the first trigger can have recorded it, which has seen the first
  have hall : ∀ i ∈ published, i = 0 := by simpa using hempty
  have hsame : last = origin := hs.original hall last hrecorded
  simp [hsame] at hdistinct

/-- When the present signature is recorded, no more is published from then on than there are
changes. -/
theorem Paced.bounded_since {last : Traffic}
    (hs : s.Paced path options origin changes missed published) (horderly : s.Orderly holder)
    (hrecorded : s.slot.signature = s.signatures.getLast?) (hsmooth : s.Along Smoothly actions)
    (hrun : s.run actions = some last) :
    (s.publishers actions).length ≤ actions.countP Action.isChange := by
  have hcount := hs.count_le
  have hrank : s.rank s.slot.signature = changes + 1 := by
    obtain ⟨signature, -, hpresent⟩ := hs.present
    obtain ⟨later, hlater, hlength⟩ := hs.changes
    rw [hrecorded, hpresent, rank_last hs.distinct hpresent, hlater, List.length_cons, hlength]
  -- what was not published until now has been missed
  have hall : s.Paced path options origin changes (changes + 1 - published.length) published :=
    { hs with count := by omega }
  have hlast := (hall.run horderly hsmooth hrun).count_le
  rw [List.length_append] at hlast
  omega

theorem Paced.rebuilt_since {last : Traffic}
    (hs : s.Paced path options origin changes missed published) (horderly : s.Orderly holder)
    (hrecorded : s.slot.signature = s.signatures.getLast?) (hsmooth : s.Along Smoothly actions)
    (hrun : s.run actions = some last) (hone : actions.countP Action.isChange = 1)
    (hlast : last.slot.signature = last.signatures.getLast?) :
    (s.publishers actions).length = 1 := by
  have hbounded := hs.bounded_since horderly hrecorded hsmooth hrun
  rw [hone] at hbounded
  apply le_antisymm hbounded
  by_contra hnone
  have hempty : s.publishers actions = [] := by
    apply List.eq_nil_of_length_eq_zero
    omega
  obtain ⟨hsame, hsignatures⟩ := hs.run_unpublished horderly hsmooth hrun hempty
  have hpaced := hs.run horderly hsmooth hrun
  rw [hone] at hpaced
  apply hs.getLast?_ne hpaced (Nat.succ_ne_self changes) hsignatures
  rw [← hlast, hsame, hrecorded]

/-! ## The whole of it -/

/-- A trigger that began after the last change of a run has returned. -/
def ReturnsLast (first : Traffic) (actions : List Action) (s : Traffic) (i : Nat) : Prop :=
  ∃ before after middle, actions = before ++ after ∧ after.countP Action.isChange = 0 ∧
    first.run before = some middle ∧ middle.triggers.length ≤ i ∧
    ∃ t result, s.triggers[i]? = some t ∧ t.result? = some result

/-- The triggers that look for changes rebuild no more than they have to. -/
structure Economical (first : Traffic) (actions : List Action) (s : Traffic) : Prop where
  number : s.slot.number = (first.publishers actions).length
  once : (first.publishers actions).Nodup
  bounded : (first.rebuilders actions).length ≤ actions.countP Action.isChange
  honest : ∀ (i : Nat) (t : Trigger) (result : Except Failure Rebuilt),
    s.triggers[i]? = some t → t.result? = some result →
      ∃ g, result = .ok ⟨decide (i ∈ first.publishers actions), g⟩
  settled : ∀ i, ReturnsLast first actions s i → ∃ signature,
    readSignature s.keeper.path s.target = .ok signature ∧ s.slot.signature = some signature
  exactly : ∀ i, ReturnsLast first actions s i → actions.countP Action.isChange = 1 →
    (first.rebuilders actions).length = 1
  /-- The same from any moment on at which the present signature is recorded. -/
  since : ∀ before after middle, actions = before ++ after → first.run before = some middle →
    middle.slot.signature = middle.signatures.getLast? →
    (middle.publishers after).length ≤ after.countP Action.isChange ∧
      ∀ i, ReturnsLast middle after s i → after.countP Action.isChange = 1 →
        (middle.publishers after).length = 1
  /-- Triggers that are left alone come to their end. -/
  returns : ∀ more last, (∀ action ∈ more, ∃ i, action = .advance i) → s.run more = some last →
    more.length ≤ s.stepsLeft ∧
      ((∀ i, last.act (.advance i) = none) → ∀ t ∈ last.triggers, ∃ result, t.result? = some result)

theorem Paced.honest (hs : s.Paced path options origin changes missed published) {i : Nat}
    {t : Trigger} {result : Except Failure Rebuilt} (ht : s.triggers[i]? = some t)
    (hresult : t.result? = some result) :
    ∃ g, result = .ok ⟨decide (i ∈ published), g⟩ := by
  have htells := hs.tells i t ht
  unfold Trigger.result? at hresult
  split at hresult
  · rename_i hstage
    obtain rfl := Option.some.inj hresult
    simp only [Trigger.Tells, hstage] at htells
    exact htells.2
  · contradiction

theorem ReturnsLast.recorded {first : Traffic} {i : Nat} (hreturns : ReturnsLast first actions s i)
    (hfirst : first.Paced path options origin changes missed published)
    (horderly : first.Orderly holder) (hsmooth : first.Along Smoothly actions)
    (hrun : first.run actions = some s) : s.slot.signature = s.signatures.getLast? := by
  obtain ⟨before, after, middle, rfl, hunchanged, hbefore, hplace, t, result, ht, hresult⟩ :=
    hreturns
  rw [run_append, hbefore] at hrun
  obtain ⟨halong, hafter⟩ := along_append hsmooth hbefore
  have hmiddle := hfirst.run horderly halong hbefore
  obtain ⟨holder', hinside⟩ := horderly.run hbefore
  have hstart : middle.SettlesFrom middle.triggers.length := by
    intro j u hj hu
    exact absurd (List.getElem?_eq_some_iff.mp hu).1 hj.not_gt
  have hsettles := hstart.run hmiddle hinside hafter hunchanged hrun
  apply (hsettles i t hplace ht).done
  unfold Trigger.result? at hresult
  unfold Trigger.isDone
  split at hresult
  · rename_i hstage
    rw [hstage]
  · contradiction

/-- However triggers overlap that look for changes while and after the first generation is built,
and whenever the catalog changes to one with a new signature: if it can be read and builds succeed,
no rebuild is redundant. -/
theorem run_economical {disk : Disk} (hreadable : (readSignature path (disk path)).isOk)
    (hsmooth : (initializing path options disk).Along Smoothly actions)
    (hrun : (initializing path options disk).run actions = some s) :
    (initializing path options disk).Economical actions s := by
  obtain ⟨origin, horigin⟩ : ∃ origin, readSignature path (disk path) = .ok origin := by
    cases hread : readSignature path (disk path) with
    | error failure => simp [hread, Except.isOk, Except.toBool] at hreadable
    | ok origin => exact ⟨origin, rfl⟩
  have hfirst := initializing_paced path options disk horigin
  have horderly := initializing_orderly path options disk
  obtain ⟨holder, hinside⟩ := horderly.run hrun
  have hs := hfirst.run horderly hsmooth hrun
  rw [Nat.zero_add, List.nil_append] at hs
  constructor
  case number => exact hs.number
  case once => exact hs.once
  case bounded => exact hs.bounded
  case honest => exact fun i t result ht hresult => hs.honest ht hresult
  case settled =>
    intro i hreturns
    obtain ⟨last, hread, hlast⟩ := hs.present
    rw [← hs.keeper.1] at hread
    exact ⟨last, hread, (hreturns.recorded hfirst horderly hsmooth hrun).trans hlast⟩
  case exactly =>
    intro i hreturns hone
    rw [hone] at hs
    exact hs.rebuilt (hreturns.recorded hfirst horderly hsmooth hrun)
  case since =>
    intro before after middle hactions hbefore hrecorded
    rw [hactions] at hsmooth hrun
    obtain ⟨halong, hafter⟩ := along_append hsmooth hbefore
    rw [run_append, hbefore] at hrun
    have hmiddle := hfirst.run horderly halong hbefore
    obtain ⟨holder', hturn⟩ := horderly.run hbefore
    refine ⟨hmiddle.bounded_since hturn hrecorded hafter hrun, fun i hreturns hone => ?_⟩
    have hlast := hreturns.recorded hmiddle hturn hafter hrun
    exact hmiddle.rebuilt_since hturn hrecorded hafter hrun hone hlast
  case returns =>
    intro more last hadvances hmore
    refine ⟨hinside.length_le_stepsLeft hadvances hmore, fun hstuck t ht => ?_⟩
    obtain ⟨holder', hlast⟩ := hinside.run hmore
    exact hlast.returned hstuck ht

/-- The first build goes on to its end, and then the catalog changes. -/
def untilChanged : List Action :=
  List.replicate 9 (.advance 0) ++ [.change (oneFile 2 (.int 2))]

/-- Three triggers find the change before one of them gets the lock. -/
def overlapping : List Action :=
  [.call .ifChanged "query" false, .call .ifChanged "watch" false,
    .call .ifChanged "schedule" false, .advance 1, .advance 2, .advance 3] ++
  List.replicate 12 (.advance 2) ++ List.replicate 3 (.advance 1) ++ List.replicate 3 (.advance 3)

theorem run_economical_overlapping :
    ∃ s, (initializing "c" ⟨[], 0, 100⟩ fun _ => oneFile 1 (.int 1)).run
        (untilChanged ++ overlapping) = some s ∧
      (initializing "c" ⟨[], 0, 100⟩ fun _ => oneFile 1 (.int 1)).Economical
        (untilChanged ++ overlapping) s ∧
      ReturnsLast (initializing "c" ⟨[], 0, 100⟩ fun _ => oneFile 1 (.int 1))
        (untilChanged ++ overlapping) s 1 := by
  have hend : ((initializing "c" ⟨[], 0, 100⟩ fun _ => oneFile 1 (.int 1)).run untilChanged).any
      (fun middle => middle.triggers.length ≤ 1 && (middle.run overlapping).any fun s =>
        (s.triggers[1]?.bind (·.result?)).isSome) := by
    decide +kernel
  obtain ⟨middle, hmiddle, hrest⟩ := (Option.any_eq_true _ _).mp hend
  rw [Bool.and_eq_true, decide_eq_true_eq] at hrest
  obtain ⟨s, hlast, hresult⟩ := (Option.any_eq_true _ _).mp hrest.2
  obtain ⟨result, hresult⟩ := Option.isSome_iff_exists.mp hresult
  obtain ⟨t, ht, hreturned⟩ := Option.bind_eq_some_iff.mp hresult
  have hrun : (initializing "c" ⟨[], 0, 100⟩ fun _ => oneFile 1 (.int 1)).run
      (untilChanged ++ overlapping) = some s := by
    rw [run_append, hmiddle, Option.bind_some, hlast]
  refine ⟨s, hrun, run_economical (by decide +kernel) (by decide +kernel) hrun, ?_⟩
  exact ⟨untilChanged, overlapping, middle, rfl, by decide, hmiddle, hrest.1, t, result, ht,
    hreturned⟩

end Traffic

end DiskCatalog.Refresh

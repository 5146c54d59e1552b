import DiskCatalog.Proofs.Refresh.Course
import DiskCatalog.Refresh.Registry

/-!
# Coordinators over their lifetimes

A coordinator is opened by its first build, serves, and is closed in five steps.  Whatever happens
to it besides, rebuilds included, it goes on serving while it is open and publishes nothing when it
is closed, and nothing starts an observer or a schedule again.
-/

namespace DiskCatalog.Refresh

open Store Index

/-! ## Slots -/

namespace Slot

/-- Whether the current generation, if there is one, was built. -/
def IsBacked (s : Slot) : Prop :=
  ∀ g, s.current = some g → g < s.built.size

/-- What can become of a slot that is neither closed nor emptied. -/
structure Evolves (s next : Slot) : Prop where
  closed : next.closed = s.closed
  /-- A closed slot takes no generation. -/
  refused : s.closed = true → next.current = s.current
  current : s.current.isSome = true → next.current.isSome = true
  number : s.number ≤ next.number
  size : s.built.size ≤ next.built.size
  backed : s.IsBacked → next.IsBacked

variable {s next : Slot}

theorem Evolves.refl (s : Slot) : s.Evolves s :=
  ⟨rfl, fun _ => rfl, id, le_rfl, le_rfl, id⟩

theorem Kept.evolves (hkept : s.Kept next) (hsize : s.built.size ≤ next.built.size) :
    s.Evolves next where
  closed := hkept.closed
  refused := fun _ => hkept.current
  current := fun hcurrent => hkept.current ▸ hcurrent
  number := hkept.number.ge
  size := hsize
  backed := fun hbacked g hg => (hbacked g (hkept.current ▸ hg)).trans_le hsize

theorem evolves_setLifetime (s : Slot) (i : Nat) (f : Lifetime → Lifetime) :
    s.Evolves (s.setLifetime i f) :=
  (s.kept_setLifetime i f).evolves (s.size_setLifetime i f).ge

theorem evolves_publish {g : Nat} (hg : g < s.built.size) (now : Calendar.DateTime) :
    s.Evolves (s.publish g now).1 := by
  cases hclosed : s.closed with
  | true =>
      rw [publish, if_pos hclosed]
      exact .refl s
  | false =>
      rw [publish, hclosed, if_neg Bool.false_ne_true]
      refine ⟨hclosed.symm, fun htrue => ?_, fun _ => rfl, Nat.le_succ _, le_rfl, fun _ i hi => ?_⟩
      · simp [hclosed] at htrue
      · obtain rfl := Option.some.inj hi
        exact hg

theorem hasLoaded_of_le (hloaded : s.hasLoaded = true) (hnumber : s.number ≤ next.number) :
    next.hasLoaded = true := by
  simp only [hasLoaded, decide_eq_true_eq] at hloaded ⊢
  omega

end Slot

/-! ## Triggers -/

namespace Trigger

/-- Whether the generation that a trigger is about to publish was built. -/
def Fits (t : Trigger) (s : Slot) : Prop :=
  ∀ g, t.stage = .publishing g → g < s.built.size

/-- What the first build of a coordinator has achieved at a stage. -/
def Opens (t : Trigger) (s : Slot) : Prop :=
  match t.stage with
  | .checking | .rechecking => False
  | .waiting | .building _ | .leaving (.error _) | .finished (.error _) => s.hasLoaded = false
  | .publishing g => s.hasLoaded = false ∧ g < s.built.size
  | .retiring .. | .leaving (.ok _) | .finished (.ok _) => s.current.isSome = true

variable {disk : Disk} {k k' : Keeper} {t t' : Trigger}

theorem Move.evolves (hmove : t.Move disk k k' t') (hfits : t.Fits k.slot) :
    k.slot.Evolves k'.slot := by
  cases hmove with
  | build seen s generation hstage hseen hresult =>
      exact (k.slot.kept_add generation).evolves (by simp [Slot.add])
  | publish g hstage => exact Slot.evolves_publish (hfits g hstage) k.clock
  | retire previous result hstage =>
      cases previous with
      | none => exact .refl k.slot
      | some g => exact k.slot.evolves_setLifetime g _
  | check | lock | recheck | look | fail | unlock => exact .refl k.slot

theorem Move.fits (hmove : t.Move disk k k' t') : t'.Fits k'.slot := by
  intro g hg
  cases hmove with
  | build seen s generation hstage hseen hresult =>
      obtain rfl := Stage.publishing.inj hg
      simp [Slot.add]
  | check hstage | recheck hstage => by_cases hfresh : (k.isFresh disk).1 <;> simp [hfresh] at hg
  | lock hstage hfree => by_cases hrequest : t.request = .ifChanged <;> simp [hrequest] at hg
  | look | fail | publish | retire | unlock => simp at hg

/-- The first build publishes, or it fails before that. -/
theorem Move.opens (hmove : t.Move disk k k' t') (hrequest : t.request = .first)
    (hopen : k.slot.closed = false) (hopens : t.Opens k.slot) : t'.Opens k'.slot := by
  cases hmove with
  | check hstage | recheck hstage => simp [Opens, hstage] at hopens
  | lock hstage hfree => simpa [Opens, hstage, hrequest] using hopens
  | look seen hstage hseen => simpa [Opens, hstage] using hopens
  | build seen s generation hstage hseen hresult =>
      simp only [Opens, hstage] at hopens
      exact ⟨hopens, by simp [Slot.add]⟩
  | fail seen s failure hstage hseen hresult =>
      simp only [Opens, hstage] at hopens
      simpa [Opens, survives, hrequest] using hopens
  | publish g hstage => simp [Opens, Slot.publish, hopen]
  | retire previous result hstage =>
      simp only [Opens, hstage] at hopens
      cases previous <;> exact hopens
  | unlock result hstage =>
      cases result <;> simpa [Opens, hstage] using hopens

theorem Opens.evolves {s next : Slot} (hopens : t.Opens s) (hevolves : s.Evolves next)
    (hnumber : s.hasLoaded = true ∨ next.number = s.number) : t.Opens next := by
  have hunloaded : s.hasLoaded = false → next.hasLoaded = false := by
    intro hnone
    rcases hnumber with hloaded | hsame
    · simp [hnone] at hloaded
    · simpa [Slot.hasLoaded, hsame] using hnone
  unfold Opens at hopens ⊢
  split at hopens
  · exact hopens
  · exact hopens
  · exact hunloaded hopens
  · exact hunloaded hopens
  · exact hunloaded hopens
  · exact hunloaded hopens
  · exact ⟨hunloaded hopens.1, hopens.2.trans_le hevolves.size⟩
  · exact hevolves.current hopens
  · exact hevolves.current hopens
  · exact hevolves.current hopens

end Trigger

/-! ## Expired timers -/

theorem HourlySchedule.arm_ok (s : HourlySchedule) {now : Calendar.DateTime}
    (hnow : now.secondsToNextHour.isOk = true) : (s.arm now).2 = .ok () := by
  -- opened before it is applied, so that the time to wait is not evaluated
  refine (congrArg Prod.snd (congrFun (congrFun (?opened : arm = ?body) s) now)).trans ?_
  case opened =>
    delta arm
    exact rfl
  generalize now.secondsToNextHour = delay at hnow
  cases delay with
  | error failure => contradiction
  | ok delay => rfl

theorem HourlySchedule.start_ok (s : HourlySchedule) {now : Calendar.DateTime}
    (hnow : now.secondsToNextHour.isOk = true) : (s.start now).2 = .ok () := by
  rw [start]
  exact arm_ok _ hnow

/-- What fires for a schedule that was stopped leaves it alone. -/
theorem Firing.step_of_inactive {h h' : HourlySchedule} {now : Calendar.DateTime}
    {firing later : Firing} (hstopped : h.active = false)
    (hstep : firing.step h now = some (h', later)) : h' = h := by
  cases firing with
  | starting | rearming =>
      rw [step, hstopped, if_neg Bool.false_ne_true] at hstep
      cases hstep
      rfl
  | calling | finished result => contradiction

/-! ## Coordinators -/

/-- How far the closing of a coordinator is. -/
inductive Closing where
  | marking
  | unwatching
  | unscheduling
  | emptying
  | retiring (generation : Option Nat)
  deriving DecidableEq, Repr

def Closing.stepsLeft : Closing → Nat
  | .marking => 5
  | .unwatching => 4
  | .unscheduling => 3
  | .emptying => 2
  | .retiring _ => 1

/-- What can happen to a coordinator at any time besides rebuilds. -/
inductive Chore where
  | notice (here : String) (event : Event)
  | expireChange (timer : Nat)
  | flush (flush : Flush)
  | expireHour (schedule timer : Nat)
  | fire (schedule : Nat) (now : Calendar.DateTime) (firing : Firing)
  | enter
  | leave (generation : Nat)

namespace Coordinator

/-- One step of closing, with what comes after it. -/
def stepClose (c : Coordinator) : Closing → Coordinator × Option Closing
  | .marking => (c.setSlot c.slot.shut, some .unwatching)
  | .unwatching => (c.stopWatching, some .unscheduling)
  | .unscheduling => (c.unschedule, some .emptying)
  | .emptying => (c.setSlot c.slot.clear.1, some (.retiring c.slot.clear.2))
  | .retiring generation => (c.setSlot (generation.elim c.slot c.slot.retire), none)

/-- Closing is these five steps in order. -/
theorem close_eq (c : Coordinator) :
    let marked := (c.stepClose .marking).1
    let unwatched := (marked.stepClose .unwatching).1
    let unscheduled := (unwatched.stepClose .unscheduling).1
    let emptied := (unscheduled.stepClose .emptying).1
    c.close = (emptied.stepClose (.retiring unscheduled.slot.current)).1 := by
  rfl

/-- What is done for a chore, if it can be done. -/
def chore (c : Coordinator) : Chore → Option Coordinator
  | .notice here event => some (c.notice here event)
  | .expireChange timer => some (c.expireChange timer)
  | .flush flush => (c.stepFlush flush).map (·.1)
  | .expireHour schedule timer => some (c.expireHour schedule timer)
  | .fire schedule now firing => (c.stepFiring schedule now firing).map (·.1)
  | .enter => c.slot.enter.toOption.map fun (slot, _) => c.setSlot slot
  | .leave generation => some (c.setSlot (c.slot.leave generation))

def withKeeper (c : Coordinator) (keeper : Keeper) : Coordinator :=
  { c with keeper }

/-- Whether there is a generation that can be searched. -/
def IsServing (c : Coordinator) : Prop :=
  c.slot.closed = false ∧ c.slot.current.isSome = true

/-- The observer and the schedule at hand are the only ones that can be running. -/
structure IsTended (c : Coordinator) : Prop where
  observers : ∀ (i : Nat) (o : Observer), c.observers[i]? = some o → o.started = true →
    o.stopped = true ∨ c.observer = some i
  schedules : ∀ (i : Nat) (h : HourlySchedule), c.schedules[i]? = some h → h.active = true →
    c.schedule = some i

/-- Nothing is served or published any more, and nothing is watched or scheduled. -/
structure IsShut (c : Coordinator) : Prop where
  closed : c.slot.closed = true
  current : c.slot.current = none
  observer : c.observer = none
  observers : ∀ (i : Nat) (o : Observer), c.observers[i]? = some o → o.started = true →
    o.stopped = true
  schedule : c.schedule = none
  schedules : ∀ (i : Nat) (h : HourlySchedule), c.schedules[i]? = some h → h.active = false

/-- What has been done when closing is as far as this. -/
def Reached (c : Coordinator) : Closing → Prop
  | .marking => True
  | .unwatching => c.slot.closed = true
  | .unscheduling => c.slot.closed = true ∧ c.observer = none
  | .emptying => c.slot.closed = true ∧ c.observer = none ∧ c.schedule = none
  | .retiring _ =>
    c.slot.closed = true ∧ c.observer = none ∧ c.schedule = none ∧ c.slot.current = none

/-- What can become of a coordinator while nobody opens or closes it. -/
structure Evolves (c next : Coordinator) : Prop where
  slot : c.slot.Evolves next.slot
  observers : next.observers = c.observers
  observer : next.observer = c.observer
  schedule : next.schedule = c.schedule
  schedules : ∀ (i : Nat) (h : HourlySchedule), next.schedules[i]? = some h → h.active = true →
    ∃ h' : HourlySchedule, c.schedules[i]? = some h' ∧ h'.active = true

variable {c next : Coordinator}

theorem isTended_ofPlan (plan : Plan) : (ofPlan plan).IsTended := by
  constructor <;> simp [ofPlan]

theorem IsTended.isShut (hc : c.IsTended) (hclosed : c.slot.closed = true)
    (hobserver : c.observer = none) (hschedule : c.schedule = none)
    (hcurrent : c.slot.current = none) : c.IsShut where
  closed := hclosed
  current := hcurrent
  observer := hobserver
  observers := fun i o ho hstarted =>
    (hc.observers i o ho hstarted).resolve_right (by simp [hobserver])
  schedule := hschedule
  schedules := fun i h hh => by
    by_contra hactive
    have := hc.schedules i h hh (by simpa using hactive)
    simp [hschedule] at this

/-! ### What becomes of coordinators by themselves -/

theorem Evolves.isTended (hevolves : c.Evolves next) (hc : c.IsTended) : next.IsTended where
  observers := by
    rw [hevolves.observers, hevolves.observer]
    exact hc.observers
  schedules := fun i h hh hactive => by
    obtain ⟨h', hh', hactive'⟩ := hevolves.schedules i h hh hactive
    rw [hevolves.schedule]
    exact hc.schedules i h' hh' hactive'

theorem Evolves.isServing (hevolves : c.Evolves next) (hc : c.IsServing) : next.IsServing :=
  ⟨hevolves.slot.closed.trans hc.1, hevolves.slot.current hc.2⟩

theorem Evolves.isShut (hevolves : c.Evolves next) (hc : c.IsShut) : next.IsShut where
  closed := hevolves.slot.closed.trans hc.closed
  current := (hevolves.slot.refused hc.closed).trans hc.current
  observer := hevolves.observer.trans hc.observer
  observers := hevolves.observers ▸ hc.observers
  schedule := hevolves.schedule.trans hc.schedule
  schedules := fun i h hh => by
    by_contra hactive
    obtain ⟨h', hh', hactive'⟩ := hevolves.schedules i h hh (by simpa using hactive)
    simp [hc.schedules i h' hh'] at hactive'

theorem Evolves.reached (hevolves : c.Evolves next) {closing : Closing} (hc : c.Reached closing) :
    next.Reached closing := by
  cases closing with
  | marking => trivial
  | unwatching => exact hevolves.slot.closed.trans hc
  | unscheduling => exact ⟨hevolves.slot.closed.trans hc.1, hevolves.observer.trans hc.2⟩
  | emptying =>
      exact ⟨hevolves.slot.closed.trans hc.1, hevolves.observer.trans hc.2.1,
        hevolves.schedule.trans hc.2.2⟩
  | retiring generation =>
      exact ⟨hevolves.slot.closed.trans hc.1, hevolves.observer.trans hc.2.1,
        hevolves.schedule.trans hc.2.2.1, (hevolves.slot.refused hc.1).trans hc.2.2.2⟩

theorem evolves_withKeeper {k : Keeper} (hslot : c.slot.Evolves k.slot) :
    c.Evolves (c.withKeeper k) :=
  ⟨hslot, rfl, rfl, rfl, fun _ h hh hactive => ⟨h, hh, hactive⟩⟩

theorem evolves_setSlot {slot : Slot} (hslot : c.slot.Evolves slot) : c.Evolves (c.setSlot slot) :=
  evolves_withKeeper (k := { c.keeper with slot }) hslot

theorem evolves_withQueue (c : Coordinator) (queue : Option ChangeQueue) :
    c.Evolves { c with queue } :=
  ⟨.refl c.slot, rfl, rfl, rfl, fun _ h hh hactive => ⟨h, hh, hactive⟩⟩

theorem evolves_modifySchedule (c : Coordinator) (i : Nat) {f : HourlySchedule → HourlySchedule}
    (hf : ∀ h, c.schedules[i]? = some h → (f h).active = true → h.active = true) :
    c.Evolves { c with schedules := c.schedules.modify i f } := by
  refine ⟨.refl c.slot, rfl, rfl, rfl, fun j h hh hactive => ?_⟩
  simp only [Array.getElem?_modify] at hh
  by_cases hij : i = j
  · subst hij
    rw [if_pos rfl, Option.map_eq_some_iff] at hh
    obtain ⟨old, hold, rfl⟩ := hh
    exact ⟨old, hold, hf old hold hactive⟩
  · rw [if_neg hij] at hh
    exact ⟨h, hh, hactive⟩

theorem chore_evolves {task : Chore} (hchore : c.chore task = some next) :
    c.Evolves next ∧ next.slot.number = c.slot.number := by
  cases task with
  | notice here event =>
      obtain rfl := Option.some.inj hchore
      unfold notice
      split
      · exact ⟨c.evolves_withQueue _, rfl⟩
      · exact ⟨c.evolves_withQueue c.queue, rfl⟩
  | expireChange timer =>
      obtain rfl := Option.some.inj hchore
      exact ⟨c.evolves_withQueue _, rfl⟩
  | flush flush =>
      simp only [chore, stepFlush, Option.map_map, Option.map_eq_some_iff] at hchore
      obtain ⟨_, -, rfl⟩ := hchore
      exact ⟨c.evolves_withQueue _, rfl⟩
  | expireHour schedule timer =>
      obtain rfl := Option.some.inj hchore
      exact ⟨c.evolves_modifySchedule schedule fun h _ hactive => hactive, rfl⟩
  | fire schedule now firing =>
      simp only [chore, stepFiring, Option.map_eq_some_iff, Option.bind_eq_some_iff] at hchore
      obtain ⟨_, ⟨h, hh, ⟨h', firing'⟩, hstep, rfl⟩, rfl⟩ := hchore
      refine ⟨c.evolves_modifySchedule schedule fun old hold hactive => ?_, rfl⟩
      obtain rfl := Option.some.inj (hold.symm.trans hh)
      by_contra hstopped
      obtain rfl := Firing.step_of_inactive (by simpa using hstopped) hstep
      exact hstopped hactive
  | enter =>
      cases henter : c.slot.enter with
      | error failure => simp [chore, henter, Except.toOption] at hchore
      | ok entered =>
          obtain ⟨slot, g⟩ := entered
          simp only [chore, henter, Except.toOption, Option.map_some, Option.some.injEq] at hchore
          subst next
          obtain ⟨l, -, -, -, rfl⟩ := Slot.enter_eq_ok henter
          exact ⟨evolves_setSlot (c.slot.evolves_setLifetime g _), rfl⟩
  | leave generation =>
      obtain rfl := Option.some.inj hchore
      exact ⟨evolves_setSlot (c.slot.evolves_setLifetime generation _), rfl⟩

/-! ### Opening and closing -/

/-- An observer that is started is the one at hand. -/
theorem IsTended.startWatching (hc : c.IsTended) (here : String) (refusal : Option Failure) :
    (c.startWatching here refusal).1.IsTended := by
  unfold Coordinator.startWatching
  split
  · exact hc
  · rename_i hwatching
    have hnone : c.observer = none := by simpa [isWatching] using hwatching
    cases refusal with
    | none =>
        refine ⟨fun i o ho hstarted => ?_, hc.schedules⟩
        simp only [Array.getElem?_push, Array.size_push, Nat.add_sub_cancel] at ho ⊢
        by_cases hi : i = c.observers.size
        · exact Or.inr (congrArg some hi.symm)
        · rw [if_neg hi] at ho
          exact Or.inl ((hc.observers i o ho hstarted).resolve_right (by simp [hnone]))
    | some failure =>
        refine ⟨fun i o ho hstarted => ?_, hc.schedules⟩
        simp only [Array.getElem?_push] at ho
        by_cases hi : i = c.observers.size
        · rw [if_pos hi] at ho
          obtain rfl := Option.some.inj ho
          simp at hstarted
        · rw [if_neg hi] at ho
          exact hc.observers i o ho hstarted

theorem IsTended.stopSchedule (hc : c.IsTended) :
    c.stopSchedule.IsTended ∧ ∀ (i : Nat) (h : HourlySchedule),
      c.stopSchedule.schedules[i]? = some h → h.active = false := by
  unfold Coordinator.stopSchedule
  cases hschedule : c.schedule with
  | none =>
      refine ⟨hc, fun i h hh => ?_⟩
      by_contra hactive
      have := hc.schedules i h hh (by simpa using hactive)
      simp [hschedule] at this
  | some j =>
      have hstopped : ∀ (i : Nat) (h : HourlySchedule),
          (c.schedules.modify j HourlySchedule.stop)[i]? = some h → h.active = false := by
        intro i h hh
        rw [Array.getElem?_modify] at hh
        by_cases hji : j = i
        · rw [if_pos hji, Option.map_eq_some_iff] at hh
          obtain ⟨old, -, rfl⟩ := hh
          rfl
        · rw [if_neg hji] at hh
          by_contra hactive
          have hsame := hc.schedules i h hh (by simpa using hactive)
          exact hji (Option.some.inj (hschedule.symm.trans hsame))
      refine ⟨⟨hc.observers, fun i h hh hactive => ?_⟩, hstopped⟩
      simp [hstopped i h hh] at hactive

theorem stopSchedule_same (c : Coordinator) : c.stopSchedule.keeper = c.keeper ∧
    c.stopSchedule.observer = c.observer ∧ c.stopSchedule.observers = c.observers := by
  unfold stopSchedule
  split <;> exact ⟨rfl, rfl, rfl⟩

/-- The coordinator with a new schedule at hand. -/
def withSchedule (c : Coordinator) (schedule : HourlySchedule) : Coordinator :=
  { c with
    schedules := c.schedules.push schedule
    schedule := some c.schedules.size }

/-- A schedule that is put in when no other is active is the one at hand. -/
theorem IsTended.withSchedule (hc : c.IsTended) (hinactive : ∀ (i : Nat) (h : HourlySchedule),
    c.schedules[i]? = some h → h.active = false) (schedule : HourlySchedule) :
    (c.withSchedule schedule).IsTended := by
  refine ⟨hc.observers, fun i h hh hactive => ?_⟩
  simp only [Coordinator.withSchedule, Array.getElem?_push] at hh ⊢
  by_cases hi : i = c.schedules.size
  · exact congrArg some hi.symm
  · rw [if_neg hi] at hh
    simp [hinactive i h hh] at hactive

/-- A new schedule is started in the place of the one that is stopped. -/
theorem exists_started (c : Coordinator) (now : Calendar.DateTime) :
    ∃ started, ({} : HourlySchedule).start now = started ∧
      c.scheduleHourly now = (c.stopSchedule.withSchedule started.1, started.2) := by
  -- opened before it is applied: what it is applied to would be evaluated, the time to wait
  -- included
  refine ⟨_, rfl, (congrFun (congrFun (?opened : scheduleHourly = ?body) c) now).trans ?_⟩
  case opened =>
    delta scheduleHourly
    exact rfl
  generalize ({} : HourlySchedule).start now = started
  cases started
  rfl

theorem IsTended.scheduleHourly (hc : c.IsTended) (now : Calendar.DateTime) :
    (c.scheduleHourly now).1.IsTended := by
  obtain ⟨hstopped, hinactive⟩ := hc.stopSchedule
  obtain ⟨started, -, hschedule⟩ := c.exists_started now
  rw [hschedule]
  exact hstopped.withSchedule hinactive started.1

theorem scheduleHourly_keeper (c : Coordinator) (now : Calendar.DateTime) :
    (c.scheduleHourly now).1.keeper = c.keeper := by
  obtain ⟨started, -, hschedule⟩ := c.exists_started now
  rw [hschedule]
  exact c.stopSchedule_same.1

theorem scheduleHourly_ok {now : Calendar.DateTime} (hnow : now.secondsToNextHour.isOk = true) :
    (c.scheduleHourly now).2 = .ok () := by
  obtain ⟨started, hstarted, hschedule⟩ := c.exists_started now
  have hok := HourlySchedule.start_ok {} hnow
  rw [hstarted] at hok
  rw [hschedule]
  exact hok

theorem startWatching_keeper (c : Coordinator) (here : String) (refusal : Option Failure) :
    (c.startWatching here refusal).1.keeper = c.keeper := by
  unfold startWatching
  split
  · rfl
  · cases refusal <;> rfl

theorem startWatching_error {here : String} {refusal : Option Failure} {failure : Failure}
    (herror : (c.startWatching here refusal).2 = .error failure) : refusal = some failure := by
  unfold startWatching at herror
  split at herror
  · contradiction
  · cases refusal with
    | none => contradiction
    | some other => exact congrArg some (Except.error.inj herror)

/-- Closing loses no generation. -/
theorem stepClose_slot (c : Coordinator) (closing : Closing) :
    (c.stepClose closing).1.slot.number = c.slot.number ∧
    (c.stepClose closing).1.slot.built.size = c.slot.built.size ∧
    (c.slot.IsBacked → (c.stepClose closing).1.slot.IsBacked) := by
  cases closing with
  | marking | unwatching => exact ⟨rfl, rfl, id⟩
  | unscheduling =>
      have hslot : (c.stepClose .unscheduling).1.slot = c.slot :=
        congrArg Keeper.slot c.stopSchedule_same.1
      rw [hslot]
      exact ⟨rfl, rfl, id⟩
  | emptying => exact ⟨rfl, rfl, fun _ g hg => by contradiction⟩
  | retiring generation =>
      cases generation with
      | none => exact ⟨rfl, rfl, id⟩
      | some g =>
          have hevolves := c.slot.evolves_setLifetime g Lifetime.retire
          exact ⟨rfl, c.slot.size_setLifetime g _, hevolves.backed⟩

theorem stepsLeft_stepClose {closing later : Closing}
    (hlater : (c.stepClose closing).2 = some later) :
    later.stepsLeft + 1 = closing.stepsLeft := by
  cases closing with
  | marking | unwatching | unscheduling | emptying =>
      obtain rfl := Option.some.inj hlater
      rfl
  | retiring generation => contradiction

/-- Each step of closing does its part. -/
theorem Reached.stepClose {closing : Closing} (hc : c.Reached closing) (htended : c.IsTended) :
    (c.stepClose closing).1.IsTended ∧
    match (c.stepClose closing).2 with
    | some later => (c.stepClose closing).1.Reached later
    | none => (c.stepClose closing).1.IsShut := by
  cases closing with
  | marking => exact ⟨⟨htended.observers, htended.schedules⟩, rfl⟩
  | unwatching =>
      refine ⟨⟨fun i o ho hstarted => Or.inl ?_, htended.schedules⟩, hc, rfl⟩
      simp only [Coordinator.stepClose, Coordinator.stopWatching] at ho
      cases hobserver : c.observer with
      | none =>
          rw [hobserver] at ho
          exact (htended.observers i o ho hstarted).resolve_right (by simp [hobserver])
      | some j =>
          simp only [hobserver, Array.getElem?_modify] at ho
          by_cases hji : j = i
          · rw [if_pos hji, Option.map_eq_some_iff] at ho
            obtain ⟨old, -, rfl⟩ := ho
            rfl
          · rw [if_neg hji] at ho
            refine (htended.observers i o ho hstarted).resolve_right fun hsame => ?_
            exact hji (Option.some.inj (hobserver.symm.trans hsame))
  | unscheduling =>
      obtain ⟨hstopped, hinactive⟩ := htended.stopSchedule
      obtain ⟨hkeeper, hobserver, -⟩ := c.stopSchedule_same
      refine ⟨⟨hstopped.observers, fun i h hh hactive => ?_⟩, ?_, ?_, rfl⟩
      · simp [hinactive i h hh] at hactive
      · exact (congrArg (·.slot.closed) hkeeper).trans hc.1
      · exact hobserver.trans hc.2
  | emptying => exact ⟨⟨htended.observers, htended.schedules⟩, hc.1, hc.2.1, hc.2.2, rfl⟩
  | retiring generation =>
      have hrest : (c.setSlot (generation.elim c.slot c.slot.retire)).IsTended :=
        ⟨htended.observers, htended.schedules⟩
      refine ⟨hrest, hrest.isShut ?_ hc.2.1 hc.2.2.1 ?_⟩
      · cases generation <;> exact hc.1
      · cases generation <;> exact hc.2.2.2

end Coordinator

/-- Background work can be started unless the system refuses more than to watch. -/
theorem Call.startBackground_ok {c : Coordinator} {around : Surroundings} (settings : Settings)
    (hc : c.IsTended) (hrefusal : ∀ failure, around.refusal = some failure →
      failure.kind.isFileFault = true) (hnow : around.now.secondsToNextHour.isOk = true) :
    (startBackground c settings around).2.1 = .ok () ∧
      (startBackground c settings around).1.keeper = c.keeper ∧
      (startBackground c settings around).1.IsTended := by
  obtain ⟨watched, result, hwatched⟩ : ∃ watched result,
      (if settings.watch then c.startWatching around.here around.refusal else (c, .ok ())) =
        (watched, result) := ⟨_, _, rfl⟩
  have hstarted : watched.keeper = c.keeper ∧ watched.IsTended ∧
      ∀ failure, result = .error failure → failure.kind.isFileFault = true := by
    cases hwatch : settings.watch with
    | false =>
        simp only [hwatch, Bool.false_eq_true, if_false, Prod.mk.injEq] at hwatched
        obtain ⟨rfl, rfl⟩ := hwatched
        exact ⟨rfl, hc, fun failure hfailure => by contradiction⟩
    | true =>
        simp only [hwatch, if_true] at hwatched
        obtain rfl : (c.startWatching around.here around.refusal).1 = watched := by rw [hwatched]
        obtain rfl : (c.startWatching around.here around.refusal).2 = result := by rw [hwatched]
        exact ⟨c.startWatching_keeper _ _, hc.startWatching _ _, fun failure hfailure =>
          hrefusal failure (Coordinator.startWatching_error hfailure)⟩
  obtain ⟨hkeeper, htended, hfault⟩ := hstarted
  have hok := Coordinator.scheduleHourly_ok (c := watched) hnow
  have hkept := (watched.scheduleHourly_keeper around.now).trans hkeeper
  have hlast := htended.scheduleHourly around.now
  -- what is said of scheduling suffices, and it must not be evaluated
  obtain ⟨schedule, hschedule⟩ : ∃ schedule, Coordinator.scheduleHourly = schedule := ⟨_, rfl⟩
  rw [hschedule] at hok hkept hlast
  rw [startBackground, hwatched, hschedule]
  cases result with
  | ok done => exact ⟨hok, hkept, hlast⟩
  | error failure =>
      simp only [hfault failure rfl, if_true]
      exact ⟨hok, hkept, hlast⟩

end DiskCatalog.Refresh

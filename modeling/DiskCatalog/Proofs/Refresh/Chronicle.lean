import DiskCatalog.Proofs.Refresh.Course
import DiskCatalog.Refresh.Coordinator

/-!
# The slot over whole runs

`Chronicle` is traffic around the keeper of a coordinator in which builds may fail at any point and
for any reason, and the schedule rebuilds too.  It also records which generations were published,
and what the clock showed then.

The slot holds what was published last, until a call that closes has emptied it; a build that fails
leaves no trace; and a generation that comes too late is closed.
-/

namespace DiskCatalog.Refresh

open Store Index

/-! ## Chronicles -/

structure Chronicle where
  traffic : Traffic
  plan : Plan
  /-- The generations that were published, in order, with the times. -/
  published : List (Nat × Calendar.DateTime) := []

inductive Incident where
  | ordinary (action : Action)
  /-- The schedule asks for a rebuild at a time of the place. -/
  | sweep (now : Calendar.DateTime)
  /-- A build fails for a reason of its own. -/
  | abort (trigger : Nat) (failure : Failure)
  deriving DecidableEq, Repr

namespace Chronicle

def start (plan : Plan) (builder : Builder) (disk : Disk) : Chronicle where
  traffic := .start plan.path builder disk
  plan := plan

def slot (s : Chronicle) : Slot :=
  s.traffic.slot

def coordinator (s : Chronicle) : Coordinator where
  plan := s.plan
  keeper := s.traffic.keeper

/-- Goes on, with the generation that was published if one was. -/
def record (s : Chronicle) (traffic : Traffic) : Option Nat → Chronicle
  | none => { s with traffic }
  | some g => { s with traffic, published := s.published ++ [(g, s.traffic.keeper.clock)] }

/-- One step, if it can be taken. -/
def act (s : Chronicle) : Incident → Option Chronicle
  | .ordinary action => (s.traffic.act action).map fun traffic =>
    s.record traffic (s.traffic.published? action)
  | .sweep now =>
    let triggers := s.traffic.triggers ++ [s.coordinator.scheduledTrigger now]
    some { s with traffic := { s.traffic with triggers } }
  | .abort i failure =>
    match s.traffic.triggers[i]? with
    | none => none
    | some t =>
      if t.isBuilding then
        let triggers := s.traffic.triggers.set i (t.abort failure).1
        some { s with traffic := { s.traffic with triggers } }
      else none

def run (s : Chronicle) : List Incident → Option Chronicle
  | [] => some s
  | incident :: incidents => (s.act incident).bind fun next => next.run incidents

inductive Reachable (first : Chronicle) : Chronicle → Prop where
  | start : Reachable first first
  | act {s next : Chronicle} (incident : Incident) :
      Reachable first s → s.act incident = some next → Reachable first next

/-- The failure in which an incident ends a build, with the trigger of the build. -/
def failure? (s : Chronicle) : Incident → Option (Nat × Failure)
  | .ordinary (.advance i) => (s.traffic.triggers[i]?).bind fun t =>
    (t.buildFailure? s.traffic.keeper).map fun failure => (i, failure)
  | .abort i failure => some (i, failure)
  | _ => none

variable {s next : Chronicle} {incident : Incident}

theorem Reachable.of_run {first : Chronicle} {incidents : List Incident}
    (hreach : Reachable first s) (hrun : s.run incidents = some next) : Reachable first next := by
  induction incidents generalizing s with
  | nil =>
      obtain rfl := Option.some.inj hrun
      exact hreach
  | cons incident incidents ih =>
      obtain ⟨middle, hact, hrest⟩ := Option.bind_eq_some_iff.mp hrun
      exact ih (.act incident hreach hact) hrest

/-- What the schedule asks for is a call like others. -/
theorem exists_act_sweep (s : Chronicle) (now : Calendar.DateTime) :
    ∃ request reason raising,
      s.act (.sweep now) = s.act (.ordinary (.call request reason raising)) := by
  by_cases hnight : (now.hour : Int) = s.plan.nightlyHour
  · refine ⟨.always, "nightly", false, ?_⟩
    simp [act, coordinator, Coordinator.scheduledTrigger, hnight, Traffic.act, record,
      Traffic.published?, Trigger.reload, Trigger.begin]
  · refine ⟨.ifChanged, "schedule", false, ?_⟩
    simp [act, coordinator, Coordinator.scheduledTrigger, hnight, Traffic.act, record,
      Traffic.published?, Trigger.check, Trigger.begin]

/-- Each step is one of the traffic, or a build fails for a reason of its own. -/
theorem act_cases (hact : s.act incident = some next) :
    (∃ action traffic, s.traffic.act action = some traffic ∧
      next = s.record traffic (s.traffic.published? action) ∧
      (incident = .ordinary action ∨ ∃ now, incident = .sweep now)) ∨
    (∃ i t failure, incident = .abort i failure ∧ s.traffic.triggers[i]? = some t ∧
      t.isBuilding = true ∧ next = { s with traffic := s.traffic.withFailed i t failure }) := by
  cases incident with
  | ordinary action =>
      obtain ⟨traffic, htraffic, rfl⟩ := Option.map_eq_some_iff.mp hact
      exact Or.inl ⟨action, traffic, htraffic, rfl, Or.inl rfl⟩
  | sweep now =>
      obtain ⟨request, reason, raising, hsweep⟩ := s.exists_act_sweep now
      rw [hsweep, act] at hact
      obtain ⟨traffic, htraffic, rfl⟩ := Option.map_eq_some_iff.mp hact
      exact Or.inl ⟨_, traffic, htraffic, rfl, Or.inr ⟨now, rfl⟩⟩
  | abort i failure =>
      cases ht : s.traffic.triggers[i]? with
      | none => simp [act, ht] at hact
      | some t =>
          simp only [act, ht] at hact
          split at hact
          · rename_i hbuilding
            obtain rfl := Option.some.inj hact
            rw [Trigger.abort_eq hbuilding]
            exact Or.inr ⟨i, t, failure, rfl, ht, hbuilding, rfl⟩
          · contradiction

/-! ## What the slot holds -/

structure Truthful (s : Chronicle) : Prop where
  accounted : s.traffic.Accounted
  unread : s.traffic.Unread
  closed : s.slot.closed = !s.traffic.closers.isEmpty
  current : s.slot.current =
    if s.traffic.isEmptied then none else s.published.getLast?.map (·.1)
  signature : s.slot.signature =
    s.slot.current.bind fun g => (s.slot.generation? g).map (·.signature)
  number : s.slot.number = s.published.length
  loaded : s.slot.loaded = s.published.getLast?.map (·.2)

theorem start_truthful (plan : Plan) (builder : Builder) (disk : Disk) :
    (start plan builder disk).Truthful where
  accounted := Traffic.start_accounted plan.path builder disk
  unread := by simp [start, Traffic.start, Traffic.Unread]
  closed := rfl
  current := rfl
  signature := rfl
  number := rfl
  loaded := rfl

@[simp] theorem record_traffic (traffic : Traffic) (published : Option Nat) :
    (s.record traffic published).traffic = traffic := by
  cases published <;> rfl

theorem Truthful.exists_generation (hs : s.Truthful) {g : Nat}
    (hcurrent : s.slot.current = some g) :
    ∃ generation, s.slot.generation? g = some generation := by
  have hheld : g ∈ s.traffic.inHand := Traffic.mem_inHand.mpr (Or.inl hcurrent)
  obtain ⟨h, hbuilt⟩ := Traffic.Accounted.exists_built (hs.accounted.held_lt g hheld)
  exact ⟨h.generation, Slot.generation?_eq_some_iff.mpr ⟨h, hbuilt, rfl⟩⟩

/-- What a step does to the slot agrees with what is recorded of it. -/
theorem Truthful.course (hs : s.Truthful) {traffic : Traffic} {published : Option Nat}
    (hcourse : s.traffic.Course traffic published) (haccounted : traffic.Accounted)
    (hunread : traffic.Unread) : (s.record traffic published).Truthful := by
  cases hcourse with
  | quiet hkept hempty hemptied =>
      refine ⟨haccounted, hunread, ?_, ?_, ?_, hkept.number.trans hs.number,
        hkept.loaded.trans hs.loaded⟩
      · change traffic.slot.closed = !traffic.closers.isEmpty
        rw [hkept.closed, hempty]
        exact hs.closed
      · change traffic.slot.current = if traffic.isEmptied then none else _
        rw [hkept.current, hemptied]
        exact hs.current
      · change traffic.slot.signature = traffic.slot.current.bind _
        rw [hkept.signature, hkept.current, ← slot, hs.signature]
        cases hcurrent : s.slot.current with
        | none => rfl
        | some g =>
            obtain ⟨generation, hgeneration⟩ := hs.exists_generation hcurrent
            have hlater := hkept.generations g generation hgeneration
            simp only [Option.bind_some, hgeneration]
            exact (congrArg _ hlater).symm
  | publish g generation hopen hgeneration hslot hclosers =>
      -- nobody has begun to close, or the slot would be shut
      have hnone : s.traffic.closers = [] := by
        have hclosed := hs.closed
        rw [slot, hopen] at hclosed
        simpa using hclosed.symm
      refine ⟨haccounted, hunread, ?_, ?_, ?_, ?_, ?_⟩
      · simp only [slot, record_traffic, hslot, hopen, hclosers, hnone, List.isEmpty_nil,
          Bool.not_true]
      · simp [slot, record, hslot, Traffic.isEmptied, hclosers, hnone]
      · have hlater : traffic.slot.generation? g = some generation := by
          rw [hslot]
          exact hgeneration
        simp only [slot, record_traffic, hslot, Option.bind_some] at hlater ⊢
        rw [hlater]
        rfl
      · have hnumber := hs.number
        simp only [slot] at hnumber
        simp [slot, record, hslot, hnumber]
      · simp [slot, record, hslot]
  | shut hslot hclosers =>
      refine ⟨haccounted, hunread, ?_, ?_, ?_, ?_, ?_⟩
      · simp [slot, record, hslot, hclosers, Slot.shut]
      · simp only [slot, record, hslot, Slot.shut, Traffic.isEmptied, hclosers, List.any_append]
        have hcurrent := hs.current
        simpa [slot, Traffic.isEmptied] using hcurrent
      · simp only [slot, record, hslot]
        exact hs.signature
      · simp only [slot, record, hslot]
        exact hs.number
      · simp only [slot, record, hslot]
        exact hs.loaded
  | empty hslot hempty hemptied =>
      refine ⟨haccounted, hunread, ?_, ?_, ?_, ?_, ?_⟩
      · simp only [slot, record, hslot, hempty, Slot.clear]
        exact hs.closed
      · simp [slot, record, hslot, hemptied, Slot.clear]
      · simp [slot, record, hslot, Slot.clear]
      · simp only [slot, record, hslot, Slot.clear]
        exact hs.number
      · simp only [slot, record, hslot, Slot.clear]
        exact hs.loaded

theorem act_truthful (hs : s.Truthful) (hact : s.act incident = some next) :
    next.Truthful := by
  rcases act_cases hact with ⟨action, traffic, htraffic, rfl, -⟩ |
    ⟨i, t, failure, -, ht, hbuilding, rfl⟩
  · exact hs.course (Traffic.act_course hs.accounted htraffic)
      (Traffic.act_accounted hs.accounted htraffic)
      (Traffic.act_unread hs.accounted hs.unread htraffic)
  · have hquiet : s.traffic.Course (s.traffic.withFailed i t failure) none :=
      .quiet (.refl s.slot) rfl rfl
    have hnext : (s.record (s.traffic.withFailed i t failure) none).Truthful :=
      hs.course hquiet (hs.accounted.withFailed ht hbuilding failure) (hs.unread.withFailed failure)
    exact hnext

/-- What every step keeps is kept by all of them together. -/
theorem Reachable.keeps {first : Chronicle} {P : Chronicle → Prop}
    (hstep : ∀ s incident next, s.Truthful → P s → s.act incident = some next → P next)
    (hfirst : first.Truthful) (hP : P first) (hreach : Reachable first s) : s.Truthful ∧ P s := by
  induction hreach with
  | start => exact ⟨hfirst, hP⟩
  | act incident _ hact ih => exact ⟨act_truthful ih.1 hact, hstep _ _ _ ih.1 ih.2 hact⟩

theorem act_course (hs : s.Truthful) (hact : s.act incident = some next) :
    ∃ published, next = s.record next.traffic published ∧
      s.traffic.Course next.traffic published := by
  rcases act_cases hact with ⟨action, traffic, htraffic, rfl, -⟩ | ⟨i, t, failure, -, -, -, rfl⟩
  · rw [record_traffic]
    exact ⟨_, rfl, Traffic.act_course hs.accounted htraffic⟩
  · exact ⟨none, rfl, .quiet (.refl s.slot) rfl rfl⟩

theorem act_hasClosed {g : Nat} (hact : s.act incident = some next)
    (hclosed : s.slot.hasClosed g = true) : next.slot.hasClosed g = true := by
  rcases act_cases hact with ⟨action, traffic, htraffic, rfl, -⟩ | ⟨i, t, failure, -, -, -, rfl⟩
  · rw [slot, record_traffic]
    exact Traffic.act_hasClosed htraffic hclosed
  · exact hclosed

/-- A trigger takes a step of its own, or its build fails, or it stays as it is. -/
theorem act_trigger {i : Nat} {t : Trigger} (hact : s.act incident = some next)
    (ht : s.traffic.triggers[i]? = some t) :
    next.traffic.triggers[i]? = some t ∨
    (∃ k t', t.Move s.traffic.disk s.traffic.keeper k t' ∧
      next.traffic = s.traffic.withTrigger i t k t' ∧ next.traffic.triggers[i]? = some t') ∨
    (t.isBuilding = true ∧ ∃ failure,
      next.traffic.triggers[i]? = some (t.moveTo (.leaving (t.failed failure)))) := by
  rcases act_cases hact with ⟨action, traffic, htraffic, rfl, -⟩ |
    ⟨j, u, failure, -, hu, hbuilding, rfl⟩
  · rw [record_traffic]
    rcases Traffic.act_trigger htraffic ht with hsame | ⟨k, t', -, hmove, hnext, ht'⟩
    · exact Or.inl hsame
    · exact Or.inr (Or.inl ⟨k, t', hmove, hnext, ht'⟩)
  · by_cases hji : j = i
    · subst hji
      obtain rfl : u = t := Option.some.inj (hu.symm.trans ht)
      have hlt := (List.getElem?_eq_some_iff.mp ht).1
      exact Or.inr (Or.inr ⟨hbuilding, failure, List.getElem?_set_self hlt⟩)
    · exact Or.inl ((List.getElem?_set_ne hji).trans ht)

/-! ## Builds that fail -/

/-- A build that has failed left no trace, and its trigger only reports the failure. -/
structure Untouched (s next : Chronicle) (i : Nat) (failure : Failure) : Prop where
  slot : next.slot = s.slot
  published : next.published = s.published
  closings : next.traffic.closings = s.traffic.closings
  reports : ∃ t, s.traffic.triggers[i]? = some t ∧ ∀ later, Reachable next later →
    ∃ t', later.traffic.triggers[i]? = some t' ∧ t'.Reports (t.failed failure)
  /-- The steps that the trigger has left only give the lock back. -/
  ended : ∀ later after, Reachable next later →
    later.act (.ordinary (.advance i)) = some after → after.slot = later.slot

theorem act_failure {i : Nat} {failure : Failure} (hact : s.act incident = some next)
    (hfailure : s.failure? incident = some (i, failure)) :
    ∃ t, s.traffic.triggers[i]? = some t ∧
      next = { s with traffic := s.traffic.withFailed i t failure } := by
  rcases act_cases hact with ⟨action, traffic, htraffic, rfl, rfl | ⟨now, rfl⟩⟩ |
    ⟨j, t, other, rfl, ht, hbuilding, rfl⟩
  · cases action with
    | advance j =>
        obtain ⟨t, k, t', ht, hmove, rfl⟩ := Traffic.act_advance htraffic
        simp only [failure?, ht, Option.bind_some, Option.map_eq_some_iff,
          Prod.mk.injEq] at hfailure
        obtain ⟨_, hfailure, rfl, rfl⟩ := hfailure
        have hpublished : s.traffic.published? (.advance j) = none := by
          unfold Trigger.buildFailure? at hfailure
          split at hfailure
          · rename_i hstage
            simp [Traffic.published?, ht, hstage]
          · contradiction
        rw [hpublished, Traffic.withTrigger_of_buildFailure hmove hfailure]
        exact ⟨t, ht, rfl⟩
    | change | tick | call | close | advanceClose | enter | leave => contradiction
  · contradiction
  · simp only [failure?, Option.some.injEq, Prod.mk.injEq] at hfailure
    obtain ⟨rfl, rfl⟩ := hfailure
    exact ⟨t, ht, rfl⟩

/-- A trigger that reports goes on reporting the same. -/
theorem act_reports {i : Nat} {result : Except Failure Rebuilt}
    (hreports : ∃ t, s.traffic.triggers[i]? = some t ∧ t.Reports result)
    (hact : s.act incident = some next) :
    ∃ t, next.traffic.triggers[i]? = some t ∧ t.Reports result := by
  obtain ⟨t, ht, hresult⟩ := hreports
  rcases act_trigger hact ht with hsame | ⟨k, t', hmove, -, ht'⟩ | ⟨hbuilding, -⟩
  · exact ⟨t, hsame, hresult⟩
  · exact ⟨t', ht', (hmove.reports hresult).1⟩
  · rcases hresult with hstage | hstage <;> simp [Trigger.isBuilding, hstage] at hbuilding

theorem Truthful.untouched {i : Nat} {failure : Failure} (hs : s.Truthful)
    (hact : s.act incident = some next) (hfailure : s.failure? incident = some (i, failure)) :
    s.Untouched next i failure := by
  have hnext := act_truthful hs hact
  obtain ⟨t, ht, rfl⟩ := act_failure hact hfailure
  have hlt := (List.getElem?_eq_some_iff.mp ht).1
  have hreports : ∀ later,
      Reachable { s with traffic := s.traffic.withFailed i t failure } later →
      ∃ t', later.traffic.triggers[i]? = some t' ∧ t'.Reports (t.failed failure) := by
    intro later hlater
    exact (hlater.keeps (fun _ _ _ _ hkept hact => act_reports hkept hact) hnext
      ⟨_, List.getElem?_set_self hlt, Or.inl rfl⟩).2
  refine ⟨rfl, rfl, rfl, ⟨t, ht, hreports⟩, fun later after hlater hafter => ?_⟩
  obtain ⟨t', ht', hresult⟩ := hreports later hlater
  obtain ⟨traffic, htraffic, rfl⟩ := Option.map_eq_some_iff.mp hafter
  obtain ⟨u, k, u', hu, hmove, rfl⟩ := Traffic.act_advance htraffic
  obtain rfl : u = t' := Option.some.inj (hu.symm.trans ht')
  rw [slot, record_traffic]
  exact (hmove.reports hresult).2

/-! ## Closing -/

/-- A trigger has a generation that came too late, or has retired it. -/
def Rejects (s : Chronicle) (i g : Nat) : Prop :=
  s.slot.closed = true ∧ ∃ t, s.traffic.triggers[i]? = some t ∧
    (t.Withholds g ∨ (t.Reports (.ok ⟨false, some g⟩) ∧ s.slot.hasClosed g = true))

/-- A generation is closed, or two steps of a trigger close it that nothing can hinder. -/
structure Discards (s : Chronicle) (i g : Nat) : Prop where
  soon : ∃ n ≤ 2, ∃ last,
    s.run (List.replicate n (.ordinary (.advance i))) = some last ∧
      last.slot.hasClosed g = true
  closed : ∀ t result, s.traffic.triggers[i]? = some t → t.result? = some result →
    result = .ok ⟨false, some g⟩ ∧ s.slot.hasClosed g = true

/-- The generation that a trigger retires is closed when no reader has it. -/
theorem Truthful.discard {i g : Nat} {t t' : Trigger} {k : Keeper} (hs : s.Truthful)
    (ht : s.traffic.triggers[i]? = some t) (hmove : t.Move s.traffic.disk s.traffic.keeper k t')
    (hstage : t.stage = .retiring (some g) ⟨false, some g⟩) :
    t'.stage = .leaving (.ok ⟨false, some g⟩) ∧ k.slot.hasClosed g = true := by
  have hmem := List.mem_of_getElem? ht
  have hwithholds : t.Withholds g := Or.inr hstage
  have hheld : g ∈ s.traffic.inHand :=
    Traffic.mem_inHand.mpr (Or.inr (Or.inl ⟨t, hmem, hwithholds.mem_holds⟩))
  obtain ⟨hleaving, hslot⟩ := hmove.discard hstage
  rw [hslot]
  exact ⟨hleaving, hs.accounted.hasClosed_retire (hs.accounted.held_lt g hheld)
    (hs.unread t hmem g hwithholds)⟩

theorem act_rejects {i g : Nat} (hs : s.Truthful) (hrejects : s.Rejects i g)
    (hact : s.act incident = some next) : next.Rejects i g := by
  obtain ⟨hclosed, t, ht, hstage⟩ := hrejects
  obtain ⟨published, -, hcourse⟩ := act_course hs hact
  refine ⟨(hcourse.closed hclosed).2.1, ?_⟩
  rcases act_trigger hact ht with hsame | ⟨k, t', hmove, hnext, ht'⟩ | ⟨hbuilding, -⟩
  · exact ⟨t, hsame, hstage.imp_right fun hreports => ⟨hreports.1, act_hasClosed hact hreports.2⟩⟩
  · refine ⟨t', ht', ?_⟩
    rcases hstage with (hpublishing | hretiring) | ⟨hreports, hover⟩
    · exact Or.inl (Or.inr (hmove.refuse hclosed hpublishing))
    · obtain ⟨hleaving, hover⟩ := hs.discard ht hmove hretiring
      rw [slot, hnext]
      exact Or.inr ⟨Or.inl hleaving, hover⟩
    · exact Or.inr ⟨(hmove.reports hreports).1, act_hasClosed hact hover⟩
  · rcases hstage with (hstage | hstage) | ⟨hstage | hstage, -⟩ <;>
      simp [Trigger.isBuilding, hstage] at hbuilding

theorem exists_advance {i : Nat} {t : Trigger} (ht : s.traffic.triggers[i]? = some t)
    (hinside : t.isInside = true) :
    ∃ k t' next, s.act (.ordinary (.advance i)) = some next ∧
      t.Move s.traffic.disk s.traffic.keeper k t' ∧
      next.traffic = s.traffic.withTrigger i t k t' := by
  have hunfinished : t.result? = none := by
    unfold Trigger.isInside at hinside
    unfold Trigger.result?
    split at hinside <;> simp_all
  obtain ⟨traffic, htraffic⟩ :=
    Option.isSome_iff_exists.mp (Traffic.isSome_advance ht hunfinished (Or.inl hinside))
  obtain ⟨u, k, t', hu, hmove, rfl⟩ := Traffic.act_advance htraffic
  obtain rfl : u = t := Option.some.inj (hu.symm.trans ht)
  exact ⟨k, t', _, by rw [act, htraffic]; rfl, hmove, record_traffic ..⟩

/-- A generation that a trigger retires is closed by the next step of it. -/
theorem Truthful.closes {i g : Nat} {t : Trigger} (hs : s.Truthful)
    (ht : s.traffic.triggers[i]? = some t)
    (hstage : t.stage = .retiring (some g) ⟨false, some g⟩) :
    ∃ next, s.act (.ordinary (.advance i)) = some next ∧ next.slot.hasClosed g = true := by
  obtain ⟨k, t', next, hact, hmove, hnext⟩ :=
    exists_advance ht (by simp [Trigger.isInside, hstage])
  refine ⟨next, hact, ?_⟩
  rw [slot, hnext]
  exact (hs.discard ht hmove hstage).2

theorem Truthful.discards {i g : Nat} (hs : s.Truthful) (hrejects : s.Rejects i g) :
    s.Discards i g := by
  obtain ⟨hclosed, t, ht, hstage⟩ := hrejects
  constructor
  · rcases hstage with (hpublishing | hretiring) | ⟨hreports, hover⟩
    · obtain ⟨k, t', next, hact, hmove, hnext⟩ :=
        exists_advance ht (by simp [Trigger.isInside, hpublishing])
      have ht' : next.traffic.triggers[i]? = some t' := by
        rw [hnext]
        exact List.getElem?_set_self (List.getElem?_eq_some_iff.mp ht).1
      obtain ⟨last, hlast, hover⟩ :=
        (act_truthful hs hact).closes ht' (hmove.refuse hclosed hpublishing)
      exact ⟨2, le_rfl, last, by simp [List.replicate, run, hact, hlast], hover⟩
    · obtain ⟨last, hlast, hover⟩ := hs.closes ht hretiring
      exact ⟨1, by omega, last, by simp [run, hlast], hover⟩
    · exact ⟨0, by omega, s, rfl, hover⟩
  · intro u result hu hresult
    obtain rfl : u = t := Option.some.inj (hu.symm.trans ht)
    unfold Trigger.result? at hresult
    split at hresult
    · rename_i other hfinished
      obtain rfl := Option.some.inj hresult
      rcases hstage with (hstage | hstage) | ⟨hstage | hstage, hover⟩
      · simp [hfinished] at hstage
      · simp [hfinished] at hstage
      · simp [hfinished] at hstage
      · exact ⟨Stage.finished.inj (hfinished.symm.trans hstage), hover⟩
    · contradiction

/-! ## Whole runs -/

/-- What can be relied on in a state and from it on. -/
structure Reliable (s : Chronicle) : Prop where
  /-- The slot holds what was published last until a call that closes has emptied it. -/
  current : s.slot.current =
    if s.traffic.isEmptied then none else s.published.getLast?.map (·.1)
  generation : ∀ g, s.slot.current = some g → ∃ generation,
    s.slot.generation? g = some generation ∧ s.slot.signature = some generation.signature
  signature : s.slot.current = none → s.slot.signature = none
  number : s.slot.number = s.published.length
  loaded : s.slot.loaded = s.published.getLast?.map (·.2)
  failed : ∀ incident next i failure, s.failure? incident = some (i, failure) →
    s.act incident = some next → s.Untouched next i failure
  closed : s.slot.closed = !s.traffic.closers.isEmpty
  /-- Once the slot is marked as closed, nothing is published any more. -/
  shut : s.slot.closed = true → ∀ later, Reachable s later → later.slot.closed = true ∧
    later.published = s.published ∧ later.slot.number = s.slot.number ∧
    later.slot.loaded = s.slot.loaded
  emptied : s.traffic.isEmptied = true → ∀ later, Reachable s later →
    later.slot.current = none ∧ later.slot.signature = none
  /-- A generation whose build comes to its end after that is closed. -/
  discarded : s.slot.closed = true → ∀ i t g, s.traffic.triggers[i]? = some t →
    t.stage = .publishing g → ∀ later, Reachable s later → later.Discards i g

theorem act_shut (hs : s.Truthful) (hclosed : s.slot.closed = true)
    (hact : s.act incident = some next) : next.slot.closed = true ∧
      next.published = s.published ∧ next.slot.number = s.slot.number ∧
      next.slot.loaded = s.slot.loaded := by
  obtain ⟨published, hnext, hcourse⟩ := act_course hs hact
  obtain ⟨rfl, hshut, hnumber, hloaded⟩ := hcourse.closed hclosed
  rw [hnext]
  exact ⟨hshut, rfl, hnumber, hloaded⟩

theorem Truthful.closed_of_isEmptied (hs : s.Truthful) (hemptied : s.traffic.isEmptied = true) :
    s.slot.closed = true := by
  obtain ⟨c, hc, -⟩ := List.any_eq_true.mp hemptied
  rw [hs.closed, Bool.not_eq_true', List.isEmpty_eq_false_iff]
  exact List.ne_nil_of_mem hc

theorem act_isEmptied (hs : s.Truthful) (hemptied : s.traffic.isEmptied = true)
    (hact : s.act incident = some next) : next.traffic.isEmptied = true := by
  obtain ⟨published, -, hcourse⟩ := act_course hs hact
  exact hcourse.isEmptied (hs.closed_of_isEmptied hemptied) hemptied

theorem Truthful.emptied (hs : s.Truthful) (hemptied : s.traffic.isEmptied = true) :
    s.slot.current = none ∧ s.slot.signature = none := by
  have hcurrent : s.slot.current = none := by
    rw [hs.current, if_pos hemptied]
  rw [hs.signature, hcurrent]
  exact ⟨rfl, rfl⟩

theorem Truthful.reliable (hs : s.Truthful) : s.Reliable where
  current := hs.current
  generation := by
    intro g hcurrent
    obtain ⟨generation, hgeneration⟩ := hs.exists_generation hcurrent
    refine ⟨generation, hgeneration, ?_⟩
    rw [hs.signature, hcurrent, Option.bind_some, hgeneration]
    rfl
  signature := by
    intro hcurrent
    rw [hs.signature, hcurrent]
    rfl
  number := hs.number
  loaded := hs.loaded
  failed := fun _ _ _ _ hfailure hact => hs.untouched hact hfailure
  closed := hs.closed
  shut := by
    intro hclosed later hlater
    refine (hlater.keeps (P := fun later => later.slot.closed = true ∧
      later.published = s.published ∧ later.slot.number = s.slot.number ∧
      later.slot.loaded = s.slot.loaded) ?_ hs ⟨hclosed, rfl, rfl, rfl⟩).2
    rintro middle incident next hmiddle ⟨hshut, hpublished, hnumber, hloaded⟩ hact
    obtain ⟨hnext, hpublished', hnumber', hloaded'⟩ := act_shut hmiddle hshut hact
    exact ⟨hnext, hpublished'.trans hpublished, hnumber'.trans hnumber, hloaded'.trans hloaded⟩
  emptied := by
    intro hemptied later hlater
    obtain ⟨hlast, hstill⟩ := hlater.keeps (P := fun later => later.traffic.isEmptied = true)
      (fun _ _ _ hmiddle hstill hact => act_isEmptied hmiddle hstill hact) hs hemptied
    exact hlast.emptied hstill
  discarded := by
    intro hclosed i t g ht hstage later hlater
    obtain ⟨hlast, hrejects⟩ := hlater.keeps (P := fun later => later.Rejects i g)
      (fun _ _ _ hmiddle hkept hact => act_rejects hmiddle hkept hact) hs
      ⟨hclosed, t, ht, Or.inl (Or.inl hstage)⟩
    exact hlast.discards hrejects

/-- However rebuilds, failures and calls that close fall together, the slot holds what was published
last, builds that fail leave no trace, and nothing is published once a call has begun to close. -/
theorem reachable_reliable {plan : Plan} {builder : Builder} {disk : Disk}
    (hreach : Reachable (start plan builder disk) s) : s.Reliable :=
  (hreach.keeps (P := fun _ => True) (fun _ _ _ _ _ _ => trivial)
    (start_truthful plan builder disk) trivial).1.reliable

/-- The first generation is published, a rebuild fails, and in the nightly one a call closes. -/
def lastNight : List Incident :=
  let evening : Calendar.DateTime := ⟨⟨2024, 5, 1⟩, 22, 0, 0, 0⟩
  let night : Calendar.DateTime := ⟨⟨2024, 5, 2⟩, 3, 0, 0, 0⟩
  [.ordinary (.call .first "" true), .ordinary (.tick evening)] ++
    List.replicate 11 (.ordinary (.advance 0)) ++
    [.ordinary (.call .always "" false), .ordinary (.advance 1),
      .abort 1 (.other .runtime "out of memory"), .ordinary (.advance 1),
      .ordinary (.tick night), .sweep night, .ordinary (.advance 2), .ordinary .close] ++
    List.replicate 10 (.ordinary (.advance 2)) ++
    List.replicate 2 (.ordinary (.advanceClose 0))

theorem reachable_reliable_lastNight :
    ∃ s, (start ⟨"c", ⟨[], 0, 8⟩, .ofInt 1, false, 3⟩ Traffic.emptyBuilder fun _ =>
        .directory).run lastNight = some s ∧
      s.traffic.triggers.map (·.result?) = [some (.ok ⟨true, some 0⟩),
        some (.error (.other .runtime "out of memory")), some (.ok ⟨false, some 1⟩)] ∧
      s.published = [(0, ⟨⟨2024, 5, 1⟩, 22, 0, 0, 0⟩)] ∧ s.traffic.closings = [1, 0] ∧
      s.Reliable := by
  obtain ⟨s, hrun, hresults, hpublished, hclosings⟩ :
      ∃ s, (start ⟨"c", ⟨[], 0, 8⟩, .ofInt 1, false, 3⟩ Traffic.emptyBuilder fun _ =>
          .directory).run lastNight = some s ∧
        s.traffic.triggers.map (·.result?) = [some (.ok ⟨true, some 0⟩),
          some (.error (.other .runtime "out of memory")), some (.ok ⟨false, some 1⟩)] ∧
        s.published = [(0, ⟨⟨2024, 5, 1⟩, 22, 0, 0, 0⟩)] ∧ s.traffic.closings = [1, 0] :=
    ⟨_, rfl, rfl, rfl, rfl⟩
  exact ⟨s, hrun, hresults, hpublished, hclosings, reachable_reliable (.of_run .start hrun)⟩

end Chronicle

end DiskCatalog.Refresh

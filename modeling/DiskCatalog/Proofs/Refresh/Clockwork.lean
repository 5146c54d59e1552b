import DiskCatalog.Proofs.Refresh.Dispatch
import DiskCatalog.Refresh.HourlySchedule

/-!
# Chains of timers

`Clockwork` is an hourly schedule together with what its expired timers are at.  It is started and
stopped, also while its work is done, timers expire, and firings take their steps in any order; a
timer that has expired is a firing that begins, which nothing can call back.  The lists `orders` and
`forgotten` only record what has happened.

One timer runs at a time, and the schedule knows it, as long as no firing that begins finds another
timer running: it takes the timer of the schedule for its own and forgets it.  A forgotten timer
runs on beside the next one, and stopping does not stop it.
-/

namespace DiskCatalog.Refresh

open Calendar

/-! ## Steps of a schedule -/

namespace HourlySchedule

/-- The timers that run. -/
def running (s : HourlySchedule) : List Nat :=
  s.armed.map (·.1)

/-- The timer that runs and that the schedule loses as a firing takes its next step. -/
def forgets (s : HourlySchedule) : Firing → List Nat
  | .starting => if s.active then s.timer.toList.filter (· ∈ s.running) else []
  | _ => []

variable {s : HourlySchedule} {t : Nat}

theorem running_expire (s : HourlySchedule) (timer : Nat) :
    (s.expire timer).running = s.running.filter (· ≠ timer) := by
  simp [running, expire, List.filter_map, Function.comp_def, bne, Bool.beq_eq_decide_eq]

theorem running_disarm (s : HourlySchedule) :
    s.disarm.running = s.running.filter fun t => s.timer ≠ some t := by
  unfold disarm
  cases s.timer with
  | none => simp
  | some timer =>
      simp [running, List.filter_map, Function.comp_def, bne, Bool.beq_eq_decide_eq, eq_comm]

theorem disarm_eq (s : HourlySchedule) : ∃ armed, s.disarm = { s with armed } := by
  unfold disarm
  split
  · exact ⟨s.armed, rfl⟩
  · exact ⟨_, rfl⟩

/-- What arming does: the timer of the schedule is stopped, and a new one runs unless the calendar
is at its end. -/
inductive Arms (s next : HourlySchedule) : Prop where
  | ended : next.active = s.active → next.timer = s.timer → next.started = s.started →
      next.running = s.running.filter (s.timer ≠ some ·) → Arms s next
  | armed : next.active = s.active → next.timer = some s.started → next.started = s.started + 1 →
      next.running = s.running.filter (s.timer ≠ some ·) ++ [s.started] → Arms s next

theorem arms_of_arm {s next : HourlySchedule} {now : DateTime} {result : Except Failure Unit}
    (harm : s.arm now = (next, result)) : s.Arms next := by
  have hrunning := s.running_disarm
  obtain ⟨armed, hdisarm⟩ := s.disarm_eq
  -- opened before it is applied, so that the time to wait is not evaluated
  generalize hopened : arm = opened at harm
  delta arm at hopened
  subst hopened
  dsimp only at harm
  generalize now.secondsToNextHour = delay at harm
  rw [hdisarm] at harm hrunning
  cases delay with
  | error failure =>
      obtain ⟨rfl, -⟩ := Prod.mk.inj harm
      exact .ended rfl rfl rfl hrunning
  | ok delay =>
      obtain ⟨rfl, -⟩ := Prod.mk.inj harm
      refine .armed rfl rfl rfl ?_
      rw [← hrunning]
      simp [running]

theorem arms_of_start {s next : HourlySchedule} {now : DateTime} {result : Except Failure Unit}
    (hstart : s.start now = (next, result)) : Arms { s with active := true } next :=
  arms_of_arm hstart

/-- Every timer that runs is known to its schedule, or it was forgotten. -/
structure Accounts (s : HourlySchedule) (forgotten : List Nat) : Prop where
  nodup : s.running.Nodup
  running_lt : ∀ t ∈ s.running, t < s.started
  timer_lt : ∀ t, s.timer = some t → t < s.started
  forgotten_lt : ∀ t ∈ forgotten, t < s.started
  known : ∀ t ∈ s.running, s.timer = some t ∨ t ∈ forgotten
  apart : ∀ t ∈ forgotten, s.timer ≠ some t
  inactive : s.active = false → s.timer = none

variable {next : HourlySchedule} {forgotten : List Nat}

theorem Accounts.arms (hs : s.Accounts forgotten) (hactive : s.active = true)
    (harms : s.Arms next) : next.Accounts forgotten := by
  have hstopped : ∀ t ∈ s.running.filter (s.timer ≠ some ·), t ∈ s.running ∧ t ∈ forgotten := by
    intro t ht
    obtain ⟨hrunning, hother⟩ := List.mem_filter.mp ht
    exact ⟨hrunning, (hs.known t hrunning).resolve_left (of_decide_eq_true hother)⟩
  cases harms with
  | ended hsame htimer hstarted hrunning =>
      constructor
      case nodup => exact hrunning ▸ hs.nodup.filter _
      case running_lt =>
        intro t ht
        exact hstarted ▸ hs.running_lt t (hstopped t (hrunning ▸ ht)).1
      case timer_lt => exact htimer ▸ hstarted ▸ hs.timer_lt
      case forgotten_lt => exact hstarted ▸ hs.forgotten_lt
      case known => exact fun t ht => Or.inr (hstopped t (hrunning ▸ ht)).2
      case apart => exact htimer ▸ hs.apart
      case inactive => exact fun hinactive => by simp [hsame, hactive] at hinactive
  | armed hsame htimer hstarted hrunning =>
      have hnew : s.started ∉ s.running.filter (s.timer ≠ some ·) :=
        fun hmem => (hs.running_lt _ (hstopped _ hmem).1).false
      constructor
      case nodup =>
        rw [hrunning, List.nodup_append_comm, List.singleton_append]
        exact List.nodup_cons.mpr ⟨hnew, hs.nodup.filter _⟩
      case running_lt =>
        intro t ht
        rw [hrunning, List.mem_append, List.mem_singleton] at ht
        rcases ht with hold | rfl
        · have := hs.running_lt t (hstopped t hold).1
          omega
        · omega
      case timer_lt =>
        intro t ht
        obtain rfl : s.started = t := Option.some.inj (htimer.symm.trans ht)
        omega
      case forgotten_lt =>
        intro t ht
        have := hs.forgotten_lt t ht
        omega
      case known =>
        intro t ht
        rw [hrunning, List.mem_append, List.mem_singleton] at ht
        rcases ht with hold | rfl
        · exact Or.inr (hstopped t hold).2
        · exact Or.inl htimer
      case apart =>
        intro t ht hsome
        obtain rfl : s.started = t := Option.some.inj (htimer.symm.trans hsome)
        exact (hs.forgotten_lt _ ht).false
      case inactive => exact fun hinactive => by simp [hsame, hactive] at hinactive

theorem Accounts.start (hs : s.Accounts forgotten) (harms : Arms { s with active := true } next) :
    next.Accounts forgotten ∧ next.active = true := by
  have hactive : Accounts { s with active := true } forgotten :=
    ⟨hs.nodup, hs.running_lt, hs.timer_lt, hs.forgotten_lt, hs.known, hs.apart, by simp⟩
  refine ⟨hactive.arms rfl harms, ?_⟩
  cases harms <;> assumption

theorem running_stop (s : HourlySchedule) :
    s.stop.running = s.running.filter (s.timer ≠ some ·) := by
  rw [← running_disarm]
  rfl

theorem Accounts.stop (hs : s.Accounts forgotten) : s.stop.Accounts forgotten := by
  obtain ⟨armed, hdisarm⟩ := s.disarm_eq
  have hstarted : s.stop.started = s.started := by rw [HourlySchedule.stop, hdisarm]
  constructor
  case nodup => exact s.running_stop ▸ hs.nodup.filter _
  case running_lt =>
    intro t ht
    rw [running_stop] at ht
    exact hstarted ▸ hs.running_lt t (List.mem_of_mem_filter ht)
  case timer_lt => exact fun t ht => by simp [HourlySchedule.stop] at ht
  case forgotten_lt => exact hstarted ▸ hs.forgotten_lt
  case known =>
    intro t ht
    rw [running_stop, List.mem_filter, decide_eq_true_iff] at ht
    exact Or.inr ((hs.known t ht.1).resolve_left ht.2)
  case apart => exact fun t _ => by simp [HourlySchedule.stop]
  case inactive => exact fun _ => rfl

theorem Accounts.expire (hs : s.Accounts forgotten) (timer : Nat) :
    (s.expire timer).Accounts forgotten := by
  have hrunning : ∀ t ∈ (s.expire timer).running, t ∈ s.running := by
    intro t ht
    rw [running_expire] at ht
    exact List.mem_of_mem_filter ht
  constructor
  case nodup => exact s.running_expire timer ▸ hs.nodup.filter _
  case running_lt => exact fun t ht => hs.running_lt t (hrunning t ht)
  case known => exact fun t ht => hs.known t (hrunning t ht)
  case timer_lt => exact hs.timer_lt
  case forgotten_lt => exact hs.forgotten_lt
  case apart => exact hs.apart
  case inactive => exact hs.inactive

/-- The timer that a firing finds running as it begins is forgotten. -/
theorem Accounts.begin (hs : s.Accounts forgotten) (hactive : s.active = true) :
    Accounts { s with timer := none } (forgotten ++ s.forgets .starting) := by
  have hforgets : ∀ t, t ∈ s.forgets .starting ↔ s.timer = some t ∧ t ∈ s.running := by
    intro t
    simp [forgets, hactive]
  constructor
  case nodup => exact hs.nodup
  case running_lt => exact hs.running_lt
  case timer_lt => exact fun t ht => by simp at ht
  case forgotten_lt =>
    intro t ht
    rcases List.mem_append.mp ht with hold | hnew
    · exact hs.forgotten_lt t hold
    · exact hs.running_lt t ((hforgets t).mp hnew).2
  case known =>
    intro t ht
    refine Or.inr (List.mem_append.mpr ?_)
    rcases hs.known t ht with htimer | hold
    · exact Or.inr ((hforgets t).mpr ⟨htimer, ht⟩)
    · exact Or.inl hold
  case apart => exact fun t _ => by simp
  case inactive => exact fun _ => rfl

end HourlySchedule

/-! ## Steps of a firing -/

namespace Firing

def isUnderWay : Firing → Bool
  | .finished _ => false
  | _ => true

/-- What a step of a firing does to its schedule and to itself. -/
inductive Move (s : HourlySchedule) : Firing → HourlySchedule → Firing → Prop where
  | begin : s.active = true → Move s .starting { s with timer := none } .calling
  | skip (f : Firing) : s.active = false → f.isUnderWay = true → Move s f s (.finished (.ok ()))
  | rearm (next : HourlySchedule) (result : Except Failure Unit) : s.active = true → s.Arms next →
      Move s .rearming next (.finished result)

theorem move_of_step {s next : HourlySchedule} {now : DateTime} {f f' : Firing}
    (hstep : f.step s now = some (next, f')) : f.Move s next f' := by
  cases f with
  | starting =>
      by_cases hactive : s.active = true
      · rw [step, if_pos hactive, Option.some.injEq, Prod.mk.injEq] at hstep
        obtain ⟨rfl, rfl⟩ := hstep
        exact .begin hactive
      · rw [step, if_neg hactive, Option.some.injEq, Prod.mk.injEq] at hstep
        obtain ⟨rfl, rfl⟩ := hstep
        exact .skip _ (Bool.not_eq_true _ ▸ hactive) rfl
  | rearming =>
      by_cases hactive : s.active = true
      · rw [step, if_pos hactive] at hstep
        cases harm : s.arm now with
        | mk armed result =>
            rw [harm, Option.some.injEq, Prod.mk.injEq] at hstep
            obtain ⟨rfl, rfl⟩ := hstep
            exact .rearm armed result hactive (HourlySchedule.arms_of_arm harm)
      · rw [step, if_neg hactive, Option.some.injEq, Prod.mk.injEq] at hstep
        obtain ⟨rfl, rfl⟩ := hstep
        exact .skip _ (Bool.not_eq_true _ ▸ hactive) rfl
  | calling | finished => simp [step] at hstep

theorem Move.active {s next : HourlySchedule} {f f' : Firing} (hmove : f.Move s next f') :
    next.active = s.active := by
  cases hmove with
  | begin hactive | skip _ hinactive hunderWay => rfl
  | rearm _ result hactive harms => cases harms <;> assumption

theorem Move.accounts {s next : HourlySchedule} {f f' : Firing} {forgotten : List Nat}
    (hmove : f.Move s next f') (hs : s.Accounts forgotten) :
    next.Accounts (forgotten ++ s.forgets f) := by
  cases hmove with
  | begin hactive => exact hs.begin hactive
  | skip _ hinactive hunderWay =>
      have hnone : s.forgets f = [] := by
        cases f <;> simp [HourlySchedule.forgets, hinactive]
      rw [hnone, List.append_nil]
      exact hs
  | rearm _ result hactive harms =>
      simpa [HourlySchedule.forgets] using hs.arms hactive harms

end Firing

/-! ## Schedules at work -/

inductive Order where
  | start
  | stop
  deriving DecidableEq, Repr

structure Clockwork where
  schedule : HourlySchedule := {}
  /-- What all timers that have expired are at, in order. -/
  firings : List Firing := []
  orders : List Order := []
  /-- The timers that the schedule lost while they ran. -/
  forgotten : List Nat := []

/-- One atomic step of something that is under way. -/
inductive Stroke where
  | start (now : DateTime)
  | stop
  | expire (timer : Nat)
  | advance (firing : Nat) (now : DateTime)
  /-- The work of a firing comes to its end. -/
  | done (firing : Nat)
  deriving DecidableEq, Repr

namespace Clockwork

def running (s : Clockwork) : List Nat :=
  s.schedule.running

/-- The schedule has been started, with whatever result. -/
def started (s : Clockwork) : HourlySchedule × Except Failure Unit → Clockwork
  | (schedule, _) => { s with schedule, orders := s.orders ++ [.start] }

/-- One step, if it can be taken. -/
def act (s : Clockwork) : Stroke → Option Clockwork
  | .start now => some (s.started (s.schedule.start now))
  | .stop => some { s with schedule := s.schedule.stop, orders := s.orders ++ [.stop] }
  | .expire t =>
    if t ∈ s.running then
      some { s with schedule := s.schedule.expire t, firings := s.firings ++ [.starting] }
    else none
  | .advance i now =>
    match s.firings[i]? with
    | none => none
    | some f => (f.step s.schedule now).map fun (schedule, next) =>
      { s with
        schedule
        firings := s.firings.set i next
        forgotten := s.forgotten ++ s.schedule.forgets f }
  | .done i =>
    match s.firings[i]? with
    | some .calling => some { s with firings := s.firings.set i Firing.calling.returned }
    | _ => none

def run (s : Clockwork) : List Stroke → Option Clockwork
  | [] => some s
  | stroke :: strokes => (s.act stroke).bind fun next => next.run strokes

/-- What can be reached when only some steps are allowed. -/
inductive Reachable (allowed : Clockwork → Stroke → Prop) : Clockwork → Prop where
  | new : Reachable allowed {}
  | act {s next : Clockwork} (stroke : Stroke) : Reachable allowed s → allowed s stroke →
      s.act stroke = some next → Reachable allowed next

def Anyhow (_ : Clockwork) (_ : Stroke) : Prop :=
  True

/-- The schedule is started only while no firing is under way. -/
def Calmly (s : Clockwork) : Stroke → Prop
  | .start _ => ∀ f ∈ s.firings, f.isUnderWay = false
  | _ => True

variable {s next : Clockwork} {stroke : Stroke}

/-- What a step does, one case for each sort of it. -/
inductive Step (s : Clockwork) : Stroke → Clockwork → Prop where
  | start (now : DateTime) (schedule : HourlySchedule) :
      HourlySchedule.Arms { s.schedule with active := true } schedule →
      Step s (.start now) { s with schedule, orders := s.orders ++ [.start] }
  | stop : Step s .stop { s with schedule := s.schedule.stop, orders := s.orders ++ [.stop] }
  | expire (t : Nat) : t ∈ s.running → Step s (.expire t)
      { s with schedule := s.schedule.expire t, firings := s.firings ++ [.starting] }
  | advance (i : Nat) (now : DateTime) (f f' : Firing) (schedule : HourlySchedule) :
      s.firings[i]? = some f → f.Move s.schedule schedule f' → Step s (.advance i now)
      { s with
        schedule
        firings := s.firings.set i f'
        forgotten := s.forgotten ++ s.schedule.forgets f }
  | done (i : Nat) : s.firings[i]? = some .calling →
      Step s (.done i) { s with firings := s.firings.set i .rearming }

theorem step_of_act (hact : s.act stroke = some next) : s.Step stroke next := by
  cases stroke with
  | start now =>
      cases hstart : s.schedule.start now with
      | mk schedule result =>
          rw [act, hstart] at hact
          obtain rfl := Option.some.inj hact
          exact .start now schedule (HourlySchedule.arms_of_start hstart)
  | stop =>
      obtain rfl := Option.some.inj hact
      exact .stop
  | expire t =>
      simp only [act] at hact
      split at hact
      · rename_i hrunning
        obtain rfl := Option.some.inj hact
        exact .expire t hrunning
      · contradiction
  | advance i now =>
      cases hf : s.firings[i]? with
      | none => simp [act, hf] at hact
      | some f =>
          simp only [act, hf, Option.map_eq_some_iff, Prod.exists] at hact
          obtain ⟨schedule, f', hstep, rfl⟩ := hact
          exact .advance i now f f' schedule hf (Firing.move_of_step hstep)
  | done i =>
      simp only [act] at hact
      split at hact
      · rename_i hf
        obtain rfl := Option.some.inj hact
        exact .done i hf
      · contradiction

/-! ## Every timer is accounted for -/

structure Sound (s : Clockwork) : Prop where
  accounts : s.schedule.Accounts s.forgotten
  active : s.schedule.active = true ↔ s.orders.getLast? = some .start

theorem new_sound : Sound {} := by
  constructor
  case accounts => constructor <;> simp [HourlySchedule.running]
  case active => simp

theorem Sound.step (hs : s.Sound) (hstep : s.Step stroke next) : next.Sound := by
  cases hstep with
  | start now schedule harms =>
      obtain ⟨haccounts, hactive⟩ := hs.accounts.start harms
      exact ⟨haccounts, by simp [hactive]⟩
  | stop =>
      refine ⟨hs.accounts.stop, ?_⟩
      simp [HourlySchedule.stop]
  | expire t hrunning => exact ⟨hs.accounts.expire t, hs.active⟩
  | advance i now f f' schedule hf hmove =>
      refine ⟨hmove.accounts hs.accounts, ?_⟩
      rw [hmove.active]
      exact hs.active
  | done i hf => exact ⟨hs.accounts, hs.active⟩

theorem Reachable.sound {allowed : Clockwork → Stroke → Prop} (hreach : Reachable allowed s) :
    s.Sound := by
  induction hreach with
  | new => exact new_sound
  | act stroke _ _ hact ih => exact ih.step (step_of_act hact)

/-! ## One chain of timers -/

/-- There is one chain of timers. -/
structure OneChain (s : Clockwork) : Prop where
  alone : s.running.length ≤ 1
  known : ∀ t ∈ s.running, s.schedule.timer = some t
  /-- Nothing runs after the schedule was stopped and not started since. -/
  stopped : s.orders.getLast? = some .stop → s.running = []

theorem Sound.oneChain_iff (hs : s.Sound) : s.OneChain ↔ ∀ t ∈ s.forgotten, t ∉ s.running := by
  constructor
  · intro hchain t hforgotten hrunning
    exact hs.accounts.apart t hforgotten (hchain.known t hrunning)
  · intro hforgotten
    have hknown : ∀ t ∈ s.running, s.schedule.timer = some t := by
      intro t ht
      exact (hs.accounts.known t ht).resolve_right fun hmem => hforgotten t hmem ht
    constructor
    case alone =>
      have hsubset : s.running ⊆ s.schedule.timer.toList :=
        fun t ht => Option.mem_toList.mpr (hknown t ht)
      refine (List.subperm_of_subset hs.accounts.nodup hsubset).length_le.trans ?_
      cases s.schedule.timer <;> simp
    case known => exact hknown
    case stopped =>
      intro hstop
      have hinactive : s.schedule.active = false := by
        rw [← Bool.not_eq_true, hs.active, hstop]
        simp
      apply List.eq_nil_iff_forall_not_mem.mpr
      intro t ht
      have htimer := hknown t ht
      rw [hs.accounts.inactive hinactive] at htimer
      contradiction

/-! ## Calm schedules -/

/-- Either a timer runs or a firing is under way, and nothing was forgotten. -/
structure Calm (s : Clockwork) : Prop where
  single : s.running.length + s.firings.countP Firing.isUnderWay ≤ 1
  remembered : s.forgotten = []

/-- Every timer that runs is stopped by arming. -/
theorem Calm.stops (hs : s.Calm) (hsound : s.Sound) :
    s.running.filter (s.schedule.timer ≠ some ·) = [] := by
  apply List.filter_eq_nil_iff.mpr
  intro t ht
  have hknown := hsound.accounts.known t ht
  rw [hs.remembered] at hknown
  simpa using hknown

theorem length_running_of_arms {schedule after : HourlySchedule} (harms : schedule.Arms after)
    (hstops : schedule.running.filter (schedule.timer ≠ some ·) = []) :
    after.running.length ≤ 1 := by
  cases harms with
  | ended hactive htimer hstarted hrunning =>
      rw [hrunning, hstops]
      exact Nat.zero_le 1
  | armed hactive htimer hstarted hrunning =>
      rw [hrunning, hstops]
      exact le_refl 1

/-- While a firing is under way no timer runs. -/
theorem Calm.advance (hs : s.Calm) {i : Nat} {f f' : Firing} {schedule : HourlySchedule}
    (hf : s.firings[i]? = some f) (hmove : f.Move s.schedule schedule f') :
    Calm { s with
      schedule
      firings := s.firings.set i f'
      forgotten := s.forgotten ++ s.schedule.forgets f } := by
  obtain ⟨others, hbefore, hafter⟩ := Dispatch.exists_perm_set hf
  have hunderWay : f.isUnderWay = true := by
    cases hmove with
    | begin | rearm => rfl
    | skip _ hinactive hunderWay => exact hunderWay
  have hsingle := hs.single
  rw [hbefore.countP_eq, List.countP_cons, if_pos hunderWay] at hsingle
  have hnone : s.schedule.running = [] := by
    apply List.length_eq_zero_iff.mp
    change s.running.length = 0
    omega
  have hidle : others.countP Firing.isUnderWay = 0 := by omega
  have hforgets : s.schedule.forgets f = [] := by
    cases f <;> simp [HourlySchedule.forgets, hnone]
  refine ⟨?_, by rw [hforgets, List.append_nil, hs.remembered]⟩
  rw [(hafter f').countP_eq, List.countP_cons, hidle]
  change schedule.running.length + _ ≤ 1
  cases hmove with
  | begin hactive =>
      have hrunning : HourlySchedule.running { s.schedule with timer := none } = [] := hnone
      simp [hrunning, Firing.isUnderWay]
  | skip _ hinactive _ => simp [hnone, Firing.isUnderWay]
  | rearm _ result hactive harms =>
      have hone := length_running_of_arms harms (by rw [hnone, List.filter_nil])
      simpa [Firing.isUnderWay] using hone

theorem Calm.step (hs : s.Calm) (hsound : s.Sound) (hcalm : Calmly s stroke)
    (hstep : s.Step stroke next) : next.Calm := by
  have hsingle := hs.single
  cases hstep with
  | start now schedule harms =>
      have hidle : s.firings.countP Firing.isUnderWay = 0 := by
        rw [List.countP_eq_zero]
        intro f hf
        simp [hcalm f hf]
      have hone := length_running_of_arms harms (hs.stops hsound)
      exact ⟨by simpa [running, hidle] using hone, hs.remembered⟩
  | stop =>
      have hfewer : s.schedule.stop.running.length ≤ s.running.length := by
        rw [HourlySchedule.running_stop]
        exact List.length_filter_le _ _
      exact ⟨(Nat.add_le_add_right hfewer _).trans hsingle, hs.remembered⟩
  | expire t ht =>
      have hfewer : (s.schedule.expire t).running.length < s.running.length := by
        rw [HourlySchedule.running_expire]
        exact List.length_filter_lt_length_iff_exists.mpr ⟨t, ht, by simp⟩
      have hmore : (s.firings ++ [Firing.starting]).countP Firing.isUnderWay =
          s.firings.countP Firing.isUnderWay + 1 := List.countP_append
      refine ⟨?_, hs.remembered⟩
      rw [hmore]
      change (s.schedule.expire t).running.length + _ ≤ 1
      omega
  | advance i now f f' schedule hf hmove => exact hs.advance hf hmove
  | done i hf =>
      obtain ⟨others, hbefore, hafter⟩ := Dispatch.exists_perm_set hf
      refine ⟨?_, hs.remembered⟩
      rw [hbefore.countP_eq] at hsingle
      rw [(hafter _).countP_eq]
      exact hsingle

theorem Reachable.calm (hreach : Reachable Calmly s) : s.Calm := by
  induction hreach with
  | new => exact ⟨by simp [running, HourlySchedule.running], rfl⟩
  | act stroke hreach hcalm hact ih => exact ih.step hreach.sound hcalm (step_of_act hact)

/-- There is one chain of timers exactly as long as no timer runs that the schedule forgot, and the
schedule forgets none if it is started only while no firing is under way. -/
theorem reachable_oneChain_iff (hreach : Reachable Anyhow s) :
    (s.OneChain ↔ ∀ t ∈ s.forgotten, t ∉ s.running) ∧
      (Reachable Calmly s → s.forgotten = [] ∧ s.OneChain) := by
  refine ⟨hreach.sound.oneChain_iff, fun hcalm => ?_⟩
  have hremembered := hcalm.calm.remembered
  refine ⟨hremembered, hreach.sound.oneChain_iff.mpr ?_⟩
  simp [hremembered]

theorem Reachable.of_run {allowed : Clockwork → Stroke → Prop} {strokes : List Stroke}
    (hreach : Reachable allowed s) (hallowed : ∀ stroke ∈ strokes, ∀ s, allowed s stroke)
    (hrun : s.run strokes = some next) : Reachable allowed next := by
  induction strokes generalizing s with
  | nil =>
      obtain rfl := Option.some.inj hrun
      exact hreach
  | cons stroke strokes ih =>
      obtain ⟨middle, hact, hrest⟩ := Option.bind_eq_some_iff.mp hrun
      exact ih (.act stroke hreach (hallowed stroke List.mem_cons_self s) hact)
        (fun other hother => hallowed other (List.mem_cons_of_mem stroke hother)) hrest

def beforeEleven : DateTime :=
  ⟨⟨2024, 1, 1⟩, 10, 59, 30, 0⟩

/-- Two hours: in the second one the schedule is stopped while the work is done. -/
def twoHours : List Stroke :=
  [.expire 0, .advance 0 beforeEleven, .done 0, .advance 0 beforeEleven, .expire 1,
    .advance 1 beforeEleven, .stop, .done 1, .advance 1 beforeEleven]

theorem reachable_oneChain_iff_twoHours :
    ∃ s, run {} (.start beforeEleven :: twoHours) = some s ∧ s.orders = [.start, .stop] ∧
      s.schedule.started = 2 ∧ s.OneChain ∧ s.running = [] := by
  have hruns : (run {} (.start beforeEleven :: twoHours)).map (fun s =>
      (s.orders, s.schedule.started)) = some ([.start, .stop], 2) := by
    decide +kernel
  obtain ⟨s, hrun, hfacts⟩ := Option.map_eq_some_iff.mp hruns
  obtain ⟨horders, hstarted⟩ := Prod.mk.inj hfacts
  obtain ⟨first, hfirst, hrest⟩ := Option.bind_eq_some_iff.mp hrun
  have hcalm : Reachable Calmly s := by
    refine .of_run (.act _ .new (by simp [Calmly]) hfirst) ?_ hrest
    simp [twoHours, Calmly]
  have hreach : Reachable Anyhow s := .of_run .new (fun _ _ _ => trivial) hrun
  obtain ⟨-, hchain⟩ := (reachable_oneChain_iff hreach).2 hcalm
  exact ⟨s, hrun, horders, hstarted, hchain, hchain.stopped (by simp [horders])⟩

/-- The schedule is started again when its timer has expired and the firing has not begun. -/
def startedTwice : List Stroke :=
  [.start beforeEleven, .expire 0, .start beforeEleven, .advance 0 beforeEleven, .done 0,
    .advance 0 beforeEleven]

/-- Two timers run, the schedule knows one of them, and the other runs on after it was stopped. -/
theorem oneChain_breaks :
    (∃ s, run {} startedTwice = some s ∧ s.running = [1, 2] ∧ s.schedule.timer = some 2 ∧
      ¬ s.OneChain) ∧
    ∃ s, run {} (startedTwice ++ [.stop]) = some s ∧ s.orders.getLast? = some .stop ∧
      s.running = [1] ∧ ¬ s.OneChain := by
  have hruns : (run {} startedTwice).map (fun s => (s.running, s.schedule.timer)) =
      some ([1, 2], some 2) := by
    decide +kernel
  have hstops : (run {} (startedTwice ++ [.stop])).map (fun s => (s.orders.getLast?, s.running)) =
      some (some .stop, [1]) := by
    decide +kernel
  obtain ⟨s, hrun, hfacts⟩ := Option.map_eq_some_iff.mp hruns
  obtain ⟨hrunning, htimer⟩ := Prod.mk.inj hfacts
  obtain ⟨last, hlast, hfacts⟩ := Option.map_eq_some_iff.mp hstops
  obtain ⟨horders, hstill⟩ := Prod.mk.inj hfacts
  refine ⟨⟨s, hrun, hrunning, htimer, fun hchain => ?_⟩, last, hlast, horders, hstill,
    fun hchain => ?_⟩
  · have halone := hchain.alone
    simp [hrunning] at halone
  · have hnone := hchain.stopped horders
    simp [hstill] at hnone

end Clockwork

end DiskCatalog.Refresh

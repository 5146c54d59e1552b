import DiskCatalog.Proofs.Refresh.Tenure

/-!
# Calls for the shared coordinator

`Caller` is a call that makes, replaces or closes the shared coordinator, with its first build and
with the closing that it does.  `Caller.step` is one step of it, `Caller.Move` says what such a step
can do, and `Caller.Fits` what its coordinator is like meanwhile.

One call at most holds the shared place while it builds.  A call changes what is shared in one step,
and from then on it only closes what it has taken out.
-/

namespace DiskCatalog.Refresh

open Store Index

/-- A call has changed which coordinator is shared. -/
structure Handover where
  caller : Nat
  before : Option Nat
  after : Option Nat
  deriving DecidableEq, Repr

/-- Only a fault of files keeps an observer from starting, and the calendar goes on for an hour. -/
def Surroundings.AreUsual (around : Surroundings) : Prop :=
  (∀ failure, around.refusal = some failure → failure.kind.isFileFault = true) ∧
    around.now.secondsToNextHour.isOk = true

/-- A call with its first build and with the closing that it does. -/
structure Caller where
  call : Call
  stage : CallStage
  build : Trigger := .first
  closing : Closing := .marking

namespace Caller

def start (call : Call) : Caller where
  call := call
  stage := call.start

def moveTo (u : Caller) (stage : CallStage) : Caller where
  call := u.call
  stage := stage

/-- The coordinator that a call has made and has not handed over. -/
def made? (u : Caller) : Option Nat :=
  match u.stage with
  | .building i _ | .starting i _ | .registering i => some i
  | _ => none

/-- The coordinator that a call has taken out and closes. -/
def closes? (u : Caller) : Option Nat :=
  match u.stage with
  | .closing i _ => some i
  | _ => none

/-- The coordinator that a call has, in whatever way. -/
def place? (u : Caller) : Option Nat :=
  match u.stage with
  | .building i _ | .starting i _ | .registering i | .closing i _ => some i
  | _ => none

/-- Whether a call has still to begin. -/
def IsFresh (u : Caller) : Prop :=
  u.stage = .preparing ∨ u.stage = .waiting

/-- Whether a call holds the place of the shared coordinator. -/
def isHolding (u : Caller) : Bool :=
  match u.call with
  | .get => u.made?.isSome
  | _ => false

/-- One step of a call, of its first build or of the closing that it does. -/
def step (r : Registry) (around : Surroundings) (u : Caller) : Option (Registry × Caller) :=
  match u.stage with
  | .building i _ =>
    match u.build.result? with
    | some result =>
      let (r, stage) := Call.built r u.call u.stage result
      some (r, u.moveTo stage)
    | none => (r.coordinators[i]?).bind fun c =>
      (u.build.step (c.keeper.setClock around.utc) around.disk).map fun (keeper, build, _) =>
        (r.modify i fun _ => c.withKeeper keeper, { u with build })
  | .closing i result => (r.coordinators[i]?).map fun c =>
    (r.modify i fun _ => (c.stepClose u.closing).1,
      match (c.stepClose u.closing).2 with
      | some closing => { u with closing }
      | none => u.moveTo (.finished (.ok result)))
  | stage => (Call.step r around u.call stage).map fun (r, stage, _) => (r, u.moveTo stage)

/-- What a call is like that goes its regular way. -/
def IsRegular (u : Caller) : Prop :=
  match u.call with
  | .init .. => True
  | .get => ∀ i s, u.stage ≠ .building i (some s) ∧ u.stage ≠ .starting i (some s)
  | .close => u.made? = none

/-- What the coordinator of a call is like at each stage. -/
def Fits (u : Caller) (c : Coordinator) : Prop :=
  match u.stage with
  | .building .. => c.slot.closed = false ∧ u.build.request = .first ∧ u.build.Opens c.slot
  | .starting .. | .registering _ => c.IsServing
  | .closing .. => c.Reached u.closing
  | _ => True

/-- What a step of a call does to the coordinators and to itself. -/
inductive Move (r : Registry) (u : Caller) : Registry → Caller → Prop where
  | refuse (failure : Failure) : u.IsFresh →
      Move r u r (u.moveTo (.finished (.error failure)))
  | find (i : Nat) : u.IsFresh → r.registered = some i →
      Move r u r (u.moveTo (.finished (.ok (some i))))
  | make (settings : Option Settings) (plan : Plan) (background : Option Settings) (held : Bool) :
      u.IsFresh → u.call ≠ .close →
      (u.call = .get → r.held = false ∧ r.registered = none ∧ background = none ∧ held = true) →
      (u.call ≠ .get → held = r.held) →
      Move r u { r with settings, coordinators := r.coordinators.push (.ofPlan plan), held }
        (u.moveTo (.building r.coordinators.size background))
  | takeOut : u.call = .close → u.IsFresh → r.held = false →
      Move r u { r with registered := none }
        (u.moveTo (r.registered.elim (.finished (.ok none)) fun i => .closing i none))
  | build (i : Nat) (background : Option Settings) (c : Coordinator) (around : Surroundings)
      (k : Keeper) (t : Trigger) : u.stage = .building i background → r.coordinators[i]? = some c →
      u.build.Move around.disk (c.keeper.setClock around.utc) k t →
      Move r u (r.modify i fun _ => c.withKeeper k) { u with build := t }
  | built (i : Nat) (background : Option Settings) (rebuilt : Rebuilt) :
      u.stage = .building i background → u.build.stage = .finished (.ok rebuilt) →
      Move r u r (u.moveTo (.starting i background))
  | fail (i : Nat) (background : Option Settings) (failure : Failure) (held : Bool) :
      u.stage = .building i background → u.build.stage = .finished (.error failure) →
      (u.call = .get → held = false) → (u.call ≠ .get → held = r.held) →
      Move r u { r with held } (u.moveTo (.finished (.error failure)))
  | skip (i : Nat) : u.stage = .starting i none → Move r u r (u.moveTo (.registering i))
  | background (i : Nat) (settings : Settings) (c c' : Coordinator) :
      u.stage = .starting i (some settings) → r.coordinators[i]? = some c →
      c'.keeper = c.keeper → c'.IsTended →
      Move r u (r.modify i fun _ => c') (u.moveTo (.registering i))
  | register (i : Nat) (held : Bool) : u.stage = .registering i →
      (u.call = .get → held = false) → (u.call ≠ .get → r.held = false ∧ held = false) →
      Move r u { r with registered := some i, held }
        (u.moveTo (r.registered.elim (.finished (.ok (some i))) fun previous =>
          .closing previous (some i)))
  | close (i : Nat) (result : Option Nat) (c : Coordinator) (closing : Closing) :
      u.stage = .closing i result → r.coordinators[i]? = some c →
      (c.stepClose u.closing).2 = some closing →
      Move r u (r.modify i fun _ => (c.stepClose u.closing).1) { u with closing }
  | closed (i : Nat) (result : Option Nat) (c : Coordinator) :
      u.stage = .closing i result → r.coordinators[i]? = some c →
      (c.stepClose u.closing).2 = none →
      Move r u (r.modify i fun _ => (c.stepClose u.closing).1) (u.moveTo (.finished (.ok result)))

variable {r r' : Registry} {u u' : Caller} {around : Surroundings}

theorem readSettings_eq_ok {settings : Settings} {logs : List Log.Record}
    (hread : r.readSettings = .ok (r', settings, logs)) :
    ∃ known, r' = { r with settings := known } := by
  unfold Registry.readSettings at hread
  cases hknown : r.settings with
  | some known =>
      simp only [hknown, Except.ok.injEq, Prod.mk.injEq] at hread
      exact ⟨r.settings, hread.1.symm⟩
  | none =>
      simp only [hknown, bind_eq_ok_iff, Except.ok.injEq, Prod.mk.injEq] at hread
      obtain ⟨loaded, -, rfl, -, -⟩ := hread
      exact ⟨_, rfl⟩

/-- A call makes a coordinator, or it cannot read the settings for one. -/
theorem prepare_cases {settings : Option Settings} {background : Bool} {stage : CallStage}
    {logs : List Log.Record}
    (hprepare : Call.prepare r settings background = (r', stage, logs)) :
    (∃ failure, r' = r ∧ stage = .finished (.error failure)) ∨
    (∃ known plan later, r' = { r with
      settings := known, coordinators := r.coordinators.push (.ofPlan plan) } ∧
      stage = .building r.coordinators.size later ∧ (background = false → later = none)) := by
  unfold Call.prepare at hprepare
  cases hread : (settings.elim r.readSettings fun s => .ok (r, s, [])) with
  | error failure =>
      simp only [hread, Prod.mk.injEq] at hprepare
      exact Or.inl ⟨failure, hprepare.1.symm, hprepare.2.1.symm⟩
  | ok read =>
      obtain ⟨middle, known, more⟩ := read
      have hmiddle : ∃ known, middle = { r with settings := known } := by
        cases settings with
        | none => exact readSettings_eq_ok hread
        | some given =>
            simp only [Option.elim_some, Except.ok.injEq, Prod.mk.injEq] at hread
            exact ⟨r.settings, hread.1.symm⟩
      obtain ⟨kept, rfl⟩ := hmiddle
      simp only [hread, Registry.add, Prod.mk.injEq] at hprepare
      obtain ⟨rfl, rfl, -⟩ := hprepare
      exact Or.inr ⟨kept, _, _, rfl, rfl, fun hnone => by simp [hnone]⟩

/-- A call that is to make a coordinator makes it. -/
theorem move_of_preparing {call : Call} {build : Trigger} {closing : Closing}
    (hstep : step r around ⟨call, .preparing, build, closing⟩ = some (r', u')) :
    Move r ⟨call, .preparing, build, closing⟩ r' u' := by
  cases call with
  | init settings background =>
      obtain ⟨middle, later, logs, hprepare⟩ : ∃ middle later logs,
        Call.prepare r settings background = (middle, later, logs) := ⟨_, _, _, rfl⟩
      simp only [step, Call.step, hprepare, Option.map_some, Option.some.injEq,
        Prod.mk.injEq] at hstep
      obtain ⟨rfl, rfl⟩ := hstep
      rcases prepare_cases hprepare with ⟨failure, rfl, rfl⟩ | ⟨known, plan, later, rfl, rfl, -⟩
      · exact .refuse failure (Or.inl rfl)
      · exact .make known plan later r.held (Or.inl rfl) (by simp) (by simp) fun _ => rfl
  | get | close => simp [step, Call.step] at hstep

/-- A call that waits for the shared place finds it, empties it or holds it. -/
theorem move_of_waiting {call : Call} {build : Trigger} {closing : Closing}
    (hstep : step r around ⟨call, .waiting, build, closing⟩ = some (r', u')) :
    Move r ⟨call, .waiting, build, closing⟩ r' u' := by
  by_cases hheld : r.held = true
  · cases call <;> simp [step, Call.step, hheld] at hstep
  · have hfree : r.held = false := Bool.not_eq_true _ ▸ hheld
    cases call with
    | init settings background => simp [step, Call.step] at hstep
    | get =>
        cases hregistered : r.registered with
        | some i =>
            simp only [step, Call.step, if_neg hheld, hregistered, Option.map_some,
              Option.some.injEq, Prod.mk.injEq] at hstep
            obtain ⟨rfl, rfl⟩ := hstep
            exact .find i (Or.inr rfl) hregistered
        | none =>
            obtain ⟨middle, later, logs, hprepare⟩ : ∃ middle later logs,
              Call.prepare r none false = (middle, later, logs) := ⟨_, _, _, rfl⟩
            simp only [step, Call.step, if_neg hheld, hregistered, hprepare] at hstep
            rcases prepare_cases hprepare with
              ⟨failure, rfl, rfl⟩ | ⟨known, plan, background, rfl, rfl, hbackground⟩
            · simp only [Option.map_some, Option.some.injEq, Prod.mk.injEq] at hstep
              obtain ⟨rfl, rfl⟩ := hstep
              exact .refuse failure (Or.inr rfl)
            · simp only [Option.map_some, Option.some.injEq, Prod.mk.injEq] at hstep
              obtain ⟨rfl, rfl⟩ := hstep
              exact .make known plan background true (Or.inr rfl) (by simp)
                (fun _ => ⟨hfree, hregistered, hbackground rfl, rfl⟩) (by simp)
    | close =>
        simp only [step, Call.step, if_neg hheld, Option.map_some, Option.some.injEq,
          Prod.mk.injEq] at hstep
        obtain ⟨rfl, rfl⟩ := hstep
        exact .takeOut rfl (Or.inr rfl) hfree

/-- A call that builds goes on building, or it goes by the result. -/
theorem move_of_building {call : Call} {build : Trigger} {closing : Closing} {i : Nat}
    {background : Option Settings} {c : Coordinator} (hc : r.coordinators[i]? = some c)
    (hstep : step r around ⟨call, .building i background, build, closing⟩ = some (r', u')) :
    Move r ⟨call, .building i background, build, closing⟩ r' u' := by
  cases hresult : build.result? with
  | none =>
      simp only [step, hresult, hc, Option.bind_some, Option.map_eq_some_iff, Prod.exists,
        Prod.mk.injEq] at hstep
      obtain ⟨k, t, logs, hbuild, rfl, rfl⟩ := hstep
      exact .build i background c around k t rfl hc (Trigger.move_of_step hbuild)
  | some result =>
      have hfinished : build.stage = .finished result := by
        unfold Trigger.result? at hresult
        split at hresult
        · rename_i other hstage
          rw [hstage, Option.some.inj hresult]
        · contradiction
      simp only [step, hresult, Option.some.injEq, Prod.mk.injEq] at hstep
      obtain ⟨rfl, rfl⟩ := hstep
      cases result with
      | ok rebuilt => exact .built i background rebuilt rfl hfinished
      | error failure =>
          cases call with
          | get => exact .fail i background failure false rfl hfinished (fun _ => rfl) (by simp)
          | init | close =>
              exact .fail i background failure r.held rfl hfinished (by simp) fun _ => rfl

/-- Background work is started, for a coordinator that is to have it. -/
theorem move_of_starting {call : Call} {build : Trigger} {closing : Closing} {i : Nat}
    {background : Option Settings} {c : Coordinator} (hc : r.coordinators[i]? = some c)
    (htended : c.IsTended) (husual : around.AreUsual)
    (hstep : step r around ⟨call, .starting i background, build, closing⟩ = some (r', u')) :
    Move r ⟨call, .starting i background, build, closing⟩ r' u' := by
  cases background with
  | none =>
      have hskip : (r', u') =
          (r, moveTo ⟨call, .starting i none, build, closing⟩ (.registering i)) := by
        cases call <;> simpa [step, Call.step, eq_comm] using hstep
      obtain ⟨rfl, rfl⟩ := Prod.mk.inj hskip
      exact .skip i rfl
  | some settings =>
      obtain ⟨hok, hkeeper, hlater⟩ := Call.startBackground_ok settings htended husual.1
        husual.2
      have hstart : (r', u') = (r.modify i fun _ => (Call.startBackground c settings around).1,
          moveTo ⟨call, .starting i (some settings), build, closing⟩ (.registering i)) := by
        cases call <;> simpa [step, Call.step, hc, hok, eq_comm] using hstep
      obtain ⟨rfl, rfl⟩ := Prod.mk.inj hstart
      exact .background i settings c _ rfl hc hkeeper hlater

/-- A coordinator is put into the shared place.  A call that held this finds it empty. -/
theorem move_of_registering {call : Call} {build : Trigger} {closing : Closing} {i : Nat}
    (hregular : IsRegular ⟨call, .registering i, build, closing⟩)
    (hholding : isHolding ⟨call, .registering i, build, closing⟩ = true → r.registered = none)
    (hstep : step r around ⟨call, .registering i, build, closing⟩ = some (r', u')) :
    Move r ⟨call, .registering i, build, closing⟩ r' u' := by
  cases call with
  | get =>
      have hnone : r.registered = none := hholding rfl
      simp only [step, Call.step, Option.map_some, Option.some.injEq, Prod.mk.injEq] at hstep
      obtain ⟨rfl, rfl⟩ := hstep
      have hmove : Move r ⟨.get, .registering i, build, closing⟩ _ _ :=
        .register i false rfl (fun _ => rfl) (by simp)
      simpa [hnone] using hmove
  | init settings background =>
      by_cases hheld : r.held = true
      · simp [step, Call.step, hheld] at hstep
      · have hfree : r.held = false := Bool.not_eq_true _ ▸ hheld
        simp only [step, Call.step, if_neg hheld, Option.map_some, Option.some.injEq,
          Prod.mk.injEq] at hstep
        obtain ⟨rfl, rfl⟩ := hstep
        exact .register i r.held rfl (by simp) fun _ => ⟨hfree, hfree⟩
  | close => simp [IsRegular, made?] at hregular

theorem move_of_step (hstep : u.step r around = some (r', u')) (husual : around.AreUsual)
    (hplaced : ∀ i, u.place? = some i → ∃ c, r.coordinators[i]? = some c ∧ c.IsTended)
    (hregular : u.IsRegular) (hholding : u.isHolding = true → r.registered = none) :
    u.Move r r' u' := by
  obtain ⟨call, stage, build, closing⟩ := u
  cases stage with
  | preparing => exact move_of_preparing hstep
  | waiting => exact move_of_waiting hstep
  | building i background =>
      obtain ⟨c, hc, -⟩ := hplaced i rfl
      exact move_of_building hc hstep
  | starting i background =>
      obtain ⟨c, hc, htended⟩ := hplaced i rfl
      exact move_of_starting hc htended husual hstep
  | registering i => exact move_of_registering hregular hholding hstep
  | closing i result =>
      obtain ⟨c, hc, -⟩ := hplaced i rfl
      simp only [step, hc, Option.map_some, Option.some.injEq, Prod.mk.injEq] at hstep
      obtain ⟨rfl, rfl⟩ := hstep
      cases hlater : (c.stepClose closing).2 with
      | some later => exact .close i result c later rfl hc hlater
      | none => exact .closed i result c rfl hc hlater
  | finished result => cases call <;> simp [step, Call.step] at hstep

/-! ## The shared place -/

theorem Move.call_eq (hmove : u.Move r r' u') : u'.call = u.call := by
  cases hmove <;> rfl

theorem IsFresh.place? (hfresh : u.IsFresh) : u.place? = none ∧ u.made? = none := by
  rcases hfresh with hstage | hstage <;> simp [Caller.place?, made?, hstage]

theorem isHolding_of_get (hget : u.call = .get) : u.isHolding = u.made?.isSome := by
  simp [isHolding, hget]

theorem isHolding_of_ne (hother : u.call ≠ .get) : u.isHolding = false := by
  unfold isHolding
  split
  · contradiction
  · rfl

/-- A step leaves the hold of the shared place alone, or it takes it or gives it back. -/
theorem Move.turn (hmove : u.Move r r' u') :
    (u'.isHolding = u.isHolding ∧ r'.held = r.held ∧
      (r.held = true → r'.registered = r.registered)) ∨
    (r.held = false ∧ u.isHolding = false ∧ u'.isHolding = true ∧ r'.held = true ∧
      r'.registered = none) ∨
    (u.isHolding = true ∧ u'.isHolding = false ∧ r'.held = false) := by
  by_cases hget : u.call = .get
  · rw [isHolding_of_get hget, isHolding_of_get (hmove.call_eq.trans hget)]
    cases hmove with
    | refuse failure hfresh =>
        exact Or.inl ⟨by rw [hfresh.place?.2]; rfl, rfl, fun _ => rfl⟩
    | find i hfresh hregistered =>
        exact Or.inl ⟨by rw [hfresh.place?.2]; rfl, rfl, fun _ => rfl⟩
    | make settings plan background held hfresh hopener hfirst hother =>
        obtain ⟨hfree, hnone, -, rfl⟩ := hfirst hget
        exact Or.inr (Or.inl ⟨hfree, by rw [hfresh.place?.2]; rfl, rfl, rfl, hnone⟩)
    | takeOut hclose hfresh hfree => simp [hget] at hclose
    | build i background c around k t hstage hc hbuild => exact Or.inl ⟨rfl, rfl, fun _ => rfl⟩
    | built i background rebuilt hstage hbuild =>
        exact Or.inl ⟨by simp [made?, moveTo, hstage], rfl, fun _ => rfl⟩
    | fail i background failure held hstage hbuild hfirst hother =>
        exact Or.inr (Or.inr ⟨by simp [made?, hstage], rfl, hfirst hget⟩)
    | skip i hstage => exact Or.inl ⟨by simp [made?, moveTo, hstage], rfl, fun _ => rfl⟩
    | background i settings c c' hstage hc hkeeper htended =>
        exact Or.inl ⟨by simp [made?, moveTo, hstage], rfl, fun _ => rfl⟩
    | register i held hstage hfirst hother =>
        refine Or.inr (Or.inr ⟨by simp [made?, hstage], ?_, hfirst hget⟩)
        cases r.registered <;> rfl
    | close i result c closing hstage hc hlater => exact Or.inl ⟨rfl, rfl, fun _ => rfl⟩
    | closed i result c hstage hc hlater =>
        exact Or.inl ⟨by simp [made?, moveTo, hstage], rfl, fun _ => rfl⟩
  · have hnext : u'.call ≠ .get := hmove.call_eq ▸ hget
    refine Or.inl ⟨by rw [isHolding_of_ne hget, isHolding_of_ne hnext], ?_⟩
    cases hmove with
    | make settings plan background held hfresh hopener hfirst hother =>
        exact ⟨hother hget, fun _ => rfl⟩
    | takeOut hclose hfresh hfree => exact ⟨rfl, fun hheld => by simp [hfree] at hheld⟩
    | fail i background failure held hstage hbuild hfirst hother =>
        exact ⟨hother hget, fun _ => rfl⟩
    | register i held hstage hfirst hother =>
        obtain ⟨hfree, hstill⟩ := hother hget
        exact ⟨hstill.trans hfree.symm, fun hheld => by simp [hfree] at hheld⟩
    | refuse | find | build | built | skip | background | close | closed =>
        exact ⟨rfl, fun _ => rfl⟩

theorem Move.isRegular (hmove : u.Move r r' u') (hregular : u.IsRegular) : u'.IsRegular := by
  obtain ⟨call, stage, first, closing⟩ := u
  cases call with
  | init settings background =>
      have hcall := hmove.call_eq
      simp [IsRegular, hcall]
  | get =>
      have hcall := hmove.call_eq
      simp only [IsRegular, hcall] at hregular ⊢
      intro i s
      cases hmove with
      | make settings plan background held hfresh hopener hfirst hother =>
          obtain ⟨-, -, rfl, -⟩ := hfirst rfl
          simp [moveTo]
      | build j background c around k t hstage hc hbuild => exact hregular i s
      | built j background rebuilt hstage hbuild =>
          refine ⟨by simp [moveTo], fun hstarting => (hregular j s).1 ?_⟩
          obtain ⟨rfl, rfl⟩ := CallStage.starting.inj hstarting
          exact hstage
      | close j result c later hstage hc hlater => exact hregular i s
      | register j held hstage hfirst hother => cases r.registered <;> simp [moveTo]
      | takeOut hclose hfresh hfree => simp at hclose
      | refuse | find | fail | skip | background | closed => simp [moveTo]
  | close =>
      have hcall := hmove.call_eq
      simp only [IsRegular, hcall] at hregular ⊢
      cases hmove with
      | make settings plan background held hfresh hopener hfirst hother => simp at hopener
      | takeOut hclose hfresh hfree => cases r.registered <;> rfl
      | build i background c around k t hstage hc hbuild =>
          obtain rfl := hstage
          simp [made?] at hregular
      | built i background rebuilt hstage hbuild =>
          obtain rfl := hstage
          simp [made?] at hregular
      | skip i hstage =>
          obtain rfl := hstage
          simp [made?] at hregular
      | background i settings c c' hstage hc hkeeper htended =>
          obtain rfl := hstage
          simp [made?] at hregular
      | register i held hstage hfirst hother =>
          obtain rfl := hstage
          simp [made?] at hregular
      | close i result c later hstage hc hlater => exact hregular
      | refuse | find | fail | closed => rfl

/-- What a call is like that has handed over: it closes what it has taken out, or it has returned
what it has put there. -/
def HandedOver (u : Caller) (h : Handover) : Prop :=
  (u.stage = .finished (.ok h.after) ∨ ∃ i, h.before = some i ∧ u.stage = .closing i h.after) ∧
  match u.call with
  | .init .. => h.after.isSome = true
  | .get => h.before = none ∧ h.after.isSome = true
  | .close => h.after = none

/-- A call that has handed over only closes what it has taken out. -/
theorem Move.handedOver {h : Handover} (hmove : u.Move r r' u')
    (hover : u.HandedOver h) : u'.HandedOver h ∧ r'.registered = r.registered := by
  obtain ⟨hstage, hcall⟩ := hover
  rw [← hmove.call_eq] at hcall
  cases hmove with
  | close i result c closing hclosing hc hlater => exact ⟨⟨hstage, hcall⟩, rfl⟩
  | closed i result c hclosing hc hlater =>
      rcases hstage with hfinished | ⟨taken, hbefore, hstage⟩
      · simp [hclosing] at hfinished
      · obtain ⟨-, rfl⟩ := CallStage.closing.inj (hclosing.symm.trans hstage)
        exact ⟨⟨Or.inl rfl, hcall⟩, rfl⟩
  | refuse failure hfresh | find i hfresh hregistered
  | make settings plan background held hfresh hopener hfirst hother | takeOut hclose hfresh hfree =>
      rcases hfresh with hfresh | hfresh <;> simp [hfresh] at hstage
  | build i background c around keeper t hbuilding hc hbuild
  | built i background rebuilt hbuilding hbuild
  | fail i background failure held hbuilding hbuild hfirst hother =>
      simp [hbuilding] at hstage
  | skip i hstarting | background i settings c c' hstarting hc hkeeper htended =>
      simp [hstarting] at hstage
  | register i held hregistering hfirst hother => simp [hregistering] at hstage

/-- A call that changes what is shared hands over. -/
theorem Move.handsOver (hmove : u.Move r r' u') (hregular : u.IsRegular)
    (hholding : u.isHolding = true → r.registered = none) (hchange : r'.registered ≠ r.registered)
    (k : Nat) : u'.HandedOver ⟨k, r.registered, r'.registered⟩ := by
  cases hmove with
  | takeOut hclose hfresh hfree =>
      cases hregistered : r.registered with
      | none => simp [hregistered] at hchange
      | some i =>
          refine ⟨Or.inr ⟨i, rfl, rfl⟩, ?_⟩
          simp [moveTo, hclose]
  | register i held hregistering hfirst hother =>
      have hstage : ∀ before, (u.moveTo (Option.elim before (.finished (.ok (some i)))
          fun previous => .closing previous (some i))).stage = .finished (.ok (some i)) ∨
          ∃ previous, before = some previous ∧ (u.moveTo (Option.elim before
            (.finished (.ok (some i))) fun previous => .closing previous (some i))).stage =
              .closing previous (some i) := by
        intro before
        cases before with
        | none => exact Or.inl rfl
        | some previous => exact Or.inr ⟨previous, rfl, rfl⟩
      refine ⟨hstage r.registered, ?_⟩
      obtain ⟨call, stage, build, closing⟩ := u
      obtain rfl : stage = .registering i := hregistering
      cases call with
      | init settings background => rfl
      | get => exact ⟨hholding rfl, rfl⟩
      | close => simp [IsRegular, made?] at hregular
  | refuse | find | make | build | built | fail | skip | background | close | closed =>
      exact absurd rfl hchange

theorem Fits.evolves {c c' : Coordinator} (hfits : u.Fits c) (hevolves : c.Evolves c')
    (hnumber : c.slot.hasLoaded = true ∨ c'.slot.number = c.slot.number) : u.Fits c' := by
  unfold Fits at hfits ⊢
  split at hfits
  · exact ⟨hevolves.slot.closed.trans hfits.1, hfits.2.1,
      hfits.2.2.evolves hevolves.slot hnumber⟩
  · exact hevolves.isServing hfits
  · exact hevolves.isServing hfits
  · exact hevolves.reached hfits
  · trivial

/-- The first build of a call can fail at any point before it is done. -/
theorem Fits.abort {c : Coordinator} (hfits : u.Fits c) (hbuilding : u.build.isBuilding = true)
    (failure : Failure) :
    Fits { u with build := (u.build.abort failure).1 } c := by
  rw [Trigger.abort_eq hbuilding]
  unfold Fits at hfits ⊢
  cases hstage : u.stage with
  | building i background =>
      simp only [hstage] at hfits ⊢
      obtain ⟨hopen, hrequest, hopens⟩ := hfits
      have hunloaded : c.slot.hasLoaded = false := by
        unfold Trigger.isBuilding at hbuilding
        split at hbuilding
        · rename_i hbuild
          simpa [Trigger.Opens, hbuild] using hopens
        · contradiction
      refine ⟨hopen, hrequest, ?_⟩
      simpa [Trigger.Opens, Trigger.failed, Trigger.survives, hrequest] using hunloaded
  | preparing | waiting | finished => trivial
  | starting | registering | closing => simpa only [hstage] using hfits

end Caller

end DiskCatalog.Refresh

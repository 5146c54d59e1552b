import Mathlib.Tactic
import DiskCatalog.Refresh.Rebuild

/-!
# Traffic around a keeper

`Traffic` is a keeper together with everything that is under way around it: triggers, calls that
close, and readers.  `Traffic.act` is one atomic step of one of them, or a change of the catalog,
and `Traffic.Reachable` is reached from a new keeper by any order of such steps.  A trigger takes
one step for each look at the catalog, so that changes can land between any two of them; and the
clock may come to show any time.

The lists `closings` and `signatures` only record what has happened; no step looks at them.
-/

namespace DiskCatalog.Refresh

open Store Index

/-- How far a call that closes is.  Its first step, the mark that stops all publishing, is taken
when it begins. -/
inductive Closer where
  | emptying
  | retiring (generation : Option Nat)
  | finished
  deriving DecidableEq, Repr

/-- Whether a lifetime is at its end: the database of its generation is closed then. -/
def Lifetime.isOver (l : Lifetime) : Bool :=
  l.retired && l.readers == 0

structure Traffic where
  keeper : Keeper
  disk : Disk
  triggers : List Trigger := []
  closers : List Closer := []
  /-- The generation that each reader has entered. -/
  readers : List Nat := []
  /-- The generations whose databases were closed, in order. -/
  closings : List Nat := []
  /-- Every signature that the catalog has had. -/
  signatures : List Signature

def Trigger.begin (request : Request) (reason : String) (raising : Bool) : Trigger :=
  ⟨request, reason, raising, if request = .ifChanged then .checking else .waiting⟩

/-- The generation that the next step of a trigger retires. -/
def Trigger.retiree (t : Trigger) : Option Nat :=
  match t.stage with
  | .retiring generation _ => generation
  | _ => none

/-- The generations whose databases are closed when a generation has been left or retired. -/
def Slot.closedWith (s : Slot) (generation : Option Nat) : List Nat :=
  generation.toList.filter fun g => (s.built[g]?).any (·.lifetime.isOver)

/-- The signature of what a path leads to, where it can be read. -/
def signatures (path : String) (target : Target) : List Signature :=
  (readSignature path target).toOption.toList

/-- One atomic step of something that is under way. -/
inductive Action where
  /-- The path of the catalog comes to lead to something else. -/
  | change (target : Target)
  /-- The clock comes to show another time. -/
  | tick (now : Calendar.DateTime)
  | call (request : Request) (reason : String) (raising : Bool)
  | advance (trigger : Nat)
  | close
  | advanceClose (closer : Nat)
  /-- A reader enters the current generation. -/
  | enter
  /-- A reader leaves the generation that it has entered. -/
  | leave (generation : Nat)
  deriving DecidableEq, Repr

namespace Traffic

def start (path : String) (builder : Builder) (disk : Disk) : Traffic where
  keeper := { path, builder }
  disk := disk
  signatures := Refresh.signatures path (disk path)

def slot (s : Traffic) : Slot :=
  s.keeper.slot

def target (s : Traffic) : Target :=
  s.disk s.keeper.path

def withSlot (s : Traffic) (slot : Slot) : Traffic :=
  { s with keeper := { s.keeper with slot } }

/-- The same at another time. -/
def setClock (s : Traffic) (now : Calendar.DateTime) : Traffic :=
  { s with keeper := s.keeper.setClock now }

def withTrigger (s : Traffic) (i : Nat) (t : Trigger) (k : Keeper) (next : Trigger) : Traffic :=
  { s with
    keeper := k
    triggers := s.triggers.set i next
    closings := s.closings ++ k.slot.closedWith t.retiree }

def withEmptied (s : Traffic) (i : Nat) : Traffic :=
  { s.withSlot s.slot.clear.1 with closers := s.closers.set i (.retiring s.slot.clear.2) }

def withClosed (s : Traffic) (i : Nat) (generation : Option Nat) : Traffic :=
  let slot := generation.elim s.slot s.slot.retire
  { s.withSlot slot with
    closers := s.closers.set i .finished
    closings := s.closings ++ slot.closedWith generation }

def withLeft (s : Traffic) (generation : Nat) : Traffic :=
  let slot := s.slot.leave generation
  { s.withSlot slot with
    readers := s.readers.erase generation
    closings := s.closings ++ slot.closedWith (some generation) }

/-- One step, if it can be taken. -/
def act (s : Traffic) : Action → Option Traffic
  | .change target =>
    some { s with
      disk := Function.update s.disk s.keeper.path target
      signatures := s.signatures ++ Refresh.signatures s.keeper.path target }
  | .tick now => some (s.setClock now)
  | .call request reason raising =>
    some { s with triggers := s.triggers ++ [.begin request reason raising] }
  | .advance i =>
    match s.triggers[i]? with
    | none => none
    | some t => (t.step s.keeper s.disk).map fun (k, next, _) => s.withTrigger i t k next
  | .close => some { s.withSlot s.slot.shut with closers := s.closers ++ [.emptying] }
  | .advanceClose i =>
    match s.closers[i]? with
    | some .emptying => some (s.withEmptied i)
    | some (.retiring generation) => some (s.withClosed i generation)
    | _ => none
  | .enter =>
    match s.slot.enter with
    | .ok (slot, g) => some { s.withSlot slot with readers := g :: s.readers }
    | .error _ => none
  | .leave g => if g ∈ s.readers then some (s.withLeft g) else none

def run (s : Traffic) : List Action → Option Traffic
  | [] => some s
  | action :: actions => (s.act action).bind fun next => next.run actions

theorem run_append (s : Traffic) (before after : List Action) :
    s.run (before ++ after) = (s.run before).bind (·.run after) := by
  induction before generalizing s with
  | nil => rfl
  | cons action before ih =>
      simp only [List.cons_append, run, Option.bind_assoc]
      exact congrArg _ (funext ih)

/-- What can be reached when only some steps are allowed. -/
inductive Reachable (allowed : Traffic → Action → Prop) (first : Traffic) : Traffic → Prop where
  | start : Reachable allowed first first
  | act {s next : Traffic} (action : Action) : Reachable allowed first s → allowed s action →
      s.act action = some next → Reachable allowed first next

def Anyhow (_ : Traffic) (_ : Action) : Prop :=
  True

/-- A catalog changes to one with a signature that it never had. -/
def Freshly (s : Traffic) : Action → Prop
  | .change target => ∀ signature ∈ Refresh.signatures s.keeper.path target,
      signature ∉ s.signatures
  | _ => True

instance (s : Traffic) (action : Action) : Decidable (s.Freshly action) :=
  match action with
  | .change target => inferInstanceAs (Decidable (∀ signature ∈
      Refresh.signatures s.keeper.path target, signature ∉ s.signatures))
  | .tick _ | .call .. | .advance _ | .close | .advanceClose _ | .enter | .leave _ => .isTrue trivial

theorem Reachable.trans {allowed : Traffic → Action → Prop} {first s next : Traffic}
    (hreach : Reachable allowed first s) (hnext : Reachable allowed s next) :
    Reachable allowed first next := by
  induction hnext with
  | start => exact hreach
  | act action _ hallowed hact ih => exact .act action ih hallowed hact

theorem Reachable.of_run {allowed : Traffic → Action → Prop} {s next : Traffic}
    {actions : List Action} (hallowed : ∀ action ∈ actions, ∀ s, allowed s action)
    (hrun : s.run actions = some next) : Reachable allowed s next := by
  induction actions generalizing s with
  | nil =>
      simp only [run, Option.some.injEq] at hrun
      subst next
      exact .start
  | cons action actions ih =>
      simp only [run, Option.bind_eq_some_iff] at hrun
      obtain ⟨middle, hact, hrest⟩ := hrun
      have hfirst := hallowed action List.mem_cons_self s
      have hothers := fun other hother => hallowed other (List.mem_cons_of_mem action hother)
      exact Reachable.trans (.act action .start hfirst hact) (ih hothers hrest)

/-- A run with one change, which is fresh where it lands. -/
theorem Reachable.of_change {first s : Traffic} {before after : List Action} {target : Target}
    (hothers : ∀ action ∈ before ++ after, ∀ s, Freshly s action)
    (hfresh : (first.run before).any (Freshly · (.change target)))
    (hrun : first.run (before ++ .change target :: after) = some s) :
    Reachable Freshly first s := by
  rw [run_append] at hrun
  obtain ⟨middle, hbefore, hrun⟩ := Option.bind_eq_some_iff.mp hrun
  obtain ⟨changed, hact, hafter⟩ := Option.bind_eq_some_iff.mp hrun
  rw [hbefore] at hfresh
  have hreach : Reachable Freshly first middle :=
    .of_run (fun action haction => hothers action (List.mem_append_left after haction)) hbefore
  refine .trans (.act _ hreach (of_decide_eq_true hfresh) hact) (.of_run ?_ hafter)
  intro action haction
  exact hothers action (List.mem_append_right before haction)

end Traffic

/-! ## The steps of a trigger -/

/-- What a step of a trigger does to its keeper and to itself, one case for each stage. -/
inductive Trigger.Move (disk : Disk) (k : Keeper) (t : Trigger) : Keeper → Trigger → Prop where
  | check : t.stage = .checking →
      Move disk k t k (t.moveTo
        (if (k.isFresh disk).1 then .finished (.ok ⟨false, none⟩) else .waiting))
  | lock : t.stage = .waiting → k.rebuilding = false →
      Move disk k t { k with rebuilding := true }
        (t.moveTo (if t.request = .ifChanged then .rechecking else .building []))
  | recheck : t.stage = .rechecking →
      Move disk k t k (t.moveTo
        (if (k.isFresh disk).1 then .leaving (.ok ⟨false, none⟩) else .building []))
  | look (seen : List Target) : t.stage = .building seen → sightings? seen = none →
      Move disk k t k (t.moveTo (.building (seen ++ [disk k.path])))
  | build (seen : List Target) (s : Sightings) (g : Generation) : t.stage = .building seen →
      sightings? seen = some s → (k.builder s).result = .ok g →
      Move disk k t { k with slot := (k.slot.add g).1 }
        (t.moveTo (.publishing k.slot.built.size))
  | fail (seen : List Target) (s : Sightings) (failure : Failure) : t.stage = .building seen →
      sightings? seen = some s → (k.builder s).result = .error failure →
      Move disk k t k (t.moveTo
        (.leaving (if t.survives failure then .ok ⟨false, none⟩ else .error failure)))
  | publish (i : Nat) : t.stage = .publishing i →
      Move disk k t { k with slot := (k.slot.publish i k.clock).1 }
        (t.moveTo (.retiring (k.slot.publish i k.clock).2.1
          ⟨(k.slot.publish i k.clock).2.2, some i⟩))
  | retire (previous : Option Nat) (result : Rebuilt) : t.stage = .retiring previous result →
      Move disk k t { k with slot := previous.elim k.slot k.slot.retire }
        (t.moveTo (.leaving (.ok result)))
  | unlock (result : Except Failure Rebuilt) : t.stage = .leaving result →
      Move disk k t { k with rebuilding := false } (t.moveTo (.finished result))

theorem Trigger.finishBuild_move {disk : Disk} {k k' : Keeper} {t t' : Trigger}
    {seen : List Target} {s : Sightings} {logs : List Log.Record}
    (hstage : t.stage = .building seen) (hseen : sightings? seen = some s)
    (hfinish : finishBuild k t s = (k', t', logs)) : t.Move disk k k' t' := by
  unfold finishBuild at hfinish
  cases hresult : (k.builder s).result with
  | ok g =>
      simp only [hresult, Prod.mk.injEq] at hfinish
      obtain ⟨rfl, rfl, -⟩ := hfinish
      exact .build seen s g hstage hseen hresult
  | error failure =>
      have hmove : t.Move disk k k _ := .fail seen s failure hstage hseen hresult
      cases hsurvives : t.survives failure with
      | true =>
          simp only [hresult, Trigger.fail, hsurvives, if_true, Prod.mk.injEq] at hfinish hmove
          obtain ⟨rfl, rfl, -⟩ := hfinish
          exact hmove
      | false =>
          simp only [hresult, Trigger.fail, hsurvives, Bool.false_eq_true, if_false,
            Prod.mk.injEq] at hfinish hmove
          obtain ⟨rfl, rfl, -⟩ := hfinish
          exact hmove

theorem Trigger.move_of_step {disk : Disk} {k k' : Keeper} {t t' : Trigger}
    {logs : List Log.Record} (hstep : t.step k disk = some (k', t', logs)) :
    t.Move disk k k' t' := by
  cases hstage : t.stage with
  | checking =>
      simp only [step, hstage, Option.some.injEq, Prod.mk.injEq] at hstep
      obtain ⟨rfl, rfl, -⟩ := hstep
      exact .check hstage
  | waiting =>
      cases hlock : k.rebuilding with
      | true => simp [step, hstage, hlock] at hstep
      | false =>
          simp only [step, hstage, hlock, Bool.false_eq_true, if_false, Option.some.injEq,
            Prod.mk.injEq] at hstep
          obtain ⟨rfl, rfl, -⟩ := hstep
          exact .lock hstage hlock
  | rechecking =>
      simp only [step, hstage, Option.some.injEq, Prod.mk.injEq] at hstep
      obtain ⟨rfl, rfl, -⟩ := hstep
      exact .recheck hstage
  | building seen =>
      cases hseen : sightings? seen with
      | none =>
          simp only [step, hstage, hseen, Option.some.injEq, Prod.mk.injEq] at hstep
          obtain ⟨rfl, rfl, -⟩ := hstep
          exact .look seen hstage hseen
      | some s =>
          simp only [step, hstage, hseen, Option.some.injEq] at hstep
          exact finishBuild_move hstage hseen hstep
  | publishing i =>
      simp only [step, hstage, Option.some.injEq, Prod.mk.injEq] at hstep
      obtain ⟨rfl, rfl, -⟩ := hstep
      exact .publish i hstage
  | retiring previous result =>
      simp only [step, hstage, Option.some.injEq, Prod.mk.injEq] at hstep
      obtain ⟨rfl, rfl, -⟩ := hstep
      exact .retire previous result hstage
  | leaving result =>
      simp only [step, hstage, Option.some.injEq, Prod.mk.injEq] at hstep
      obtain ⟨rfl, rfl, -⟩ := hstep
      exact .unlock result hstage
  | finished result => simp [step, hstage] at hstep

@[simp] theorem Trigger.moveTo_stage (t : Trigger) (stage : Stage) :
    (t.moveTo stage).stage = stage := rfl

theorem Trigger.Move.keeper_eq {disk : Disk} {k k' : Keeper} {t t' : Trigger}
    (hmove : t.Move disk k k' t') : k'.path = k.path ∧ k'.builder = k.builder := by
  cases hmove <;> exact ⟨rfl, rfl⟩

namespace Traffic

/-! ## What an action does -/

/-- What an action does, one case for each way in which it can be taken. -/
inductive Effect (s : Traffic) : Action → Traffic → Prop where
  | change (target : Target) : Effect s (.change target)
      { s with
        disk := Function.update s.disk s.keeper.path target
        signatures := s.signatures ++ Refresh.signatures s.keeper.path target }
  | tick (now : Calendar.DateTime) : Effect s (.tick now) (s.setClock now)
  | call (request : Request) (reason : String) (raising : Bool) :
      Effect s (.call request reason raising)
        { s with triggers := s.triggers ++ [.begin request reason raising] }
  | advance {i : Nat} {t t' : Trigger} {k : Keeper} : s.triggers[i]? = some t →
      t.Move s.disk s.keeper k t' → Effect s (.advance i) (s.withTrigger i t k t')
  | close : Effect s .close { s.withSlot s.slot.shut with closers := s.closers ++ [.emptying] }
  | empty {i : Nat} : s.closers[i]? = some .emptying →
      Effect s (.advanceClose i) (s.withEmptied i)
  | retire {i : Nat} {previous : Option Nat} : s.closers[i]? = some (.retiring previous) →
      Effect s (.advanceClose i) (s.withClosed i previous)
  | enter {slot : Slot} {g : Nat} : s.slot.enter = .ok (slot, g) →
      Effect s .enter { s.withSlot slot with readers := g :: s.readers }
  | leave {g : Nat} : g ∈ s.readers → Effect s (.leave g) (s.withLeft g)

variable {s next : Traffic} {action : Action}

theorem effect_of_act (hact : s.act action = some next) : s.Effect action next := by
  cases action with
  | change target =>
      obtain rfl := Option.some.inj hact
      exact .change target
  | tick now =>
      obtain rfl := Option.some.inj hact
      exact .tick now
  | call request reason raising =>
      obtain rfl := Option.some.inj hact
      exact .call request reason raising
  | advance i =>
      cases ht : s.triggers[i]? with
      | none => simp [act, ht] at hact
      | some t =>
          simp only [act, ht, Option.map_eq_some_iff, Prod.exists] at hact
          obtain ⟨k, t', logs, hstep, rfl⟩ := hact
          exact .advance ht (Trigger.move_of_step hstep)
  | close =>
      obtain rfl := Option.some.inj hact
      exact .close
  | advanceClose i =>
      simp only [act] at hact
      split at hact
      · rename_i hcloser
        obtain rfl := Option.some.inj hact
        exact .empty hcloser
      · rename_i previous hcloser
        obtain rfl := Option.some.inj hact
        exact .retire hcloser
      · contradiction
  | enter =>
      simp only [act] at hact
      split at hact
      · rename_i slot g henter
        obtain rfl := Option.some.inj hact
        exact .enter henter
      · contradiction
  | leave g =>
      simp only [act] at hact
      split at hact
      · rename_i hread
        obtain rfl := Option.some.inj hact
        exact .leave hread
      · contradiction

/-- A step of a trigger in the traffic is a move of that trigger. -/
theorem act_advance {i : Nat} (hact : s.act (.advance i) = some next) :
    ∃ t k t', s.triggers[i]? = some t ∧ t.Move s.disk s.keeper k t' ∧
      next = s.withTrigger i t k t' := by
  cases effect_of_act hact with
  | advance ht hmove => exact ⟨_, _, _, ht, hmove, rfl⟩

/-- A trigger that is there after an action was there before, takes a step, or begins. -/
theorem mem_triggers_of_act {u : Trigger} (hact : s.act action = some next)
    (hu : u ∈ next.triggers) :
    u ∈ s.triggers ∨ (∃ t ∈ s.triggers, ∃ k, t.Move s.disk s.keeper k u) ∨
      ∃ request reason raising, u = .begin request reason raising := by
  cases effect_of_act hact with
  | advance ht hmove =>
      rcases List.mem_or_eq_of_mem_set hu with hold | rfl
      · exact Or.inl hold
      · exact Or.inr (Or.inl ⟨_, List.mem_of_getElem? ht, _, hmove⟩)
  | call request reason raising =>
      rcases List.mem_append.mp hu with hold | hnew
      · exact Or.inl hold
      · exact Or.inr (Or.inr ⟨request, reason, raising, List.mem_singleton.mp hnew⟩)
  | change | tick | close | empty | retire | enter | leave => exact Or.inl hu

theorem act_keeper_eq (hact : s.act action = some next) :
    next.keeper.path = s.keeper.path ∧ next.keeper.builder = s.keeper.builder := by
  cases effect_of_act hact with
  | advance ht hmove => exact hmove.keeper_eq
  | change | tick | call | close | empty | enter | leave => exact ⟨rfl, rfl⟩
  | @retire i previous hcloser => cases previous <;> exact ⟨rfl, rfl⟩

/-- Whatever happens, a keeper keeps its path and its builder. -/
theorem Reachable.keeper_eq {allowed : Traffic → Action → Prop} {path : String}
    {builder : Builder} {disk : Disk} {s : Traffic}
    (hreach : Reachable allowed (Traffic.start path builder disk) s) :
    s.keeper.path = path ∧ s.keeper.builder = builder := by
  induction hreach with
  | start => exact ⟨rfl, rfl⟩
  | act action _ _ hact ih =>
      have hkept := act_keeper_eq hact
      exact ⟨hkept.1.trans ih.1, hkept.2.trans ih.2⟩

end Traffic

end DiskCatalog.Refresh

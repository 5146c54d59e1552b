import DiskCatalog.Proofs.Refresh.Calls

/-!
# Successions of coordinators

`Succession` is the coordinators of a process with the calls that make, replace and close them.
Calls come in any number and take their steps in any order; their builds may fail at any point and
for any reason, and rebuilds and other work go on around them.  The list `handovers` only records
how the shared place changed hands.

A coordinator is at one place at a time: with the call that has made it, in the shared place, or
with the call that has taken it out and closes it.  A step moves it from one place to the next, and
it is at none of them only when it never came to serve or is closed.
-/

namespace DiskCatalog.Refresh

open Store Index

structure Succession where
  registry : Registry
  callers : List Caller := []
  /-- The rebuilds that were asked for besides, each with its coordinator. -/
  errands : List (Nat × Trigger) := []
  handovers : List Handover := []

inductive Deed where
  | call (call : Call)
  | advance (caller : Nat) (around : Surroundings)
  /-- The first build of a call fails for a reason of its own. -/
  | abort (caller : Nat) (failure : Failure)
  | send (coordinator : Nat) (request : Request) (reason : String) (raising : Bool)
  | advanceErrand (errand : Nat) (around : Surroundings)
  | abortErrand (errand : Nat) (failure : Failure)
  | chore (coordinator : Nat) (task : Chore)

def Deed.IsUsual : Deed → Prop
  | .advance _ around => around.AreUsual
  | _ => True

namespace Succession

def start (environment : Settings.Environment) : Succession where
  registry := .ofEnvironment environment

def coordinator? (s : Succession) (i : Nat) : Option Coordinator :=
  s.registry.coordinators[i]?

/-- The calls that have a coordinator. -/
def users (s : Succession) (i : Nat) : List Caller :=
  s.callers.filter (·.place? = some i)

def handedOver (s : Succession) (k : Nat) (r : Registry) : List Handover :=
  if r.registered = s.registry.registered then []
  else [⟨k, s.registry.registered, r.registered⟩]

def withCaller (s : Succession) (k : Nat) (r : Registry) (u : Caller) : Succession :=
  { s with
    registry := r
    callers := s.callers.set k u
    handovers := s.handovers ++ s.handedOver k r }

def withCoordinator (s : Succession) (i : Nat) (c : Coordinator) : Succession :=
  { s with registry := s.registry.modify i fun _ => c }

/-- One step, if it can be taken. -/
def act (s : Succession) : Deed → Option Succession
  | .call call => some { s with callers := s.callers ++ [.start call] }
  | .advance k around => (s.callers[k]?).bind fun u =>
    (u.step s.registry around).map fun (r, next) => s.withCaller k r next
  | .abort k failure => (s.callers[k]?).bind fun u =>
    if u.build.isBuilding then
      some (s.withCaller k s.registry { u with build := (u.build.abort failure).1 })
    else none
  | .send i request reason raising => (s.coordinator? i).bind fun c =>
    if c.slot.hasLoaded then
      some { s with errands := s.errands ++ [(i, .begin request reason raising)] }
    else none
  | .advanceErrand e around => (s.errands[e]?).bind fun (i, t) => (s.coordinator? i).bind fun c =>
    (t.step (c.keeper.setClock around.utc) around.disk).map fun (k, next, _) =>
      { s.withCoordinator i (c.withKeeper k) with errands := s.errands.set e (i, next) }
  | .abortErrand e failure => (s.errands[e]?).bind fun (i, t) =>
    if t.isBuilding then some { s with errands := s.errands.set e (i, (t.abort failure).1) }
    else none
  | .chore i task => (s.coordinator? i).bind fun c =>
    (c.chore task).map fun next => s.withCoordinator i next

def run (s : Succession) : List Deed → Option Succession
  | [] => some s
  | deed :: deeds => (s.act deed).bind fun next => next.run deeds

inductive Reachable (first : Succession) : Succession → Prop where
  | start : Reachable first first
  | act {s next : Succession} (deed : Deed) : Reachable first s → deed.IsUsual →
      s.act deed = some next → Reachable first next

theorem Reachable.of_run {first s next : Succession} {deeds : List Deed}
    (hreach : Reachable first s) (husual : ∀ deed ∈ deeds, deed.IsUsual)
    (hrun : s.run deeds = some next) : Reachable first next := by
  induction deeds generalizing s with
  | nil =>
      obtain rfl := Option.some.inj hrun
      exact hreach
  | cons deed deeds ih =>
      obtain ⟨middle, hact, hrest⟩ := Option.bind_eq_some_iff.mp hrun
      exact ih (.act deed hreach (husual deed List.mem_cons_self) hact)
        (fun other hother => husual other (List.mem_cons_of_mem deed hother)) hrest

/-! ## Where coordinators are -/

/-- Where a coordinator is, and what it is like there. -/
inductive Standing (s : Succession) (i : Nat) (c : Coordinator) : Prop where
  | registered : s.registry.registered = some i → s.users i = [] → c.IsServing → Standing s i c
  | used (u : Caller) : s.registry.registered ≠ some i → s.users i = [u] → u.Fits c →
      Standing s i c
  | free : s.registry.registered ≠ some i → s.users i = [] →
      (c.slot.hasLoaded = true → c.IsShut) → Standing s i c

structure Placed (s : Succession) : Prop where
  coordinators : ∀ i c, s.coordinator? i = some c →
    s.Standing i c ∧ c.IsTended ∧ c.slot.IsBacked
  range : ∀ i, s.registry.registered = some i ∨ s.users i ≠ [] → ∃ c, s.coordinator? i = some c
  errands : ∀ i t, (i, t) ∈ s.errands →
    ∃ c, s.coordinator? i = some c ∧ c.slot.hasLoaded = true ∧ t.Fits c.slot

variable {s next : Succession} {i k : Nat} {u u' : Caller} {c c' : Coordinator}

theorem mem_users : u ∈ s.users i ↔ u ∈ s.callers ∧ u.place? = some i := by
  simp [users]

/-- A step of a call changes whether that call has a coordinator, and of no other. -/
theorem exists_users (hu : s.callers[k]? = some u) (i : Nat) :
    ∃ others more, s.users i = others ++ (if u.place? = some i then [u] else []) ++ more ∧
      ∀ (next : Succession) (u' : Caller), next.callers = s.callers.set k u' →
        next.users i = others ++ (if u'.place? = some i then [u'] else []) ++ more := by
  obtain ⟨before, after, hcallers, hset⟩ := Traffic.exists_set_eq hu
  refine ⟨before.filter (·.place? = some i), after.filter (·.place? = some i), ?_,
    fun next u' hnext => ?_⟩
  · rw [users, hcallers, List.filter_append, List.filter_cons, List.append_assoc]
    split <;> simp_all
  · rw [users, hnext, hset, List.filter_append, List.filter_cons, List.append_assoc]
    split <;> simp_all

theorem users_same (hu : s.callers[k]? = some u) (hcallers : next.callers = s.callers.set k u')
    (hold : u.place? ≠ some i) (hnew : u'.place? ≠ some i) : next.users i = s.users i := by
  obtain ⟨others, more, husers, hnext⟩ := exists_users hu i
  rw [husers, hnext next u' hcallers, if_neg hold, if_neg hnew]

theorem users_new (hu : s.callers[k]? = some u) (hcallers : next.callers = s.callers.set k u')
    (hold : u.place? ≠ some i) (hnone : s.users i = []) (hnew : u'.place? = some i) :
    next.users i = [u'] := by
  obtain ⟨others, more, husers, hnext⟩ := exists_users hu i
  rw [hnone, if_neg hold] at husers
  simp only [List.append_nil, List.nil_eq, List.append_eq_nil_iff] at husers
  rw [hnext next u' hcallers, husers.1, husers.2, if_pos hnew]
  rfl

/-- The only call that has a coordinator keeps it or gives it away. -/
theorem users_own (hu : s.callers[k]? = some u) (hcallers : next.callers = s.callers.set k u')
    (hplace : u.place? = some i) (halone : s.users i = [u]) :
    next.users i = if u'.place? = some i then [u'] else [] := by
  obtain ⟨others, more, husers, hnext⟩ := exists_users hu i
  rw [halone, if_pos hplace] at husers
  have hlength := congrArg List.length husers
  simp only [List.length_append, List.length_singleton] at hlength
  have hothers : others = [] := List.length_eq_zero_iff.mp (by omega)
  have hmore : more = [] := List.length_eq_zero_iff.mp (by omega)
  rw [hnext next u' hcallers, hothers, hmore, List.nil_append, List.append_nil]

/-- The coordinator of a call is with it alone. -/
theorem Placed.used (hs : s.Placed) (hu : s.callers[k]? = some u) (hplace : u.place? = some i) :
    ∃ c, s.coordinator? i = some c ∧ s.registry.registered ≠ some i ∧ s.users i = [u] ∧
      u.Fits c ∧ c.IsTended ∧ c.slot.IsBacked := by
  have hmem : u ∈ s.users i := mem_users.mpr ⟨List.mem_of_getElem? hu, hplace⟩
  obtain ⟨c, hc⟩ := hs.range i (Or.inr (List.ne_nil_of_mem hmem))
  obtain ⟨hstanding, htended, hbacked⟩ := hs.coordinators i c hc
  cases hstanding with
  | used v hother halone hfits =>
      obtain rfl := List.mem_singleton.mp (halone ▸ hmem)
      exact ⟨c, hc, hother, halone, hfits, htended, hbacked⟩
  | registered _ hnone | free _ hnone => simp [hnone] at hmem

theorem Standing.congr (hstanding : s.Standing i c)
    (hregistered : next.registry.registered = some i ↔ s.registry.registered = some i)
    (husers : next.users i = s.users i) : next.Standing i c := by
  cases hstanding with
  | registered hsame hnone hserving =>
      exact .registered (hregistered.mpr hsame) (husers.trans hnone) hserving
  | used u hother halone hfits =>
      exact .used u (fun h => hother (hregistered.mp h)) (husers.trans halone) hfits
  | free hother hnone hshut =>
      exact .free (fun h => hother (hregistered.mp h)) (husers.trans hnone) hshut

/-- Where nothing is moved, every coordinator stays at its place. -/
theorem Placed.congr (hs : s.Placed)
    (hregistered : next.registry.registered = s.registry.registered)
    (husers : ∀ j, next.users j = s.users j) (hsame : next.coordinator? = s.coordinator?)
    (herrands : ∀ j t, (j, t) ∈ next.errands → (j, t) ∈ s.errands ∨
      ∃ c, s.coordinator? j = some c ∧ c.slot.hasLoaded = true ∧ t.Fits c.slot) : next.Placed := by
  constructor
  · intro j d hd
    rw [hsame] at hd
    obtain ⟨hstanding, hrest⟩ := hs.coordinators j d hd
    exact ⟨hstanding.congr (by rw [hregistered]) (husers j), hrest⟩
  · intro j hj
    rw [hregistered, husers j] at hj
    rw [hsame]
    exact hs.range j hj
  · intro j t hmem
    rw [hsame]
    exact (herrands j t hmem).elim (hs.errands j t) id

/-- Where all coordinators but one stay as they are, only that one has to be shown to be at one
place. -/
theorem Placed.except (hs : s.Placed)
    (hregistered : next.registry.registered = s.registry.registered)
    (husers : ∀ j, j ≠ i → next.users j = s.users j)
    (hothers : ∀ j, j ≠ i → next.coordinator? j = s.coordinator? j)
    (hown : next.coordinator? i = some c')
    (hplace : next.Standing i c' ∧ c'.IsTended ∧ c'.slot.IsBacked)
    (hgrows : ∀ c, s.coordinator? i = some c →
      c.slot.number ≤ c'.slot.number ∧ c.slot.built.size ≤ c'.slot.built.size)
    (herrands : ∀ j t, (j, t) ∈ next.errands →
      (j, t) ∈ s.errands ∨ (j = i ∧ c'.slot.hasLoaded = true ∧ t.Fits c'.slot)) :
    next.Placed := by
  constructor
  · intro j d hd
    by_cases hji : j = i
    · subst hji
      obtain rfl : c' = d := Option.some.inj (hown.symm.trans hd)
      exact hplace
    · rw [hothers j hji] at hd
      obtain ⟨hstanding, hrest⟩ := hs.coordinators j d hd
      exact ⟨hstanding.congr (by rw [hregistered]) (husers j hji), hrest⟩
  · intro j hj
    by_cases hji : j = i
    · exact ⟨c', hji ▸ hown⟩
    · rw [hregistered, husers j hji] at hj
      rw [hothers j hji]
      exact hs.range j hj
  · intro j t hmem
    rcases herrands j t hmem with hold | ⟨rfl, hloaded, ht⟩
    · obtain ⟨d, hd, hloaded, ht⟩ := hs.errands j t hold
      by_cases hji : j = i
      · subst hji
        obtain ⟨hnumber, hsize⟩ := hgrows d hd
        exact ⟨c', hown, Slot.hasLoaded_of_le hloaded hnumber,
          fun g hg => (ht g hg).trans_le hsize⟩
      · exact ⟨d, (hothers j hji).trans hd, hloaded, ht⟩
    · exact ⟨c', hown, hloaded, ht⟩

/-- A call goes on with its own coordinator. -/
theorem Placed.own (hs : s.Placed) (hu : s.callers[k]? = some u) (hplace : u.place? = some i)
    (hc : s.coordinator? i = some c) (hcallers : next.callers = s.callers.set k u')
    (herrands : next.errands = s.errands)
    (hregistered : next.registry.registered = s.registry.registered)
    (hown : next.coordinator? i = some c')
    (hothers : ∀ j, j ≠ i → next.coordinator? j = s.coordinator? j)
    (htended : c'.IsTended) (hbacked : c'.slot.IsBacked) (hnumber : c.slot.number ≤ c'.slot.number)
    (hsize : c.slot.built.size ≤ c'.slot.built.size)
    (hfits : (u'.place? = some i ∧ u'.Fits c') ∨
      (u'.place? = none ∧ (c'.slot.hasLoaded = true → c'.IsShut))) : next.Placed := by
  obtain ⟨_, _, hother, halone, -, -, -⟩ := hs.used hu hplace
  have hnext := users_own hu hcallers hplace halone
  refine hs.except hregistered (fun j hji => ?users) hothers hown ⟨?standing, htended, hbacked⟩
    (fun d hd => ?grows) fun j t hmem => Or.inl (herrands ▸ hmem)
  case users =>
    refine users_same hu hcallers (fun h => ?_) fun h => ?_
    · exact hji (Option.some.inj (h.symm.trans hplace))
    · rcases hfits with ⟨hnew, -⟩ | ⟨hnew, -⟩
      · exact hji (Option.some.inj (h.symm.trans hnew))
      · simp [hnew] at h
  case standing =>
    rcases hfits with ⟨hnew, hfits⟩ | ⟨hnew, hshut⟩
    · rw [if_pos hnew] at hnext
      exact .used u' (hregistered ▸ hother) hnext hfits
    · rw [if_neg (by simp [hnew])] at hnext
      exact .free (hregistered ▸ hother) hnext hshut
  case grows =>
    obtain rfl : c = d := Option.some.inj (hc.symm.trans hd)
    exact ⟨hnumber, hsize⟩

theorem coordinators_modify {r : Registry} (hc : r.coordinators[i]? = some c) (j : Nat) :
    (r.modify i fun _ => c').coordinators[j]? =
      if j = i then some c' else r.coordinators[j]? := by
  rw [Registry.modify, Array.getElem?_modify]
  by_cases hji : j = i
  · subst hji
    rw [if_pos rfl, if_pos rfl, hc]
    rfl
  · rw [if_neg (Ne.symm hji), if_neg hji]

/-- A call changes its own coordinator. -/
theorem Placed.change (hs : s.Placed) (hu : s.callers[k]? = some u) (hplace : u.place? = some i)
    (hc : s.coordinator? i = some c) (htended : c'.IsTended) (hbacked : c'.slot.IsBacked)
    (hnumber : c.slot.number ≤ c'.slot.number) (hsize : c.slot.built.size ≤ c'.slot.built.size)
    (hfits : (u'.place? = some i ∧ u'.Fits c') ∨
      (u'.place? = none ∧ (c'.slot.hasLoaded = true → c'.IsShut))) :
    (s.withCaller k (s.registry.modify i fun _ => c') u').Placed :=
  hs.own hu hplace hc rfl rfl rfl ((coordinators_modify hc i).trans (if_pos rfl))
    (fun j hji => (coordinators_modify hc j).trans (if_neg hji)) htended hbacked hnumber hsize hfits

/-- A call leaves its own coordinator as it is. -/
theorem Placed.keep (hs : s.Placed) (hu : s.callers[k]? = some u) (hplace : u.place? = some i)
    (hcallers : next.callers = s.callers.set k u') (herrands : next.errands = s.errands)
    (hregistered : next.registry.registered = s.registry.registered)
    (hsame : next.coordinator? = s.coordinator?)
    (hfits : ∀ c, u.Fits c → (u'.place? = some i ∧ u'.Fits c) ∨
      (u'.place? = none ∧ (c.slot.hasLoaded = true → c.IsShut))) : next.Placed := by
  obtain ⟨c, hc, -, -, hold, htended, hbacked⟩ := hs.used hu hplace
  exact hs.own hu hplace hc hcallers herrands hregistered (hsame ▸ hc) (fun _ _ => by rw [hsame])
    htended hbacked le_rfl le_rfl (hfits c hold)

/-- A call that has no coordinator goes on without one. -/
theorem Placed.idle (hs : s.Placed) (hu : s.callers[k]? = some u)
    (hcallers : next.callers = s.callers.set k u') (herrands : next.errands = s.errands)
    (hregistered : next.registry.registered = s.registry.registered)
    (hsame : next.coordinator? = s.coordinator?) (hold : u.place? = none)
    (hnew : u'.place? = none) : next.Placed :=
  hs.congr hregistered (fun _ => users_same hu hcallers (by simp [hold]) (by simp [hnew])) hsame
    fun _ _ hmem => Or.inl (herrands ▸ hmem)

/-- Nobody has a coordinator that is not made yet. -/
theorem Placed.unplaced (hs : s.Placed) (hnone : s.coordinator? i = none) :
    s.registry.registered ≠ some i ∧ s.users i = [] := by
  constructor
  · intro h
    obtain ⟨d, hd⟩ := hs.range i (Or.inl h)
    simp [hnone] at hd
  · by_contra h
    obtain ⟨d, hd⟩ := hs.range i (Or.inr h)
    simp [hnone] at hd

/-- A call makes a coordinator, which is with it alone. -/
theorem Placed.make (hs : s.Placed) (hu : s.callers[k]? = some u) {plan : Plan}
    {background : Option Settings} (hcallers : next.callers = s.callers.set k u')
    (herrands : next.errands = s.errands)
    (hregistered : next.registry.registered = s.registry.registered)
    (hcoordinators : next.registry.coordinators = s.registry.coordinators.push (.ofPlan plan))
    (hold : u.place? = none)
    (hnew : u' = u.moveTo (.building s.registry.coordinators.size background)) : next.Placed := by
  have hplace : u'.place? = some s.registry.coordinators.size := by rw [hnew]; rfl
  have hmade : next.coordinator? s.registry.coordinators.size = some (.ofPlan plan) := by
    rw [coordinator?, hcoordinators, Array.getElem?_push_size]
  have hothers : ∀ j, j ≠ s.registry.coordinators.size →
      next.coordinator? j = s.coordinator? j := by
    intro j hj
    rw [coordinator?, hcoordinators, Array.getElem?_push, if_neg hj]
    rfl
  have hnone : s.coordinator? s.registry.coordinators.size = none := by simp [coordinator?]
  obtain ⟨hunregistered, hunused⟩ := hs.unplaced hnone
  refine hs.except hregistered (fun j hj => ?users) hothers hmade
    ⟨?standing, Coordinator.isTended_ofPlan plan, ?backed⟩ (fun c hc => ?grows)
    fun _ _ hmem => Or.inl (herrands ▸ hmem)
  case users =>
    exact users_same hu hcallers (by simp [hold]) fun h =>
      hj (Option.some.inj (hplace.symm.trans h)).symm
  case standing =>
    refine .used u' (hregistered ▸ hunregistered) ?_ ?_
    · exact users_new hu hcallers (by simp [hold]) hunused hplace
    · rw [hnew]
      exact ⟨rfl, rfl, rfl⟩
  case backed =>
    intro g hg
    contradiction
  case grows => simp [hnone] at hc

/-- The shared coordinator is nobody's own. -/
theorem Placed.registered (hs : s.Placed) (hregistered : s.registry.registered = some i) :
    ∃ c, s.coordinator? i = some c ∧ s.users i = [] ∧ c.IsServing := by
  obtain ⟨c, hc⟩ := hs.range i (Or.inl hregistered)
  obtain ⟨hstanding, -⟩ := hs.coordinators i c hc
  cases hstanding with
  | registered _ hnone hserving => exact ⟨c, hc, hnone, hserving⟩
  | used u hother halone hfits => exact absurd hregistered hother
  | free hother hnone hshut => exact absurd hregistered hother

/-- What is shared is replaced, and the call that does so closes what it has taken out. -/
theorem Placed.handOver (hs : s.Placed) (hu : s.callers[k]? = some u)
    (hcallers : next.callers = s.callers.set k u') (herrands : next.errands = s.errands)
    (hsame : next.coordinator? = s.coordinator?)
    (hgiven : u.place? = next.registry.registered)
    (hserving : ∀ i c, u.place? = some i → u.Fits c → c.IsServing)
    (htaken : u'.place? = s.registry.registered) (hfits : ∀ c, u'.Fits c) : next.Placed := by
  have hnew : ∀ i, next.registry.registered = some i → ∃ c, s.coordinator? i = some c ∧
      s.registry.registered ≠ some i ∧ next.users i = [] ∧ c.IsServing := by
    intro i hi
    have hplace : u.place? = some i := hgiven.trans hi
    obtain ⟨c, hc, hother, halone, hown, -, -⟩ := hs.used hu hplace
    have husers := users_own hu hcallers hplace halone
    rw [htaken, if_neg hother] at husers
    exact ⟨c, hc, hother, husers, hserving i c hplace hown⟩
  have hold : ∀ i, s.registry.registered = some i →
      next.registry.registered ≠ some i ∧ next.users i = [u'] := by
    intro i hi
    obtain ⟨c, hc, hnone, -⟩ := hs.registered hi
    have hother : next.registry.registered ≠ some i := by
      intro h
      obtain ⟨-, -, hne, -⟩ := hnew i h
      exact hne hi
    exact ⟨hother, users_new hu hcallers (hgiven ▸ hother) hnone (htaken.trans hi)⟩
  have hothers : ∀ i, s.registry.registered ≠ some i → next.registry.registered ≠ some i →
      next.users i = s.users i := fun i hbefore hafter =>
    users_same hu hcallers (hgiven ▸ hafter) (htaken ▸ hbefore)
  constructor
  · intro i d hd
    rw [hsame] at hd
    obtain ⟨hstanding, hrest⟩ := hs.coordinators i d hd
    refine ⟨?_, hrest⟩
    by_cases hbefore : s.registry.registered = some i
    · exact .used u' (hold i hbefore).1 (hold i hbefore).2 (hfits d)
    · by_cases hafter : next.registry.registered = some i
      · obtain ⟨c, hc, -, hnone, hserves⟩ := hnew i hafter
        obtain rfl : c = d := Option.some.inj (hc.symm.trans hd)
        exact .registered hafter hnone hserves
      · exact hstanding.congr (by simp [hbefore, hafter]) (hothers i hbefore hafter)
  · intro i hi
    rw [hsame]
    by_cases hbefore : s.registry.registered = some i
    · exact hs.range i (Or.inl hbefore)
    · by_cases hafter : next.registry.registered = some i
      · obtain ⟨c, hc, -⟩ := hnew i hafter
        exact ⟨c, hc⟩
      · rw [hothers i hbefore hafter] at hi
        exact hs.range i (Or.inr (hi.resolve_left hafter))
  · rw [herrands, hsame]
    exact hs.errands

end Succession

/-! ## What becomes of them -/

namespace Caller

variable {s : Succession} {k : Nat} {r : Registry} {u u' : Caller}

/-- What a step of closing does to the coordinator of a call. -/
theorem closing_step {i : Nat} {result : Option Nat} {c : Coordinator} (hs : s.Placed)
    (hu : s.callers[k]? = some u) (hstage : u.stage = .closing i result)
    (hc : s.registry.coordinators[i]? = some c) :
    (c.stepClose u.closing).1.slot.number = c.slot.number ∧
    (c.stepClose u.closing).1.slot.built.size = c.slot.built.size ∧
    (c.stepClose u.closing).1.IsTended ∧ (c.stepClose u.closing).1.slot.IsBacked ∧
    match (c.stepClose u.closing).2 with
    | some later => (c.stepClose u.closing).1.Reached later
    | none => (c.stepClose u.closing).1.IsShut := by
  obtain ⟨d, hd, -, -, hfits, htended, hbacked⟩ := hs.used (i := i) hu (by simp [place?, hstage])
  obtain rfl : d = c := Option.some.inj (hd.symm.trans hc)
  simp only [Fits, hstage] at hfits
  obtain ⟨hnumber, hsize, hkept⟩ := d.stepClose_slot u.closing
  obtain ⟨hnext, hreached⟩ := hfits.stepClose htended
  exact ⟨hnumber, hsize, hnext, hkept hbacked, hreached⟩

/-- A step of a call leaves every coordinator at one place. -/
theorem Move.placed (hmove : u.Move s.registry r u') (hs : s.Placed)
    (hu : s.callers[k]? = some u) : (s.withCaller k r u').Placed := by
  cases hmove with
  | refuse failure hfresh => exact hs.idle hu rfl rfl rfl rfl hfresh.place?.1 rfl
  | find i hfresh hregistered => exact hs.idle hu rfl rfl rfl rfl hfresh.place?.1 rfl
  | make settings plan background held hfresh hopener hfirst hother =>
      exact hs.make hu rfl rfl rfl rfl hfresh.place?.1 rfl
  | takeOut hclose hfresh hfree =>
      have hplace := hfresh.place?.1
      refine hs.handOver hu rfl rfl rfl hplace (fun i c hi => by simp [hplace] at hi) ?_ fun c => ?_
      · cases s.registry.registered <;> rfl
      · cases s.registry.registered <;> trivial
  | build i background c around keeper t hstage hc hbuild =>
      have hplace : u.place? = some i := by simp [place?, hstage]
      obtain ⟨d, hd, -, -, hfits, htended, hbacked⟩ := hs.used hu hplace
      obtain rfl : d = c := Option.some.inj (hd.symm.trans hc)
      simp only [Fits, hstage] at hfits
      obtain ⟨hopen, hrequest, hopens⟩ := hfits
      have hbuilds : u.build.Fits d.slot := by
        intro g hg
        simp only [Trigger.Opens, hg] at hopens
        exact hopens.2
      have hslot := hbuild.evolves hbuilds
      refine hs.change hu hplace hd ((Coordinator.evolves_withKeeper hslot).isTended htended)
        (hslot.backed hbacked) hslot.number hslot.size (Or.inl ⟨hplace, ?_⟩)
      simp only [Fits, hstage]
      exact ⟨hslot.closed.trans hopen, hbuild.request_eq.trans hrequest,
        hbuild.opens hrequest hopen hopens⟩
  | built i background rebuilt hstage hbuild =>
      refine hs.keep (i := i) hu (by simp [place?, hstage]) rfl rfl rfl rfl fun c hfits => ?_
      simp only [Fits, hstage, Trigger.Opens, hbuild] at hfits
      exact Or.inl ⟨rfl, hfits.1, hfits.2.2⟩
  | fail i background failure held hstage hbuild hfirst hother =>
      refine hs.keep (i := i) hu (by simp [place?, hstage]) rfl rfl rfl rfl fun c hfits => ?_
      simp only [Fits, hstage, Trigger.Opens, hbuild] at hfits
      exact Or.inr ⟨rfl, fun hloaded => by simp [hfits.2.2] at hloaded⟩
  | skip i hstage =>
      refine hs.keep (i := i) hu (by simp [place?, hstage]) rfl rfl rfl rfl fun c hfits => ?_
      simp only [Fits, hstage] at hfits
      exact Or.inl ⟨rfl, hfits⟩
  | background i settings c c' hstage hc hkeeper hlater =>
      have hplace : u.place? = some i := by simp [place?, hstage]
      obtain ⟨d, hd, -, -, hfits, -, hbacked⟩ := hs.used hu hplace
      obtain rfl : d = c := Option.some.inj (hd.symm.trans hc)
      simp only [Fits, hstage] at hfits
      have hslot : c'.slot = d.slot := congrArg Keeper.slot hkeeper
      refine hs.change hu hplace hd hlater (hslot ▸ hbacked) (hslot ▸ le_rfl) (hslot ▸ le_rfl)
        (Or.inl ⟨rfl, ?_⟩)
      change c'.IsServing
      rw [Coordinator.IsServing, hslot]
      exact hfits
  | register i held hstage hfirst hother =>
      have hplace : u.place? = some i := by simp [place?, hstage]
      refine hs.handOver hu rfl rfl rfl hplace (fun j c hj hfits => ?_) ?_ fun c => ?_
      · simp only [Fits, hstage] at hfits
        exact hfits
      · cases s.registry.registered <;> rfl
      · cases s.registry.registered <;> trivial
  | close i result c closing hstage hc hlater =>
      have hplace : u.place? = some i := by simp [place?, hstage]
      obtain ⟨hnumber, hsize, hnext, hbacked, hreached⟩ := closing_step hs hu hstage hc
      rw [hlater] at hreached
      refine hs.change hu hplace hc hnext hbacked hnumber.ge hsize.ge (Or.inl ⟨hplace, ?_⟩)
      simp only [Fits, hstage]
      exact hreached
  | closed i result c hstage hc hlater =>
      have hplace : u.place? = some i := by simp [place?, hstage]
      obtain ⟨hnumber, hsize, hnext, hbacked, hshut⟩ := closing_step hs hu hstage hc
      rw [hlater] at hshut
      exact hs.change hu hplace hc hnext hbacked hnumber.ge hsize.ge (Or.inr ⟨rfl, fun _ => hshut⟩)

end Caller

namespace Succession

variable {s next : Succession} {i : Nat} {c c' : Coordinator}

/-- What becomes of a coordinator by itself leaves it where it is. -/
theorem Placed.evolve (hs : s.Placed) (hc : s.coordinator? i = some c) (hevolves : c.Evolves c')
    (hnumber : c.slot.hasLoaded = true ∨ c'.slot.number = c.slot.number)
    (hregistry : next.registry = s.registry.modify i fun _ => c')
    (hcallers : next.callers = s.callers)
    (herrands : ∀ j t, (j, t) ∈ next.errands →
      (j, t) ∈ s.errands ∨ (j = i ∧ c'.slot.hasLoaded = true ∧ t.Fits c'.slot)) : next.Placed := by
  have hregistered : next.registry.registered = s.registry.registered := by rw [hregistry]; rfl
  have husers : ∀ j, next.users j = s.users j := fun j => by rw [users, hcallers]; rfl
  have hcoordinators : ∀ j, next.coordinator? j =
      if j = i then some c' else s.coordinator? j := fun j => by
    rw [coordinator?, hregistry]
    exact coordinators_modify hc j
  obtain ⟨hstanding, htended, hbacked⟩ := hs.coordinators i c hc
  refine hs.except hregistered (fun j _ => husers j)
    (fun j hji => (hcoordinators j).trans (if_neg hji)) ((hcoordinators i).trans (if_pos rfl))
    ⟨?standing, hevolves.isTended htended, hevolves.slot.backed hbacked⟩ (fun d hd => ?grows)
    herrands
  case standing =>
    cases hstanding with
    | registered hsame hnone hserving =>
        exact .registered (hregistered.trans hsame) ((husers i).trans hnone)
          (hevolves.isServing hserving)
    | used u hother halone hfits =>
        exact .used u (hregistered ▸ hother) ((husers i).trans halone)
          (hfits.evolves hevolves hnumber)
    | free hother hnone hshut =>
        refine .free (hregistered ▸ hother) ((husers i).trans hnone) fun hloaded => ?_
        refine hevolves.isShut (hshut ?_)
        rcases hnumber with hbefore | hsame
        · exact hbefore
        · simpa only [Slot.hasLoaded, hsame] using hloaded
  case grows =>
    obtain rfl : d = c := Option.some.inj (hd.symm.trans hc)
    exact ⟨hevolves.slot.number, hevolves.slot.size⟩

/-- Asking for rebuilds moves no coordinator. -/
theorem Placed.ask (hs : s.Placed) (hregistry : next.registry = s.registry)
    (hcallers : next.callers = s.callers)
    (herrands : ∀ j t, (j, t) ∈ next.errands → (j, t) ∈ s.errands ∨
      ∃ c, s.coordinator? j = some c ∧ c.slot.hasLoaded = true ∧ t.Fits c.slot) : next.Placed := by
  refine hs.congr (by rw [hregistry]) (fun j => ?_) (funext fun j => ?_) herrands
  · rw [users, hcallers]
    rfl
  · rw [coordinator?, hregistry]
    rfl

theorem Placed.call (hs : s.Placed) (call : Call) :
    Placed { s with callers := s.callers ++ [.start call] } := by
  refine hs.congr rfl (fun j => ?_) rfl fun _ _ => Or.inl
  cases call <;> simp [users, Caller.start, Call.start, Caller.place?]

end Succession

end DiskCatalog.Refresh

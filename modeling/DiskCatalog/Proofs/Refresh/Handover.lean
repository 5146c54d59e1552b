import DiskCatalog.Proofs.Refresh.Succession

/-!
# Handing the shared place over

`Succession.Sound` is what every step of a succession keeps: each coordinator is at one place, the
shared place is held by one call at most and empty then, and a call that has handed over only closes
what it has taken out.  `Succession.Orderly` is read off it: the shared coordinator serves, and
every other one that was built is with one call or closed.
-/

namespace DiskCatalog.Refresh

open Store Index

namespace Succession

variable {s next : Succession} {i k : Nat} {u : Caller} {deed : Deed}

/-! ## What every step keeps -/

structure Sound (s : Succession) : Prop where
  placed : s.Placed
  /-- One call at most holds the place of the shared coordinator, and then that is empty. -/
  turn : s.callers.countP Caller.isHolding = if s.registry.held then 1 else 0
  held : s.registry.held = true → s.registry.registered = none
  regular : ∀ u ∈ s.callers, u.IsRegular
  handovers : ∀ h ∈ s.handovers, ∃ u, s.callers[h.caller]? = some u ∧ u.HandedOver h
  once : (s.handovers.map (·.caller)).Nodup
  last : s.registry.registered = s.handovers.getLast?.bind (·.after)

theorem start_sound (environment : Settings.Environment) : (start environment).Sound where
  placed := by
    constructor <;> simp [start, coordinator?, users, Registry.ofEnvironment]
  turn := rfl
  held := by simp [start, Registry.ofEnvironment]
  regular := by simp [start]
  handovers := by simp [start]
  once := by simp [start]
  last := rfl

theorem Sound.isHolding (hs : s.Sound) (hu : s.callers[k]? = some u)
    (hholding : u.isHolding = true) : s.registry.registered = none := by
  apply hs.held
  have hpos := List.countP_pos_iff.mpr ⟨u, List.mem_of_getElem? hu, hholding⟩
  rw [hs.turn] at hpos
  by_contra hfree
  simp [hfree] at hpos

theorem mem_handedOver {r : Registry} {h : Handover} (hmem : h ∈ s.handedOver k r) :
    h = ⟨k, s.registry.registered, r.registered⟩ ∧
      r.registered ≠ s.registry.registered := by
  unfold handedOver at hmem
  split at hmem
  · contradiction
  · exact ⟨List.mem_singleton.mp hmem, ‹_›⟩

/-- A step of a call changes whether that call holds the shared place, and of no other. -/
theorem exists_countP_isHolding (hu : s.callers[k]? = some u) :
    ∃ others, s.callers.countP Caller.isHolding = others + (if u.isHolding then 1 else 0) ∧
      ∀ u', (s.callers.set k u').countP Caller.isHolding =
        others + (if u'.isHolding then 1 else 0) := by
  obtain ⟨before, after, hcallers, hset⟩ := Traffic.exists_set_eq hu
  refine ⟨before.countP Caller.isHolding + after.countP Caller.isHolding, ?_, fun u' => ?_⟩
  · rw [hcallers, List.countP_append, List.countP_cons, Nat.add_assoc]
  · rw [hset, List.countP_append, List.countP_cons, Nat.add_assoc]

/-- What was handed over stays so when no step of a call takes that back. -/
theorem Sound.keepsHandovers (hs : s.Sound) (hu : s.callers[k]? = some u) {u' : Caller}
    (hkept : ∀ h, u.HandedOver h → u'.HandedOver h) {h : Handover} (hmem : h ∈ s.handovers) :
    ∃ v, (s.callers.set k u')[h.caller]? = some v ∧ v.HandedOver h := by
  obtain ⟨v, hv, hover⟩ := hs.handovers h hmem
  by_cases hk : k = h.caller
  · subst hk
    obtain rfl : u = v := Option.some.inj (hu.symm.trans hv)
    exact ⟨u', List.getElem?_set_self (List.getElem?_eq_some_iff.mp hu).1, hkept h hover⟩
  · exact ⟨v, (List.getElem?_set_ne hk).trans hv, hover⟩

/-- A call hands over once. -/
theorem Sound.once_handedOver {r : Registry} {u' : Caller} (hs : s.Sound)
    (hu : s.callers[k]? = some u) (hmove : u.Move s.registry r u') :
    ((s.handovers ++ s.handedOver k r).map (·.caller)).Nodup := by
  unfold handedOver
  split
  · rw [List.append_nil]
    exact hs.once
  · rename_i hchange
    rw [List.map_append, List.map_singleton]
    refine List.nodup_append.mpr ⟨hs.once, List.nodup_singleton k, ?_⟩
    intro caller hcaller other hother hsame
    obtain rfl := List.mem_singleton.mp hother
    obtain ⟨h, hmem, rfl⟩ := List.mem_map.mp hcaller
    obtain ⟨v, hv, hover⟩ := hs.handovers h hmem
    obtain rfl : u = v := Option.some.inj (hu.symm.trans (hsame ▸ hv))
    exact hchange (hmove.handedOver hover).2

/-- A step of a call keeps everything. -/
theorem Sound.move {r : Registry} {u' : Caller} (hs : s.Sound) (hu : s.callers[k]? = some u)
    (hmove : u.Move s.registry r u') : (s.withCaller k r u').Sound where
  placed := hmove.placed hs.placed hu
  turn := by
    obtain ⟨others, hcount, hnext⟩ := exists_countP_isHolding hu
    have hturn := hs.turn
    refine (hnext u').trans ?_
    change _ = if r.held then 1 else 0
    rw [hcount] at hturn
    rcases hmove.turn with ⟨hsame, hheld, -⟩ | ⟨hfree, hout, hin, hheld, -⟩ | ⟨hin, hout, hheld⟩
    · rw [hsame, hheld, hturn]
    · simp only [hfree, hout, Bool.false_eq_true, if_false] at hturn
      simp only [hin, hheld, if_true]
      omega
    · simp only [hin, if_true] at hturn
      simp only [hout, hheld, Bool.false_eq_true, if_false]
      split at hturn <;> omega
  held := by
    intro hheld
    change r.held = true at hheld
    rcases hmove.turn with ⟨-, hsame, hkept⟩ | ⟨-, -, -, -, hnone⟩ | ⟨-, -, hfree⟩
    · rw [hsame] at hheld
      exact (hkept hheld).trans (hs.held hheld)
    · exact hnone
    · simp [hfree] at hheld
  regular := by
    intro v hv
    rcases List.mem_or_eq_of_mem_set hv with hv | rfl
    · exact hs.regular v hv
    · exact hmove.isRegular (hs.regular u (List.mem_of_getElem? hu))
  handovers := by
    intro h hmem
    rcases List.mem_append.mp hmem with hold | hnew
    · exact hs.keepsHandovers hu (fun h hover => (hmove.handedOver hover).1) hold
    · obtain ⟨rfl, hchange⟩ := mem_handedOver hnew
      exact ⟨u', List.getElem?_set_self (List.getElem?_eq_some_iff.mp hu).1, hmove.handsOver
        (hs.regular u (List.mem_of_getElem? hu)) (hs.isHolding hu) hchange k⟩
  once := hs.once_handedOver hu hmove
  last := by
    change r.registered = (s.handovers ++ s.handedOver k r).getLast?.bind (·.after)
    unfold handedOver
    split
    · rename_i hsame
      rw [List.append_nil, hsame]
      exact hs.last
    · simp

/-- What happens besides the calls keeps everything. -/
theorem Sound.aside (hs : s.Sound) (hplaced : next.Placed) (hcallers : next.callers = s.callers)
    (hhandovers : next.handovers = s.handovers) (hheld : next.registry.held = s.registry.held)
    (hregistered : next.registry.registered = s.registry.registered) : next.Sound where
  placed := hplaced
  turn := by
    rw [hcallers, hheld]
    exact hs.turn
  held := by
    rw [hheld, hregistered]
    exact hs.held
  regular := hcallers ▸ hs.regular
  handovers := by
    rw [hhandovers, hcallers]
    exact hs.handovers
  once := hhandovers ▸ hs.once
  last := by
    rw [hregistered, hhandovers]
    exact hs.last

theorem Sound.call (hs : s.Sound) (call : Call) :
    Sound { s with callers := s.callers ++ [.start call] } where
  placed := hs.placed.call call
  turn := by
    have hnew : (Caller.start call).isHolding = false := by cases call <;> rfl
    rw [List.countP_append, List.countP_singleton, hnew]
    exact hs.turn
  held := hs.held
  regular := by
    intro u hu
    rcases List.mem_append.mp hu with hu | hu
    · exact hs.regular u hu
    · obtain rfl := List.mem_singleton.mp hu
      cases call <;> simp [Caller.IsRegular, Caller.start, Call.start, Caller.made?]
  handovers := by
    intro h hmem
    obtain ⟨u, hu, hover⟩ := hs.handovers h hmem
    have hlt := (List.getElem?_eq_some_iff.mp hu).1
    exact ⟨u, (List.getElem?_append_left hlt).trans hu, hover⟩
  once := hs.once
  last := hs.last

/-- A first build that fails keeps everything. -/
theorem Sound.abort (hs : s.Sound) (hu : s.callers[k]? = some u)
    (hbuilding : u.build.isBuilding = true) (failure : Failure) :
    (s.withCaller k s.registry { u with build := (u.build.abort failure).1 }).Sound := by
  have hnone : s.handedOver k s.registry = [] := if_pos rfl
  constructor
  · cases hplace : u.place? with
    | none => exact hs.placed.idle hu rfl rfl rfl rfl hplace hplace
    | some i =>
        exact hs.placed.keep hu hplace rfl rfl rfl rfl fun c hfits =>
          Or.inl ⟨hplace, hfits.abort hbuilding failure⟩
  · obtain ⟨others, hcount, hnext⟩ := exists_countP_isHolding hu
    exact (hnext _).trans (hcount.symm.trans hs.turn)
  · exact hs.held
  · intro v hv
    rcases List.mem_or_eq_of_mem_set hv with hv | rfl
    · exact hs.regular v hv
    · exact hs.regular u (List.mem_of_getElem? hu)
  · intro h hmem
    rw [withCaller, hnone, List.append_nil] at hmem
    refine hs.keepsHandovers hu (fun _ hover => ?_) hmem
    exact hover
  · rw [withCaller, hnone, List.append_nil]
    exact hs.once
  · rw [withCaller, hnone, List.append_nil]
    exact hs.last

theorem act_advance {around : Surroundings} (hs : s.Sound) (husual : around.AreUsual)
    (hact : s.act (.advance k around) = some next) :
    ∃ u r u', s.callers[k]? = some u ∧ u.Move s.registry r u' ∧ next = s.withCaller k r u' := by
  simp only [act, Option.bind_eq_some_iff, Option.map_eq_some_iff, Prod.exists] at hact
  obtain ⟨u, hu, r, u', hstep, rfl⟩ := hact
  refine ⟨u, r, u', hu, Caller.move_of_step hstep husual (fun i hplace => ?_)
    (hs.regular u (List.mem_of_getElem? hu)) (hs.isHolding hu), rfl⟩
  obtain ⟨c, hc, -, -, -, htended, -⟩ := hs.placed.used hu hplace
  exact ⟨c, hc, htended⟩

/-- Asking a coordinator for a rebuild keeps everything. -/
theorem Sound.send (hs : s.Sound) {request : Request} {reason : String} {raising : Bool}
    (hact : s.act (.send i request reason raising) = some next) : next.Sound := by
  obtain ⟨c, hc, hact⟩ := Option.bind_eq_some_iff.mp hact
  split at hact
  · rename_i hloaded
    obtain rfl := Option.some.inj hact
    refine hs.aside (hs.placed.ask rfl rfl fun j t hmem => ?_) rfl rfl rfl rfl
    rcases List.mem_append.mp hmem with hold | hnew
    · exact Or.inl hold
    · obtain ⟨rfl, rfl⟩ := Prod.mk.inj (List.mem_singleton.mp hnew)
      refine Or.inr ⟨c, hc, hloaded, fun g hg => ?_⟩
      cases request <;> simp [Trigger.begin] at hg
  · contradiction

/-- A step of a rebuild that was asked for keeps everything. -/
theorem Sound.advanceErrand (hs : s.Sound) {e : Nat} {around : Surroundings}
    (hact : s.act (.advanceErrand e around) = some next) : next.Sound := by
  obtain ⟨⟨i, t⟩, he, hact⟩ := Option.bind_eq_some_iff.mp hact
  obtain ⟨c, hc, hact⟩ := Option.bind_eq_some_iff.mp hact
  obtain ⟨⟨keeper, t', logs⟩, hstep, rfl⟩ := Option.map_eq_some_iff.mp hact
  obtain ⟨d, hd, hloaded, hfits⟩ := hs.placed.errands i t (List.mem_of_getElem? he)
  obtain rfl : d = c := Option.some.inj (hd.symm.trans hc)
  have hmove := Trigger.move_of_step hstep
  have hslot := hmove.evolves hfits
  refine hs.aside (hs.placed.evolve hc (Coordinator.evolves_withKeeper hslot) (Or.inl hloaded)
    rfl rfl fun j u hmem => ?_) rfl rfl rfl rfl
  rcases List.mem_or_eq_of_mem_set hmem with hold | hnew
  · exact Or.inl hold
  · obtain ⟨rfl, rfl⟩ := Prod.mk.inj hnew
    exact Or.inr ⟨rfl, Slot.hasLoaded_of_le hloaded hslot.number, hmove.fits⟩

/-- A rebuild that was asked for and fails keeps everything. -/
theorem Sound.abortErrand (hs : s.Sound) {e : Nat} {failure : Failure}
    (hact : s.act (.abortErrand e failure) = some next) : next.Sound := by
  obtain ⟨⟨i, t⟩, he, hact⟩ := Option.bind_eq_some_iff.mp hact
  simp only at hact
  split at hact
  · rename_i hbuilding
    obtain rfl := Option.some.inj hact
    obtain ⟨c, hc, hloaded, -⟩ := hs.placed.errands i t (List.mem_of_getElem? he)
    refine hs.aside (hs.placed.ask rfl rfl fun j u hmem => ?_) rfl rfl rfl rfl
    rcases List.mem_or_eq_of_mem_set hmem with hold | hnew
    · exact Or.inl hold
    · obtain ⟨rfl, rfl⟩ := Prod.mk.inj hnew
      refine Or.inr ⟨c, hc, hloaded, fun g hg => ?_⟩
      rw [Trigger.abort_eq hbuilding] at hg
      simp at hg
  · contradiction

/-- What a coordinator does by itself keeps everything. -/
theorem Sound.chore (hs : s.Sound) {task : Chore} (hact : s.act (.chore i task) = some next) :
    next.Sound := by
  obtain ⟨c, hc, hact⟩ := Option.bind_eq_some_iff.mp hact
  obtain ⟨c', hchore, rfl⟩ := Option.map_eq_some_iff.mp hact
  obtain ⟨hevolves, hnumber⟩ := Coordinator.chore_evolves hchore
  exact hs.aside (hs.placed.evolve hc hevolves (Or.inr hnumber) rfl rfl fun _ _ => Or.inl)
    rfl rfl rfl rfl

theorem act_sound (hs : s.Sound) (husual : deed.IsUsual) (hact : s.act deed = some next) :
    next.Sound := by
  cases deed with
  | call call =>
      obtain rfl := Option.some.inj hact
      exact hs.call call
  | advance k around =>
      obtain ⟨u, r, u', hu, hmove, rfl⟩ := act_advance hs husual hact
      exact hs.move hu hmove
  | abort k failure =>
      obtain ⟨u, hu, hact⟩ := Option.bind_eq_some_iff.mp hact
      split at hact
      · obtain rfl := Option.some.inj hact
        exact hs.abort hu ‹_› failure
      · contradiction
  | send i request reason raising => exact hs.send hact
  | advanceErrand e around => exact hs.advanceErrand hact
  | abortErrand e failure => exact hs.abortErrand hact
  | chore i task => exact hs.chore hact

theorem Reachable.sound {environment : Settings.Environment}
    (hreach : Reachable (Succession.start environment) s) : s.Sound := by
  induction hreach with
  | start => exact start_sound environment
  | act deed _ husual hact ih => exact act_sound ih husual hact

/-! ## Lives of coordinators -/

/-- What becomes of the coordinators of a process. -/
structure Orderly (s : Succession) : Prop where
  /-- The shared coordinator is open, has a generation, and is no call's own. -/
  registered : ∀ i, s.registry.registered = some i → ∃ c g generation,
    s.coordinator? i = some c ∧ c.slot.closed = false ∧ c.slot.current = some g ∧
      c.slot.generation? g = some generation ∧ s.users i = []
  /-- Any other one that was built is with the call that made it, with the one call that closes it,
  or closed for good. -/
  others : ∀ i c, s.coordinator? i = some c → c.slot.hasLoaded = true →
    s.registry.registered ≠ some i →
    (∃ u, s.users i = [u] ∧ u.made? = some i) ∨ (∃ u, s.users i = [u] ∧ u.closes? = some i) ∨
      (s.users i = [] ∧ c.IsShut)
  /-- A call that closes a coordinator gets there by its own steps. -/
  closes : ∀ (k : Nat) (u : Caller) (i : Nat), s.callers[k]? = some u → u.closes? = some i →
    ∀ around : Surroundings, around.AreUsual → ∃ n ≤ 5, ∃ last c,
      s.run (List.replicate n (.advance k around)) = some last ∧ last.coordinator? i = some c ∧
        c.IsShut
  failed : ∀ (k : Nat) (u : Caller) (failure : Failure), s.callers[k]? = some u →
    u.stage = .finished (.error failure) → ∀ h ∈ s.handovers, h.caller ≠ k
  /-- A call changes what is shared once at most: to its own coordinator in one step, or to none. -/
  handovers : ∀ h ∈ s.handovers, ∃ u, s.callers[h.caller]? = some u ∧ u.HandedOver h
  once : (s.handovers.map (·.caller)).Nodup
  last : s.registry.registered = s.handovers.getLast?.bind (·.after)

/-- Nothing keeps a call that closes from its next step. -/
theorem Sound.closes {around : Surroundings} (husual : around.AreUsual) {result : Option Nat}
    (hs : s.Sound) (hu : s.callers[k]? = some u) (hstage : u.stage = .closing i result) :
    ∃ n ≤ u.closing.stepsLeft, ∃ last c,
      s.run (List.replicate n (.advance k around)) = some last ∧ last.coordinator? i = some c ∧
        c.IsShut := by
  induction hleft : u.closing.stepsLeft generalizing s u with
  | zero => cases hclosing : u.closing <;> simp [hclosing, Closing.stepsLeft] at hleft
  | succ n ih =>
      have hplace : u.place? = some i := by simp [Caller.place?, hstage]
      obtain ⟨c, hc, -, -, hfits, htended, -⟩ := hs.placed.used hu hplace
      simp only [Caller.Fits, hstage] at hfits
      obtain ⟨-, hreached⟩ := hfits.stepClose htended
      have hlt := (List.getElem?_eq_some_iff.mp hu).1
      have hindex : s.registry.coordinators[i]? = some c := hc
      cases hlater : (c.stepClose u.closing).2 with
      | some later =>
          have hact : s.act (.advance k around) = some (s.withCaller k
              (s.registry.modify i fun _ => (c.stepClose u.closing).1)
              { u with closing := later }) := by
            simp [act, hu, Caller.step, hstage, hindex, hlater]
          have hallowed : Deed.IsUsual (.advance k around) := husual
          have hfewer := Coordinator.stepsLeft_stepClose hlater
          obtain ⟨m, hm, last, d, hrun, hlast⟩ := ih (act_sound hs hallowed hact)
            (List.getElem?_set_self hlt) hstage (by simp only; omega)
          refine ⟨m + 1, by omega, last, d, ?_, hlast⟩
          rw [List.replicate_succ, run, hact]
          exact hrun
      | none =>
          rw [hlater] at hreached
          have hact : s.act (.advance k around) = some (s.withCaller k
              (s.registry.modify i fun _ => (c.stepClose u.closing).1)
              (u.moveTo (.finished (.ok result)))) := by
            simp [act, hu, Caller.step, hstage, hindex, hlater]
          refine ⟨1, by omega, s.withCaller k
            (s.registry.modify i fun _ => (c.stepClose u.closing).1)
            (u.moveTo (.finished (.ok result))), (c.stepClose u.closing).1, ?_,
            (coordinators_modify hc i).trans (if_pos rfl), hreached⟩
          rw [List.replicate_one, run, hact]
          rfl

theorem Sound.orderly (hs : s.Sound) : s.Orderly where
  registered := by
    intro i hi
    obtain ⟨c, hc, hnone, hopen, hcurrent⟩ := hs.placed.registered hi
    obtain ⟨g, hg⟩ := Option.isSome_iff_exists.mp hcurrent
    have hlt : g < c.slot.built.size := (hs.placed.coordinators i c hc).2.2 g hg
    exact ⟨c, g, _, hc, hopen, hg,
      Slot.generation?_eq_some_iff.mpr ⟨_, Array.getElem?_eq_getElem hlt, rfl⟩, hnone⟩
  others := by
    intro i c hc hloaded hother
    obtain ⟨hstanding, -⟩ := hs.placed.coordinators i c hc
    cases hstanding with
    | registered hsame hnone hserving => exact absurd hsame hother
    | used u _ halone hfits =>
        have hmem : u ∈ s.users i := by simp [halone]
        have hplace := (mem_users.mp hmem).2
        cases hstage : u.stage with
        | building j background | starting j background | registering j =>
            refine Or.inl ⟨u, halone, ?_⟩
            simpa [Caller.place?, Caller.made?, hstage] using hplace
        | closing j result =>
            refine Or.inr (Or.inl ⟨u, halone, ?_⟩)
            simpa [Caller.place?, Caller.closes?, hstage] using hplace
        | preparing | waiting | finished => simp [Caller.place?, hstage] at hplace
    | free _ hnone hshut => exact Or.inr (Or.inr ⟨hnone, hshut hloaded⟩)
  closes := by
    intro k u i hu hcloses around husual
    obtain ⟨result, hstage⟩ : ∃ result, u.stage = .closing i result := by
      unfold Caller.closes? at hcloses
      split at hcloses
      · rename_i j result hstage
        obtain rfl := Option.some.inj hcloses
        exact ⟨result, hstage⟩
      · contradiction
    obtain ⟨n, hn, hrest⟩ := hs.closes husual hu hstage
    have hleft : u.closing.stepsLeft ≤ 5 := by cases u.closing <;> simp [Closing.stepsLeft]
    exact ⟨n, hn.trans hleft, hrest⟩
  failed := by
    intro k u failure hu hstage h hmem hk
    obtain ⟨v, hv, hover, -⟩ := hs.handovers h hmem
    obtain rfl : u = v := Option.some.inj (hu.symm.trans (hk ▸ hv))
    rcases hover with hfinished | ⟨taken, -, hclosing⟩
    · simp [hstage] at hfinished
    · simp [hstage] at hclosing
  handovers := hs.handovers
  once := hs.once
  last := hs.last

/-- However calls overlap and their builds fail, the shared coordinator serves, and every other one
is with one call that hands it over or closes it, or it is closed. -/
theorem reachable_orderly {environment : Settings.Environment}
    (hreach : Reachable (start environment) s) : s.Orderly :=
  hreach.sound.orderly

/-- There is a catalog of one file, and no observer can be started. -/
def unwatched : Surroundings where
  disk := fun _ => oneFile 1 (.int 1)
  here := "/"
  now := ⟨⟨2024, 5, 1⟩, 22, 0, 0, 0⟩
  utc := ⟨⟨2024, 5, 1⟩, 20, 0, 0, 0⟩
  refusal := some (.notifications "inotify limit reached")

/-- A coordinator is put in the place of another one, the closing of that begins, and meanwhile the
build of a third one fails. -/
def relay : List Deed :=
  let init : Deed := .call (.init (some { Settings.default with databasePath := "c" }) true)
  init :: List.replicate 15 (.advance 0 unwatched) ++
    init :: List.replicate 16 (.advance 1 unwatched) ++
    [init, .advance 2 unwatched, .advance 2 unwatched, .abort 2 (.other .runtime "out of memory"),
      .advance 2 unwatched, .advance 2 unwatched]

theorem reachable_orderly_relay :
    ∃ s, (start .empty).run relay = some s ∧ s.registry.registered = some 1 ∧
      s.handovers = [⟨0, none, some 0⟩, ⟨1, some 0, some 1⟩] ∧
      s.callers.map Caller.closes? = [none, some 0, none] ∧
      s.registry.coordinators.toList.map (·.slot.hasLoaded) = [true, true, false] ∧ s.Orderly := by
  have hend : ((start .empty).run relay).map (fun s => (s.registry.registered, s.handovers,
      s.callers.map Caller.closes?, s.registry.coordinators.toList.map (·.slot.hasLoaded))) =
      some (some 1, [⟨0, none, some 0⟩, ⟨1, some 0, some 1⟩], [none, some 0, none],
        [true, true, false]) := by
    decide +kernel
  obtain ⟨s, hrun, hs⟩ := Option.map_eq_some_iff.mp hend
  simp only [Prod.mk.injEq] at hs
  have hsurroundings : unwatched.AreUsual :=
    ⟨fun failure hfailure => by obtain rfl := Option.some.inj hfailure; rfl, by decide +kernel⟩
  have husual : ∀ deed ∈ relay, deed.IsUsual := by
    simp [relay, Deed.IsUsual, hsurroundings]
  exact ⟨s, hrun, hs.1, hs.2.1, hs.2.2.1, hs.2.2.2,
    reachable_orderly (.of_run .start husual hrun)⟩

end Succession

end DiskCatalog.Refresh

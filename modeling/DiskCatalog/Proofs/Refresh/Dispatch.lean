import DiskCatalog.Proofs.Refresh.Lifetimes
import DiskCatalog.Refresh.ChangeQueue

/-!
# Handing changes over

`Dispatch` is a queue of changes together with the flushes that its timers have started.  Paths are
added, timers expire, and flushes take their steps in any order; a timer that has expired is a flush
that is starting, which nothing can call back.  The list `notes` only records what has happened.

A path that was added goes from the queue to a flush and from there to the callback, or aside and to
the flush that is at it.  Wherever it is, there is something that will take it on: a timer, a flush
that is starting, or a flush that has still to look at what was put aside.  Nothing multiplies a
path on its way, and the flush that hands over has the turn alone.
-/

namespace DiskCatalog.Refresh

/-! ## Paths in a list -/

@[simp] theorem mem_insertPath {path p : String} {paths : List String} :
    p ∈ insertPath path paths ↔ p = path ∨ p ∈ paths := by
  induction paths with
  | nil => simp [insertPath]
  | cons first paths ih =>
      by_cases hsame : path = first
      · subst hsame
        simp [insertPath]
      · by_cases hbefore : path < first
        · simp [insertPath, hsame, hbefore]
        · simp only [insertPath, hsame, hbefore, if_false, List.mem_cons, ih]
          tauto

theorem mem_foldr_insertPath {p : String} {batch paths : List String} :
    p ∈ batch.foldr insertPath paths ↔ p ∈ batch ∨ p ∈ paths := by
  induction batch with
  | nil => simp
  | cons first batch ih =>
      rw [List.foldr_cons, mem_insertPath, ih, List.mem_cons, or_assoc]

theorem count_insertPath_le (path p : String) (paths : List String) :
    (insertPath path paths).count p ≤ [path].count p + paths.count p := by
  induction paths with
  | nil => simp [insertPath]
  | cons first paths ih =>
      unfold insertPath
      split
      · omega
      · split
        · simp only [List.count_cons, List.count_nil]
          omega
        · simp only [List.count_cons, List.count_nil] at ih ⊢
          omega

theorem count_foldr_insertPath_le (p : String) (batch paths : List String) :
    (batch.foldr insertPath paths).count p ≤ batch.count p + paths.count p := by
  induction batch with
  | nil => simp
  | cons first batch ih =>
      have hfirst := count_insertPath_le first p (batch.foldr insertPath paths)
      rw [List.foldr_cons, ← List.singleton_append, List.count_append]
      omega

/-! ## The steps of a flush -/

namespace Flush

/-- The paths that a flush has taken and neither handed over nor put aside. -/
def held : Flush → List String
  | .trying batch | .yielding batch => batch
  | _ => []

/-- The batch that is handed over as a flush comes to a stage. -/
def handed : Flush → List String
  | .calling batch => batch
  | _ => []

/-- Whether a flush is the one that hands over. -/
def isInside : Flush → Bool
  | .calling _ | .draining | .leaving => true
  | _ => false

def isCalling : Flush → Bool
  | .calling _ => true
  | _ => false

/-- Whether a flush has still to see to a timer, or to look at what was put aside. -/
def isWatchful : Flush → Bool
  | .trying _ | .yielding _ | .calling _ | .draining => true
  | _ => false

/-- What a step of a flush does to its queue and to itself. -/
inductive Move (q : ChangeQueue) : Flush → ChangeQueue → Flush → Prop where
  | rest : q.paths = [] → q.pending = [] → Move q .starting { q with paths := [], timer := none }
      .finished
  | take : q.paths ≠ [] ∨ q.pending ≠ [] → Move q .starting { q with paths := [], timer := none }
      (.trying q.paths)
  | yield (batch : List String) : q.busy = true → Move q (.trying batch) q (.yielding batch)
  | enter (batch : List String) : q.busy = false →
      Move q (.trying batch) { q with busy := true } (.calling batch)
  | rearm (batch : List String) : q.timer = none → Move q (.yielding batch)
      ({ q with pending := batch.foldr insertPath q.pending } : ChangeQueue).arm .finished
  | putAside (batch : List String) : q.timer.isSome → Move q (.yielding batch)
      { q with pending := batch.foldr insertPath q.pending } .finished
  | drained : q.pending = [] → Move q .draining q .leaving
  | again : q.pending ≠ [] → Move q .draining { q with pending := [] } (.calling q.pending)
  | leave : Move q .leaving { q with busy := false } .finished

variable {q q' : ChangeQueue} {f f' : Flush}

theorem move_of_step (hstep : f.step q = some (q', f')) : f.Move q q' f' := by
  cases f with
  | starting =>
      simp only [step, Option.some.injEq, Prod.mk.injEq] at hstep
      obtain ⟨rfl, rfl⟩ := hstep
      by_cases hnone : q.paths = [] ∧ q.pending = []
      · have hempty : (q.paths.isEmpty && q.pending.isEmpty) = true := by simp [hnone]
        rw [if_pos hempty]
        exact .rest hnone.1 hnone.2
      · have hsome : ¬ (q.paths.isEmpty && q.pending.isEmpty) = true := by simpa using hnone
        rw [if_neg hsome]
        exact .take (not_and_or.mp hnone)
  | trying batch =>
      cases hbusy : q.busy with
      | true =>
          simp only [step, hbusy, if_true, Option.some.injEq, Prod.mk.injEq] at hstep
          obtain ⟨rfl, rfl⟩ := hstep
          exact .yield batch hbusy
      | false =>
          simp only [step, hbusy, Bool.false_eq_true, if_false, Option.some.injEq,
            Prod.mk.injEq] at hstep
          obtain ⟨rfl, rfl⟩ := hstep
          exact .enter batch hbusy
  | yielding batch =>
      simp only [step, Option.some.injEq, Prod.mk.injEq] at hstep
      obtain ⟨rfl, rfl⟩ := hstep
      cases htimer : q.timer with
      | none => simpa [htimer] using Move.rearm batch htimer
      | some t => simpa [htimer] using Move.putAside (q := q) batch (by simp [htimer])
  | draining =>
      by_cases hnone : q.pending = []
      · simp only [step, hnone, List.isEmpty_nil, if_true, Option.some.injEq,
          Prod.mk.injEq] at hstep
        obtain ⟨rfl, rfl⟩ := hstep
        exact .drained hnone
      · have hsome : ¬ q.pending.isEmpty = true := by simpa using hnone
        simp only [step, if_neg hsome, Option.some.injEq, Prod.mk.injEq] at hstep
        obtain ⟨rfl, rfl⟩ := hstep
        exact .again hnone
  | leaving =>
      simp only [step, Option.some.injEq, Prod.mk.injEq] at hstep
      obtain ⟨rfl, rfl⟩ := hstep
      exact .leave
  | calling batch | finished => simp [step] at hstep

/-- A path that is in the queue or with the flush is so after a step, or it was handed over. -/
theorem Move.keeps (hmove : f.Move q q' f') {p : String}
    (hp : p ∈ q.paths ∨ p ∈ f.held ∨ p ∈ q.pending) :
    p ∈ f'.handed ∨ p ∈ q'.paths ∨ p ∈ f'.held ∨ p ∈ q'.pending := by
  cases hmove with
  | rest hpaths hpending => simp [hpaths, hpending, held] at hp
  | take hsome =>
      simp only [held, List.not_mem_nil, false_or] at hp ⊢
      tauto
  | yield batch hbusy => exact Or.inr hp
  | enter batch hfree =>
      simp only [held, handed, List.not_mem_nil, false_or] at hp ⊢
      tauto
  | rearm batch htimer | putAside batch htimer =>
      simp only [held, ChangeQueue.arm, mem_foldr_insertPath, List.not_mem_nil, false_or] at hp ⊢
      tauto
  | drained hnone => exact Or.inr hp
  | again hsome =>
      simp only [held, handed, List.not_mem_nil, false_or, or_false] at hp ⊢
      tauto
  | leave => exact Or.inr hp

/-- No step multiplies a path. -/
theorem Move.count_le (hmove : f.Move q q' f') (p : String) :
    f'.handed.count p + q'.paths.count p + f'.held.count p + q'.pending.count p ≤
      q.paths.count p + f.held.count p + q.pending.count p := by
  cases hmove with
  | rearm batch htimer | putAside batch htimer =>
      have hinserted := count_foldr_insertPath_le p batch q.pending
      simp only [handed, held, ChangeQueue.arm, List.count_nil]
      omega
  | rest | take | yield | enter | drained | again | leave =>
      simp only [handed, held, List.count_nil]
      omega

/-- A step leaves the turn alone, or it takes the turn or gives it back. -/
theorem Move.turn (hmove : f.Move q q' f') :
    (f'.isInside = f.isInside ∧ q'.busy = q.busy) ∨
    (q.busy = false ∧ f.isInside = false ∧ f'.isInside = true ∧ q'.busy = true) ∨
    (f.isInside = true ∧ f'.isInside = false ∧ q'.busy = false) := by
  cases hmove with
  | enter batch hfree => exact Or.inr (Or.inl ⟨hfree, rfl, rfl, rfl⟩)
  | leave => exact Or.inr (Or.inr ⟨rfl, rfl, rfl⟩)
  | rest | take | yield | rearm | putAside | drained | again => exact Or.inl ⟨rfl, rfl⟩

end Flush

/-! ## Queues at work -/

/-- What others can see of a queue. -/
inductive Note where
  | added (path : String)
  | cancelled
  | handed (batch : List String)
  deriving DecidableEq, Repr

namespace Note

def newPaths : Note → List String
  | .added path => [path]
  | _ => []

def batch : Note → List String
  | .handed batch => batch
  | _ => []

/-- Whether a path that was added has still to be handed over, from what it was before. -/
def owes (path : String) (owed : Bool) : Note → Bool
  | .added p => owed || p == path
  | .cancelled => false
  | .handed batch => owed && !batch.contains path

end Note

/-- What is noted as a flush comes to a stage. -/
def Flush.notes : Flush → List Note
  | .calling batch => [.handed batch]
  | _ => []

structure Dispatch where
  queue : ChangeQueue
  /-- The flushes of all timers that have expired, in order. -/
  flushes : List Flush := []
  notes : List Note := []
  logs : List Log.Record := []

/-- One atomic step of something that is under way. -/
inductive Occurrence where
  | add (path : String)
  | cancel
  | expire (timer : Nat)
  | advance (flush : Nat)
  /-- The work on the batch of a flush comes to its end, by a failure if there is one. -/
  | done (flush : Nat) (failure : Option Failure)
  deriving DecidableEq, Repr

namespace Dispatch

def ofDelay (seconds : Binary64) : Dispatch where
  queue := .ofDelay seconds

/-- One step, if it can be taken. -/
def act (s : Dispatch) : Occurrence → Option Dispatch
  | .add path => some { s with queue := s.queue.add path, notes := s.notes ++ [.added path] }
  | .cancel => some { s with queue := s.queue.cancel, notes := s.notes ++ [.cancelled] }
  | .expire t =>
    if t ∈ s.queue.armed then
      some { s with queue := s.queue.expire t, flushes := s.flushes ++ [.starting] }
    else none
  | .advance i =>
    match s.flushes[i]? with
    | none => none
    | some f => (f.step s.queue).map fun (queue, next) =>
      { s with queue, flushes := s.flushes.set i next, notes := s.notes ++ next.notes }
  | .done i failure =>
    match s.flushes[i]? with
    | some (.calling batch) => some { s with
        flushes := s.flushes.set i (Flush.calling batch).returned
        logs := s.logs ++ failure.toList.map Flush.report }
    | _ => none

def run (s : Dispatch) : List Occurrence → Option Dispatch
  | [] => some s
  | occurrence :: occurrences => (s.act occurrence).bind fun next => next.run occurrences

inductive Reachable (first : Dispatch) : Dispatch → Prop where
  | start : Reachable first first
  | act {s next : Dispatch} (occurrence : Occurrence) : Reachable first s →
      s.act occurrence = some next → Reachable first next

theorem Reachable.of_run {first s next : Dispatch} {occurrences : List Occurrence}
    (hreach : Reachable first s) (hrun : s.run occurrences = some next) :
    Reachable first next := by
  induction occurrences generalizing s with
  | nil =>
      obtain rfl := Option.some.inj hrun
      exact hreach
  | cons occurrence occurrences ih =>
      obtain ⟨middle, hact, hrest⟩ := Option.bind_eq_some_iff.mp hrun
      exact ih (.act occurrence hreach hact) hrest

/-- A timer runs, or one has expired and its flush has not begun. -/
def Awaits (s : Dispatch) : Prop :=
  s.queue.armed ≠ [] ∨ .starting ∈ s.flushes

/-- What was put aside will be looked at. -/
def Watches (s : Dispatch) : Prop :=
  s.Awaits ∨ ∃ f ∈ s.flushes, f.isWatchful = true

def held (s : Dispatch) : List String :=
  s.flushes.flatMap Flush.held

def Holds (s : Dispatch) (path : String) : Prop :=
  path ∈ s.queue.paths ∨ path ∈ s.held ∨ path ∈ s.queue.pending

/-- Whether a path was added and neither handed over nor dropped since. -/
def Owes (s : Dispatch) (path : String) : Bool :=
  s.notes.foldl (Note.owes path) false

def added (s : Dispatch) : List String :=
  s.notes.flatMap Note.newPaths

def handed (s : Dispatch) : List String :=
  s.notes.flatMap Note.batch

/-- Nothing is lost, nothing is multiplied, and the turn is taken by one flush at most. -/
structure Sound (s : Dispatch) : Prop where
  timer : s.queue.timer.isSome → s.Awaits
  paths : s.queue.paths ≠ [] → s.Awaits
  pending : s.queue.pending ≠ [] → s.Watches
  turn : s.flushes.countP Flush.isInside = if s.queue.busy then 1 else 0
  owed : ∀ path, s.Owes path = true → s.Holds path
  count : ∀ path, s.handed.count path + s.queue.paths.count path + s.held.count path +
    s.queue.pending.count path ≤ s.added.count path

theorem exists_perm_set {α : Type} {items : List α} {i : Nat} {item : α}
    (hitem : items[i]? = some item) :
    ∃ others, items.Perm (item :: others) ∧
      ∀ other, (items.set i other).Perm (other :: others) := by
  obtain ⟨before, after, hitems, hset⟩ := Traffic.exists_set_eq hitem
  refine ⟨before ++ after, hitems ▸ List.perm_middle, fun other => ?_⟩
  rw [hset other]
  exact List.perm_middle

/-! ### What an occurrence does -/

/-- What an occurrence does, one case for each sort of it. -/
inductive Effect (s : Dispatch) : Occurrence → Dispatch → Prop where
  | add (path : String) : Effect s (.add path)
      { s with queue := s.queue.add path, notes := s.notes ++ [.added path] }
  | cancel : Effect s .cancel
      { s with queue := s.queue.cancel, notes := s.notes ++ [.cancelled] }
  | expire (t : Nat) : Effect s (.expire t)
      { s with queue := s.queue.expire t, flushes := s.flushes ++ [.starting] }
  | advance {i : Nat} {f f' : Flush} {q : ChangeQueue} : s.flushes[i]? = some f →
      f.Move s.queue q f' → Effect s (.advance i)
        { s with queue := q, flushes := s.flushes.set i f', notes := s.notes ++ f'.notes }
  | done {i : Nat} {batch : List String} (failure : Option Failure) :
      s.flushes[i]? = some (.calling batch) → Effect s (.done i failure)
        { s with
          flushes := s.flushes.set i .draining
          logs := s.logs ++ failure.toList.map Flush.report }

variable {s next : Dispatch} {occurrence : Occurrence}

theorem effect_of_act (hact : s.act occurrence = some next) : s.Effect occurrence next := by
  cases occurrence with
  | add path =>
      obtain rfl := Option.some.inj hact
      exact .add path
  | cancel =>
      obtain rfl := Option.some.inj hact
      exact .cancel
  | expire t =>
      simp only [act] at hact
      split at hact
      · obtain rfl := Option.some.inj hact
        exact .expire t
      · contradiction
  | advance i =>
      cases hf : s.flushes[i]? with
      | none => simp [act, hf] at hact
      | some f =>
          simp only [act, hf, Option.map_eq_some_iff, Prod.exists] at hact
          obtain ⟨queue, f', hstep, rfl⟩ := hact
          exact .advance hf (Flush.move_of_step hstep)
  | done i failure =>
      simp only [act] at hact
      split at hact
      · rename_i batch hf
        obtain rfl := Option.some.inj hact
        exact .done failure hf
      · contradiction

/-- A step of a flush, with the flushes that it leaves alone. -/
structure Moves (s next : Dispatch) (f f' : Flush) (others : List Flush) : Prop where
  move : f.Move s.queue next.queue f'
  before : s.flushes.Perm (f :: others)
  after : next.flushes.Perm (f' :: others)
  notes : next.notes = s.notes ++ f'.notes

theorem act_advance {i : Nat} (hact : s.act (.advance i) = some next) :
    ∃ f f' others, s.Moves next f f' others := by
  cases effect_of_act hact with
  | @advance i f f' queue hf hmove =>
      obtain ⟨others, hbefore, hafter⟩ := exists_perm_set hf
      exact ⟨f, f', others, hmove, hbefore, hafter f', rfl⟩

end Dispatch

/-! ### What a step does to timers, turns and notes -/

namespace ChangeQueue

variable (q : ChangeQueue) (path : String)

theorem disarm_eq : ∃ armed, q.disarm = { q with armed } := by
  unfold disarm
  split
  · exact ⟨q.armed, rfl⟩
  · exact ⟨_, rfl⟩

/-- A path that is added is in the queue, and a timer runs. -/
theorem add_eq : ∃ armed t, armed ≠ [] ∧ q.add path = { q with
    paths := insertPath path q.paths, timer := some t, armed, started := q.started + 1 } := by
  obtain ⟨armed, hdisarmed⟩ := disarm_eq { q with paths := insertPath path q.paths }
  refine ⟨armed ++ [q.started], q.started, by simp, ?_⟩
  rw [add, hdisarmed, arm]

theorem cancel_eq : ∃ armed,
    q.cancel = { q with armed, timer := none, paths := [], pending := [] } := by
  obtain ⟨armed, hdisarmed⟩ := q.disarm_eq
  exact ⟨armed, by rw [cancel, hdisarmed]⟩

end ChangeQueue

namespace Flush

variable {q q' : ChangeQueue} {f f' : Flush}

theorem Move.armed (hmove : f.Move q q' f') (harmed : q.armed ≠ []) : q'.armed ≠ [] := by
  cases hmove with
  | rearm => simp [ChangeQueue.arm]
  | rest | take | yield | enter | putAside | drained | again | leave => exact harmed

theorem foldl_notes (f : Flush) (path : String) (owed : Bool) :
    f.notes.foldl (Note.owes path) owed = (owed && !f.handed.contains path) := by
  cases f <;> simp [notes, handed, Note.owes]

theorem flatMap_notes (f : Flush) :
    f.notes.flatMap Note.newPaths = [] ∧ f.notes.flatMap Note.batch = f.handed := by
  cases f <;> simp [notes, handed, Note.newPaths, Note.batch]

end Flush

namespace Dispatch

variable {s next : Dispatch} {f f' : Flush} {others : List Flush}

theorem mem_held (hperm : s.flushes.Perm (f :: others)) {path : String} :
    path ∈ s.held ↔ path ∈ f.held ∨ path ∈ others.flatMap Flush.held := by
  rw [held, (hperm.flatMap_right Flush.held).mem_iff, List.flatMap_cons, List.mem_append]

theorem count_held (hperm : s.flushes.Perm (f :: others)) (path : String) :
    s.held.count path = f.held.count path + (others.flatMap Flush.held).count path := by
  rw [held, (hperm.flatMap_right Flush.held).count_eq, List.flatMap_cons, List.count_append]

namespace Moves

/-- A timer that is awaited stays so while other flushes than the one that starts take steps. -/
theorem awaits (hmoves : s.Moves next f f' others) (hf : f ≠ .starting) (hs : s.Awaits) :
    next.Awaits := by
  rcases hs with harmed | hstarting
  · exact Or.inl (hmoves.move.armed harmed)
  · refine Or.inr (hmoves.after.mem_iff.mpr (List.mem_cons_of_mem f' ?_))
    exact (List.mem_cons.mp (hmoves.before.mem_iff.mp hstarting)).resolve_left (Ne.symm hf)

theorem watches (hmoves : s.Moves next f f' others) (hf' : f'.isWatchful = true) :
    next.Watches :=
  Or.inr ⟨f', hmoves.after.mem_iff.mpr List.mem_cons_self, hf'⟩

theorem owes (hmoves : s.Moves next f f' others) (path : String) :
    next.Owes path = (s.Owes path && !f'.handed.contains path) := by
  rw [Owes, hmoves.notes, List.foldl_append, f'.foldl_notes path]
  rfl

theorem holds (hmoves : s.Moves next f f' others) {path : String} (hs : s.Holds path) :
    path ∈ f'.handed ∨ next.Holds path := by
  simp only [Holds, mem_held hmoves.before, mem_held hmoves.after] at hs ⊢
  have hkeeps := hmoves.move.keeps (p := path)
  tauto

theorem timer (hmoves : s.Moves next f f' others) (hs : s.Sound)
    (htimer : next.queue.timer.isSome) : next.Awaits := by
  have hmove := hmoves.move
  generalize hq : next.queue = q at hmove htimer
  cases hmove with
  | rest | take => contradiction
  | rearm => exact Or.inl (by simp [hq, ChangeQueue.arm])
  | yield | enter | putAside | drained | again | leave =>
      exact hmoves.awaits (by simp) (hs.timer htimer)

theorem paths (hmoves : s.Moves next f f' others) (hs : s.Sound)
    (hpaths : next.queue.paths ≠ []) : next.Awaits := by
  have hmove := hmoves.move
  generalize next.queue = q at hmove hpaths
  cases hmove with
  | rest | take => contradiction
  | yield | enter | rearm | putAside | drained | again | leave =>
      exact hmoves.awaits (by simp) (hs.paths hpaths)

theorem pending (hmoves : s.Moves next f f' others) (hs : s.Sound)
    (hpending : next.queue.pending ≠ []) : next.Watches := by
  have hmove := hmoves.move
  generalize hq : next.queue = q at hmove hpending
  cases hmove with
  | rest hpaths hnone => exact absurd hnone hpending
  | take | yield | enter => exact hmoves.watches rfl
  | rearm batch htimer => exact Or.inl (Or.inl (by simp [hq, ChangeQueue.arm]))
  | putAside batch htimer => exact Or.inl (hmoves.awaits (by simp) (hs.timer htimer))
  | drained hnone => exact absurd hnone hpending
  | again => contradiction
  | leave =>
      -- the flush that leaves has looked already; whoever watches is another one
      rcases hs.pending hpending with hawaits | ⟨g, hg, hwatchful⟩
      · exact Or.inl (hmoves.awaits (by simp) hawaits)
      · rcases List.mem_cons.mp (hmoves.before.mem_iff.mp hg) with rfl | hg
        · contradiction
        · exact Or.inr ⟨g, hmoves.after.mem_iff.mpr (List.mem_cons_of_mem _ hg), hwatchful⟩

theorem turn (hmoves : s.Moves next f f' others) (hs : s.Sound) :
    next.flushes.countP Flush.isInside = if next.queue.busy then 1 else 0 := by
  have hturn := hs.turn
  rw [hmoves.before.countP_eq, List.countP_cons] at hturn
  rw [hmoves.after.countP_eq, List.countP_cons]
  rcases hmoves.move.turn with ⟨hsame, hbusy⟩ | ⟨hfree, hout, hin, hbusy⟩ | ⟨hin, hout, hbusy⟩
  · rw [hsame, hbusy, hturn]
  · simp only [hfree, hout, Bool.false_eq_true, if_false] at hturn
    simp only [hin, hbusy, if_true]
    omega
  · simp only [hin, if_true] at hturn
    simp only [hout, hbusy, Bool.false_eq_true, if_false]
    split at hturn <;> omega

theorem sound (hmoves : s.Moves next f f' others) (hs : s.Sound) : next.Sound where
  timer := hmoves.timer hs
  paths := hmoves.paths hs
  pending := hmoves.pending hs
  turn := hmoves.turn hs
  owed := by
    intro path howes
    rw [hmoves.owes, Bool.and_eq_true, Bool.not_eq_true', List.contains_eq_mem,
      decide_eq_false_iff_not] at howes
    exact (hmoves.holds (hs.owed path howes.1)).resolve_left howes.2
  count := by
    intro path
    have hcount := hs.count path
    have hmove := hmoves.move.count_le path
    rw [count_held hmoves.before] at hcount
    rw [count_held hmoves.after]
    simp only [handed, added, hmoves.notes, List.flatMap_append, f'.flatMap_notes.1,
      f'.flatMap_notes.2, List.append_nil, List.count_append] at hcount ⊢
    omega

end Moves

theorem Sound.add (hs : s.Sound) (path : String) :
    Sound { s with queue := s.queue.add path, notes := s.notes ++ [.added path] } := by
  obtain ⟨armed, t, harmed, hadd⟩ := s.queue.add_eq path
  rw [hadd]
  constructor
  · exact fun _ => Or.inl harmed
  · exact fun _ => Or.inl harmed
  · exact fun _ => Or.inl (Or.inl harmed)
  · exact hs.turn
  · intro p howes
    simp only [Owes, List.foldl_append, List.foldl_cons, List.foldl_nil, Note.owes, Bool.or_eq_true,
      beq_iff_eq] at howes
    have hold := hs.owed p
    simp only [Owes, Holds, held] at hold
    simp only [Holds, held, mem_insertPath]
    rcases howes with howes | rfl
    · have := hold howes
      tauto
    · exact Or.inl (Or.inl rfl)
  · intro p
    have hcount := hs.count p
    have hinserted := count_insertPath_le path p s.queue.paths
    simp only [handed, added, held, List.flatMap_append, List.count_append, List.flatMap_cons,
      List.flatMap_nil, Note.newPaths, Note.batch, List.append_nil] at hcount ⊢
    omega

theorem Sound.cancel (hs : s.Sound) :
    Sound { s with queue := s.queue.cancel, notes := s.notes ++ [.cancelled] } := by
  obtain ⟨armed, hcancel⟩ := s.queue.cancel_eq
  rw [hcancel]
  constructor
  · exact fun htimer => absurd htimer (by simp)
  · exact fun hpaths => absurd rfl hpaths
  · exact fun hpending => absurd rfl hpending
  · exact hs.turn
  · intro p howes
    simp [Owes, Note.owes] at howes
  · intro p
    have hcount := hs.count p
    simp only [handed, added, held, List.flatMap_append, List.flatMap_cons, List.flatMap_nil,
      Note.newPaths, Note.batch, List.append_nil, List.count_nil] at hcount ⊢
    omega

/-- A timer that expires is awaited as a flush that is starting. -/
theorem Sound.expire (hs : s.Sound) (t : Nat) :
    Sound { s with queue := s.queue.expire t, flushes := s.flushes ++ [.starting] } := by
  have hstarting : Flush.starting ∈ s.flushes ++ [.starting] := by simp
  have hheld : (s.flushes ++ [Flush.starting]).flatMap Flush.held = s.held := by
    simp [held, Flush.held]
  constructor
  · exact fun _ => Or.inr hstarting
  · exact fun _ => Or.inr hstarting
  · exact fun _ => Or.inl (Or.inr hstarting)
  · rw [List.countP_append]
    exact hs.turn
  · intro p howes
    have hold := hs.owed p howes
    rw [Holds, held] at hold ⊢
    rw [hheld]
    exact hold
  · intro p
    have hcount := hs.count p
    rw [held] at hcount ⊢
    rw [hheld]
    exact hcount

/-- While a batch is worked on and when that is done, its flush is inside and watchful. -/
theorem Sound.done (hs : s.Sound) {i : Nat} {batch : List String}
    (hf : s.flushes[i]? = some (.calling batch)) (logs : List Log.Record) :
    Sound { s with flushes := s.flushes.set i .draining, logs } := by
  obtain ⟨others, hbefore, hafter⟩ := exists_perm_set hf
  have hafter := hafter .draining
  have hheld : (s.flushes.set i .draining).flatMap Flush.held |>.Perm s.held := by
    refine (hafter.flatMap_right Flush.held).trans ?_
    exact (hbefore.flatMap_right Flush.held).symm
  have hawaits : s.Awaits → Awaits { s with flushes := s.flushes.set i .draining, logs } := by
    rintro (harmed | hstarting)
    · exact Or.inl harmed
    · refine Or.inr (hafter.mem_iff.mpr (List.mem_cons_of_mem _ ?_))
      exact (List.mem_cons.mp (hbefore.mem_iff.mp hstarting)).resolve_left (by simp)
  constructor
  · exact fun htimer => hawaits (hs.timer htimer)
  · exact fun hpaths => hawaits (hs.paths hpaths)
  · exact fun _ => Or.inr ⟨.draining, hafter.mem_iff.mpr List.mem_cons_self, rfl⟩
  · have hturn := hs.turn
    rw [hbefore.countP_eq] at hturn
    rw [hafter.countP_eq]
    exact hturn
  · intro p howes
    have hold := hs.owed p howes
    rw [Holds, held] at hold ⊢
    rw [hheld.mem_iff]
    exact hold
  · intro p
    have hcount := hs.count p
    rw [held] at hcount ⊢
    rw [hheld.count_eq]
    exact hcount

theorem act_sound {occurrence : Occurrence} (hs : s.Sound)
    (hact : s.act occurrence = some next) : next.Sound := by
  cases effect_of_act hact with
  | add path => exact hs.add path
  | cancel => exact hs.cancel
  | expire t => exact hs.expire t
  | advance hf hmove =>
      obtain ⟨f, f', others, hmoves⟩ := act_advance hact
      exact hmoves.sound hs
  | done failure hf => exact hs.done hf _

theorem ofDelay_sound (seconds : Binary64) : (ofDelay seconds).Sound := by
  constructor <;> simp [ofDelay, ChangeQueue.ofDelay, Owes, handed, held]

theorem Reachable.sound {seconds : Binary64} (hreach : Reachable (ofDelay seconds) s) :
    s.Sound := by
  induction hreach with
  | start => exact ofDelay_sound seconds
  | act occurrence _ hact ih => exact act_sound ih hact

/-! ## Nothing is lost -/

/-- What becomes of the paths that are added. -/
structure Lossless (s : Dispatch) : Prop where
  /-- A path that was added, with nothing cancelled since, was handed over after that, or it is in
  the queue with a timer to come, with a flush, or put aside with something that will look at it. -/
  kept : ∀ earlier path later, s.notes = earlier ++ .added path :: later → .cancelled ∉ later →
    (∃ batch, .handed batch ∈ later ∧ path ∈ batch) ∨
    (path ∈ s.queue.paths ∧ s.Awaits) ∨
    (∃ f ∈ s.flushes, path ∈ f.held) ∨
    (path ∈ s.queue.pending ∧ s.Watches)
  /-- One batch at most is worked on at a time. -/
  alone : s.flushes.countP Flush.isCalling ≤ 1
  /-- No path is handed over more often than it was added. -/
  once : ∀ path, s.handed.count path ≤ s.added.count path

theorem owes_of_added {earlier later : List Note} {path : String}
    (hcancelled : .cancelled ∉ later) (hhanded : ∀ batch, .handed batch ∈ later → path ∉ batch) :
    (earlier ++ .added path :: later).foldl (Note.owes path) false = true := by
  have hstays : later.foldl (Note.owes path) true = true := by
    induction later with
    | nil => rfl
    | cons note later ih =>
        have hfirst : Note.owes path true note = true := by
          cases note with
          | added p => simp [Note.owes]
          | cancelled => exact absurd List.mem_cons_self hcancelled
          | handed batch => simpa [Note.owes] using hhanded batch List.mem_cons_self
        rw [List.foldl_cons, hfirst]
        exact ih (fun hmem => hcancelled (List.mem_cons_of_mem note hmem))
          fun batch hmem => hhanded batch (List.mem_cons_of_mem note hmem)
  rw [List.foldl_append, List.foldl_cons, Note.owes, beq_self_eq_true, Bool.or_true, hstays]

theorem Sound.kept (hs : s.Sound) {earlier later : List Note} {path : String}
    (hnotes : s.notes = earlier ++ .added path :: later) (hcancelled : .cancelled ∉ later) :
    (∃ batch, .handed batch ∈ later ∧ path ∈ batch) ∨
    (path ∈ s.queue.paths ∧ s.Awaits) ∨
    (∃ f ∈ s.flushes, path ∈ f.held) ∨
    (path ∈ s.queue.pending ∧ s.Watches) := by
  by_cases hhanded : ∃ batch, .handed batch ∈ later ∧ path ∈ batch
  · exact Or.inl hhanded
  · have howes : s.Owes path = true := by
      rw [Owes, hnotes]
      exact owes_of_added hcancelled fun batch hbatch hpath => hhanded ⟨batch, hbatch, hpath⟩
    rcases hs.owed path howes with hpaths | hheld | hpending
    · exact Or.inr (Or.inl ⟨hpaths, hs.paths (List.ne_nil_of_mem hpaths)⟩)
    · exact Or.inr (Or.inr (Or.inl (List.mem_flatMap.mp hheld)))
    · exact Or.inr (Or.inr (Or.inr ⟨hpending, hs.pending (List.ne_nil_of_mem hpending)⟩))

theorem Sound.alone (hs : s.Sound) : s.flushes.countP Flush.isCalling ≤ 1 := by
  have hinside : s.flushes.countP Flush.isCalling ≤ s.flushes.countP Flush.isInside := by
    apply List.countP_mono_left
    intro f _ hcalling
    cases f <;> simp_all [Flush.isCalling, Flush.isInside]
  have hturn := hs.turn
  split at hturn <;> omega

/-- However paths are added, timers expire and flushes take their steps, nothing is lost and no two
batches are worked on at once. -/
theorem reachable_lossless {seconds : Binary64} (hreach : Reachable (ofDelay seconds) s) :
    s.Lossless where
  kept := fun _ _ _ hnotes hcancelled => hreach.sound.kept hnotes hcancelled
  alone := hreach.sound.alone
  once := fun path => by
    have hcount := hreach.sound.count path
    omega

/-- While "a" is worked on, which fails, "b" is added, and its flush puts it aside. -/
def crossing : List Occurrence :=
  [.add "a", .expire 0, .advance 0, .advance 0, .add "b", .expire 1, .advance 1, .advance 1,
    .done 0 (some .noItems), .advance 1, .advance 0]

theorem reachable_lossless_crossing :
    ∃ s, (ofDelay (.ofInt 1)).run crossing = some s ∧
      s.notes = [.added "a", .handed ["a"], .added "b", .handed ["b"]] ∧
      s.flushes = [.calling ["b"], .finished] ∧ s.queue.armed = [2] ∧ s.Lossless := by
  have hrun : ((ofDelay (.ofInt 1)).run crossing).any fun s =>
      s.notes = [.added "a", .handed ["a"], .added "b", .handed ["b"]] ∧
      s.flushes = [.calling ["b"], .finished] ∧ s.queue.armed = [2] := by
    decide +kernel
  obtain ⟨s, hs, hstate⟩ := (Option.any_eq_true _ _).mp hrun
  obtain ⟨hnotes, hflushes, harmed⟩ := of_decide_eq_true hstate
  exact ⟨s, hs, hnotes, hflushes, harmed, reachable_lossless (.of_run .start hs)⟩

end Dispatch

end DiskCatalog.Refresh

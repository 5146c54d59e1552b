import DiskCatalog.Proofs.Refresh.Dispatch

/-!
# Batches of changes

A flush begins by taking all paths that were added since the last one did.  It goes on if it took
any, and also if something was put aside.  In the second case it has no path of its own: what was
put aside may be handed over by the flush at work before this one gets the turn, and if it is still
there, it is looked at only after a first batch.  Such a flush hands over an empty batch.

Every other batch has paths, and all batches are ascending and hold only what was added before.
-/

namespace DiskCatalog.Refresh

/-! ## Ascending paths -/

theorem pairwise_insertPath (path : String) {paths : List String}
    (hpaths : paths.Pairwise (· < ·)) : (insertPath path paths).Pairwise (· < ·) := by
  induction paths with
  | nil => exact List.pairwise_singleton _ _
  | cons first paths ih =>
      obtain ⟨hfirst, hrest⟩ := List.pairwise_cons.mp hpaths
      rw [insertPath]
      split
      · exact hpaths
      · rename_i hother
        split
        · rename_i hbefore
          refine List.pairwise_cons.mpr ⟨fun p hp => ?_, hpaths⟩
          rcases List.mem_cons.mp hp with rfl | hp
          · exact hbefore
          · exact String.lt_trans hbefore (hfirst p hp)
        · rename_i hafter
          refine List.pairwise_cons.mpr ⟨fun p hp => ?_, ih hrest⟩
          rcases mem_insertPath.mp hp with rfl | hp
          · exact Std.lt_of_le_of_ne (String.not_lt.mp hafter) (Ne.symm hother)
          · exact hfirst p hp

theorem pairwise_foldr_insertPath (batch : List String) {paths : List String}
    (hpaths : paths.Pairwise (· < ·)) : (batch.foldr insertPath paths).Pairwise (· < ·) := by
  induction batch with
  | nil => exact hpaths
  | cons first batch ih => exact pairwise_insertPath first ih

namespace Flush

variable {q q' : ChangeQueue} {f f' : Flush}

theorem mem_notes {batch : List String} : .handed batch ∈ f.notes ↔ f = .calling batch := by
  cases f <;> simp [notes, eq_comm]

/-- Wherever a step puts paths, they ascend if they did where it takes them from. -/
theorem Move.ascends (hmove : f.Move q q' f') (hpaths : q.paths.Pairwise (· < ·))
    (hpending : q.pending.Pairwise (· < ·)) (hheld : f.held.Pairwise (· < ·)) :
    q'.paths.Pairwise (· < ·) ∧ q'.pending.Pairwise (· < ·) ∧ f'.held.Pairwise (· < ·) ∧
      f'.handed.Pairwise (· < ·) := by
  cases hmove with
  | rest => exact ⟨.nil, hpending, .nil, .nil⟩
  | take => exact ⟨.nil, hpending, hpaths, .nil⟩
  | yield => exact ⟨hpaths, hpending, hheld, .nil⟩
  | enter => exact ⟨hpaths, hpending, .nil, hheld⟩
  | rearm batch | putAside batch =>
      exact ⟨hpaths, pairwise_foldr_insertPath batch hpending, .nil, .nil⟩
  | drained | leave => exact ⟨hpaths, hpending, .nil, .nil⟩
  | again => exact ⟨hpaths, .nil, .nil, hpending⟩

/-- A flush that tries to hand over has just begun, with the paths that were in the queue. -/
theorem Move.trying {batch : List String} (hmove : f.Move q q' f') (hf' : f' = .trying batch) :
    f = .starting ∧ batch = q.paths ∧ (q.paths ≠ [] ∨ q.pending ≠ []) := by
  cases hmove with
  | take hsome => exact ⟨rfl, (Flush.trying.inj hf').symm, hsome⟩
  | rest | yield | enter | rearm | putAside | drained | again | leave => cases hf'

theorem Move.ne_starting (hmove : f.Move q q' f') : f' ≠ .starting := by
  cases hmove <;> simp

/-- What was put aside is handed over only if there is any, so an empty batch is a flush's own. -/
theorem Move.calling_nil_iff (hmove : f.Move q q' f') :
    f' = .calling [] ↔ f = .trying [] ∧ q.busy = false := by
  cases hmove with
  | enter batch hfree => simp [hfree]
  | again hsome => simp [hsome]
  | yield batch hbusy => simp [hbusy]
  | rest | take | rearm | putAside | drained | leave => simp

end Flush

/-! ## What has happened in a run -/

theorem append_singleton_eq_append_cons {α : Type} {items before after : List α} {item other : α}
    (hitems : items ++ [item] = before ++ other :: after) :
    (∃ rest, items = before ++ other :: rest) ∨ (before = items ∧ other = item) := by
  rcases List.eq_nil_or_concat after with rfl | ⟨rest, last, rfl⟩
  · obtain ⟨hbefore, hlast⟩ := List.append_inj' hitems rfl
    exact Or.inr ⟨hbefore.symm, (List.singleton_inj.mp hlast).symm⟩
  · rw [List.concat_eq_append, ← List.cons_append, ← List.append_assoc] at hitems
    exact Or.inl ⟨rest, (List.append_inj' hitems rfl).1⟩

theorem getElem?_set_of_some {α : Type} {items : List α} {i : Nat} {item : α}
    (hitem : items[i]? = some item) (other : α) : (items.set i other)[i]? = some other :=
  List.getElem?_set_self (List.getElem?_eq_some_iff.mp hitem).1

/-- Some occurrence of a run has a property, given those before it. -/
def Passed (property : List Occurrence → Occurrence → Prop) (occurrences : List Occurrence) :
    Prop :=
  ∃ before occurrence after, occurrences = before ++ occurrence :: after ∧
    property before occurrence

theorem passed_concat {property : List Occurrence → Occurrence → Prop}
    {occurrences : List Occurrence} {occurrence : Occurrence} :
    Passed property (occurrences ++ [occurrence]) ↔
      Passed property occurrences ∨ property occurrences occurrence := by
  constructor
  · rintro ⟨before, middle, after, hsplit, hproperty⟩
    rcases append_singleton_eq_append_cons hsplit with ⟨rest, hrest⟩ | ⟨rfl, rfl⟩
    · exact Or.inl ⟨before, middle, rest, hrest, hproperty⟩
    · exact Or.inr hproperty
  · rintro (⟨before, middle, after, rfl, hproperty⟩ | hproperty)
    · exact ⟨before, middle, after ++ [occurrence], by simp, hproperty⟩
    · exact ⟨occurrences, occurrence, [], rfl, hproperty⟩

namespace Dispatch

/-- A flush is about to begin when no path is in the queue and some are put aside. -/
structure BeginsBare (s : Dispatch) (flush : Nat) : Prop where
  starting : s.flushes[flush]? = some .starting
  paths : s.queue.paths = []
  pending : s.queue.pending ≠ []

/-- A flush is about to get the turn. -/
structure GetsTurn (s : Dispatch) (flush : Nat) : Prop where
  trying : ∃ batch, s.flushes[flush]? = some (.trying batch)
  free : s.queue.busy = false

/-- A flush has begun in a run with no path of its own. -/
def BegunBare (first : Dispatch) (flush : Nat) : List Occurrence → Prop :=
  Passed fun before occurrence =>
    occurrence = .advance flush ∧ ∃ s, first.run before = some s ∧ s.BeginsBare flush

/-- A flush has got the turn in a run in which it had begun with no path of its own. -/
def HasTurnBare (first : Dispatch) : List Occurrence → Prop :=
  Passed fun before occurrence => ∃ flush, occurrence = .advance flush ∧
    first.BegunBare flush before ∧ ∃ s, first.run before = some s ∧ s.GetsTurn flush

theorem run_concat (first : Dispatch) (occurrences : List Occurrence) (occurrence : Occurrence) :
    first.run (occurrences ++ [occurrence]) =
      (first.run occurrences).bind fun s => s.act occurrence := by
  induction occurrences generalizing first with
  | nil => exact Option.bind_fun_some (first.act occurrence)
  | cons earlier occurrences ih =>
      rw [List.cons_append, run, run, Option.bind_assoc]
      exact Option.bind_congr fun next _ => ih next

variable {first s next : Dispatch} {occurrence : Occurrence} {occurrences : List Occurrence}

/-! ## Batches ascend -/

/-- All paths that are somewhere on their way ascend, and those that were handed over did. -/
structure Ascends (s : Dispatch) : Prop where
  paths : s.queue.paths.Pairwise (· < ·)
  pending : s.queue.pending.Pairwise (· < ·)
  held : ∀ f ∈ s.flushes, f.held.Pairwise (· < ·)
  handed : ∀ batch, .handed batch ∈ s.notes → batch.Pairwise (· < ·)

theorem Effect.ascends (heffect : s.Effect occurrence next) (hs : s.Ascends) : next.Ascends := by
  cases heffect with
  | add path =>
      obtain ⟨armed, t, -, hadd⟩ := s.queue.add_eq path
      rw [hadd]
      exact {
        paths := pairwise_insertPath path hs.paths
        pending := hs.pending
        held := hs.held
        handed := fun batch hbatch => hs.handed batch (by simpa using hbatch) }
  | cancel =>
      obtain ⟨armed, hcancel⟩ := s.queue.cancel_eq
      rw [hcancel]
      exact {
        paths := .nil
        pending := .nil
        held := hs.held
        handed := fun batch hbatch => hs.handed batch (by simpa using hbatch) }
  | expire t =>
      refine { hs with held := fun f hf => ?_ }
      rcases List.mem_append.mp hf with hf | hf
      · exact hs.held f hf
      · obtain rfl := List.mem_singleton.mp hf
        exact .nil
  | @advance i f f' q hf hmove =>
      obtain ⟨hpaths, hpending, hheld, hhanded⟩ :=
        hmove.ascends hs.paths hs.pending (hs.held f (List.mem_of_getElem? hf))
      refine ⟨hpaths, hpending, fun g hg => ?_, fun batch hbatch => ?_⟩
      · rcases List.mem_or_eq_of_mem_set hg with hg | rfl
        · exact hs.held g hg
        · exact hheld
      · rcases List.mem_append.mp hbatch with hbatch | hbatch
        · exact hs.handed batch hbatch
        · obtain rfl := Flush.mem_notes.mp hbatch
          exact hhanded
  | done failure hf =>
      refine { hs with held := fun g hg => ?_ }
      rcases List.mem_or_eq_of_mem_set hg with hg | rfl
      · exact hs.held g hg
      · exact .nil

theorem Reachable.ascends {seconds : Binary64} (hreach : Reachable (ofDelay seconds) s) :
    s.Ascends := by
  induction hreach with
  | start => constructor <;> simp [ofDelay, ChangeQueue.ofDelay]
  | act occurrence _ hact ih => exact (effect_of_act hact).ascends ih

/-! ## Batches hold what was added -/

theorem Sound.added_of_handed (hs : s.Sound) {path : String} (hpath : path ∈ s.handed) :
    .added path ∈ s.notes := by
  have hpos := List.count_pos_iff.mpr hpath
  have hcount := hs.count path
  have hadded : path ∈ s.added := List.count_pos_iff.mp (by omega)
  obtain ⟨note, hnote, hnew⟩ := List.mem_flatMap.mp hadded
  cases note with
  | added p =>
      obtain rfl := List.mem_singleton.mp hnew
      exact hnote
  | cancelled | handed batch => exact absurd hnew List.not_mem_nil

/-- A path that is handed over was added before, at whatever time one looks. -/
theorem Reachable.added {seconds : Binary64} (hreach : Reachable (ofDelay seconds) s)
    {earlier later : List Note} {batch : List String} {path : String}
    (hnotes : s.notes = earlier ++ .handed batch :: later) (hpath : path ∈ batch) :
    .added path ∈ earlier := by
  induction hreach generalizing earlier later with
  | start => simp [ofDelay] at hnotes
  | @act s next occurrence hreach hact ih =>
      -- only the last note can be new, and what is known of all paths holds when it is made
      have hlast : ∀ note, next.notes = s.notes ++ [note] → .added path ∈ earlier := by
        intro note hnext
        rcases append_singleton_eq_append_cons (hnext.symm.trans hnotes) with
          ⟨rest, hrest⟩ | ⟨rfl, rfl⟩
        · exact ih hrest
        · have hhanded : path ∈ next.handed :=
            List.mem_flatMap.mpr ⟨.handed batch, by simp [hnext], hpath⟩
          have hadded := (Reachable.act occurrence hreach hact).sound.added_of_handed hhanded
          simpa [hnext] using hadded
      cases effect_of_act hact with
      | add p => exact hlast _ rfl
      | cancel => exact hlast _ rfl
      | expire | done => exact ih hnotes
      | @advance i f f' q hf hmove =>
          cases f' with
          | calling _ => exact hlast _ rfl
          | starting | trying | yielding | draining | leaving | finished =>
              exact ih (by simpa [Flush.notes] using hnotes)

/-! ## Empty batches -/

/-- How far the flushes are that began with no path of their own. -/
structure Tells (first : Dispatch) (occurrences : List Occurrence) (s : Dispatch) : Prop where
  begun : ∀ i, first.BegunBare i occurrences → ∃ f, s.flushes[i]? = some f ∧ f ≠ .starting ∧
    ∀ batch, f = .trying batch → batch = []
  trying : ∀ i, s.flushes[i]? = some (.trying []) → first.BegunBare i occurrences
  empty : .handed [] ∈ s.notes ↔ first.HasTurnBare occurrences

theorem begunBare_concat (hrun : first.run occurrences = some s) {i : Nat} :
    first.BegunBare i (occurrences ++ [occurrence]) ↔
      first.BegunBare i occurrences ∨ (occurrence = .advance i ∧ s.BeginsBare i) := by
  rw [BegunBare, passed_concat]
  refine or_congr_right (and_congr_right fun _ => ?_)
  simp [hrun]

theorem hasTurnBare_concat (hrun : first.run occurrences = some s) :
    first.HasTurnBare (occurrences ++ [occurrence]) ↔ first.HasTurnBare occurrences ∨
      ∃ i, occurrence = .advance i ∧ first.BegunBare i occurrences ∧ s.GetsTurn i := by
  rw [HasTurnBare, passed_concat]
  simp [hrun]

/-- What is no step of a flush lets none begin and gives none the turn. -/
theorem Tells.aside (hs : first.Tells occurrences s) (hrun : first.run occurrences = some s)
    (hother : ∀ i, occurrence ≠ .advance i)
    (hbegun : ∀ (i : Nat) (f : Flush), s.flushes[i]? = some f → f ≠ .starting →
      ∃ f' : Flush, next.flushes[i]? = some f' ∧ f' ≠ .starting ∧
        ∀ batch, f' = .trying batch → f = .trying batch)
    (htrying : ∀ i : Nat, next.flushes[i]? = some (.trying []) → s.flushes[i]? = some (.trying []))
    (hnotes : .handed [] ∈ next.notes ↔ .handed [] ∈ s.notes) :
    first.Tells (occurrences ++ [occurrence]) next where
  begun := by
    intro i hi
    rcases (begunBare_concat hrun).mp hi with hi | ⟨hstep, -⟩
    · obtain ⟨f, hf, hgone, hown⟩ := hs.begun i hi
      obtain ⟨f', hf', hgone', hsame⟩ := hbegun i f hf hgone
      exact ⟨f', hf', hgone', fun batch hbatch => hown batch (hsame batch hbatch)⟩
    · exact absurd hstep (hother i)
  trying := fun i hi => (begunBare_concat hrun).mpr (Or.inl (hs.trying i (htrying i hi)))
  empty := by
    rw [hnotes, hs.empty, hasTurnBare_concat hrun]
    exact (or_iff_left fun ⟨i, hstep, _⟩ => hother i hstep).symm

theorem Tells.advance (hs : first.Tells occurrences s) (hrun : first.run occurrences = some s)
    {i : Nat} {f f' : Flush} {q : ChangeQueue} (hf : s.flushes[i]? = some f)
    (hmove : f.Move s.queue q f') :
    first.Tells (occurrences ++ [.advance i])
      { s with queue := q, flushes := s.flushes.set i f', notes := s.notes ++ f'.notes } where
  begun := by
    have hset := getElem?_set_of_some hf f'
    intro j hj
    rcases (begunBare_concat hrun).mp hj with hj | ⟨hstep, hbare⟩
    · obtain ⟨g, hg, hgone, hown⟩ := hs.begun j hj
      by_cases hij : i = j
      · subst hij
        obtain rfl : f = g := Option.some.inj (hf.symm.trans hg)
        exact ⟨f', hset, hmove.ne_starting, fun batch hbatch =>
          absurd (hmove.trying hbatch).1 hgone⟩
      · exact ⟨g, (List.getElem?_set_ne hij).trans hg, hgone, hown⟩
    · obtain rfl := Occurrence.advance.inj hstep
      refine ⟨f', hset, hmove.ne_starting, fun batch hbatch => ?_⟩
      rw [(hmove.trying hbatch).2.1, hbare.paths]
  trying := by
    intro j hj
    rw [begunBare_concat hrun]
    by_cases hij : i = j
    · subst hij
      rw [getElem?_set_of_some hf] at hj
      obtain ⟨rfl, hpaths, hsome⟩ := hmove.trying (Option.some.inj hj)
      exact Or.inr ⟨rfl, hf, hpaths.symm, hsome.resolve_left fun hnone => hnone hpaths.symm⟩
    · exact Or.inl (hs.trying j ((List.getElem?_set_ne hij).symm.trans hj))
  empty := by
    rw [hasTurnBare_concat hrun, ← hs.empty, List.mem_append, Flush.mem_notes,
      hmove.calling_nil_iff]
    refine or_congr_right ⟨?_, ?_⟩
    · rintro ⟨rfl, hfree⟩
      exact ⟨i, rfl, hs.trying i hf, ⟨[], hf⟩, hfree⟩
    · rintro ⟨j, hstep, hbegun, ⟨batch, hbatch⟩, hfree⟩
      obtain rfl := Occurrence.advance.inj hstep
      obtain ⟨g, hg, -, hown⟩ := hs.begun i hbegun
      obtain rfl : g = .trying batch := Option.some.inj (hg.symm.trans hbatch)
      obtain rfl := hown batch rfl
      exact ⟨Option.some.inj (hf.symm.trans hg), hfree⟩

theorem Effect.tells (heffect : s.Effect occurrence next) (hrun : first.run occurrences = some s)
    (hs : first.Tells occurrences s) : first.Tells (occurrences ++ [occurrence]) next := by
  cases heffect with
  | add path | cancel =>
      exact hs.aside hrun (by simp) (fun i f hf hgone => ⟨f, hf, hgone, fun _ => id⟩)
        (fun _ => id) (by simp)
  | expire t =>
      refine hs.aside hrun (by simp) (fun i f hf hgone => ⟨f, ?_, hgone, fun _ => id⟩)
        (fun i hi => ?_) Iff.rfl
      · rw [List.getElem?_append_left (List.getElem?_eq_some_iff.mp hf).1]
        exact hf
      · rw [List.getElem?_append] at hi
        split at hi
        · exact hi
        · simp [List.getElem?_singleton] at hi
  | advance hf hmove => exact hs.advance hrun hf hmove
  | @done i batch failure hf =>
      have hset := getElem?_set_of_some hf .draining
      refine hs.aside hrun (by simp) (fun j f hj hgone => ?_) (fun j hj => ?_) Iff.rfl
      · by_cases hij : i = j
        · subst hij
          exact ⟨.draining, hset, by simp⟩
        · exact ⟨f, (List.getElem?_set_ne hij).trans hj, hgone, fun _ => id⟩
      · by_cases hij : i = j
        · subst hij
          rw [hset] at hj
          cases hj
        · exact (List.getElem?_set_ne hij).symm.trans hj

theorem ofDelay_tells (seconds : Binary64) : (ofDelay seconds).Tells [] (ofDelay seconds) where
  begun := by simp [BegunBare, Passed]
  trying := by simp [ofDelay]
  empty := by simp [HasTurnBare, Passed, ofDelay]

theorem run_tells {seconds : Binary64} (hrun : (ofDelay seconds).run occurrences = some s) :
    (ofDelay seconds).Tells occurrences s := by
  induction occurrences using List.reverseRecOn generalizing s with
  | nil =>
      obtain rfl := Option.some.inj hrun
      exact ofDelay_tells seconds
  | append_singleton occurrences occurrence ih =>
      rw [run_concat, Option.bind_eq_some_iff] at hrun
      obtain ⟨middle, hmiddle, hact⟩ := hrun
      exact (effect_of_act hact).tells hmiddle (ih hmiddle)

/-! ## Batches of a run -/

/-- What is handed over in a run. -/
structure Batches (first : Dispatch) (occurrences : List Occurrence) (s : Dispatch) : Prop where
  ascend : ∀ batch, .handed batch ∈ s.notes → batch.Pairwise (· < ·)
  /-- A path that is handed over was added before. -/
  added : ∀ earlier batch later, s.notes = earlier ++ .handed batch :: later →
    ∀ path ∈ batch, .added path ∈ earlier
  /-- An empty batch is handed over exactly if a flush gets the turn that began with no path of its
  own, while some were put aside. -/
  empty : .handed [] ∈ s.notes ↔ first.HasTurnBare occurrences

/-- However paths are added and dropped, timers expire and flushes take their steps, batches ascend
and hold what was added, and no batch is empty but those of flushes that began with no path. -/
theorem run_batches {seconds : Binary64} (hrun : (ofDelay seconds).run occurrences = some s) :
    (ofDelay seconds).Batches occurrences s := by
  have hreach : Reachable (ofDelay seconds) s := .of_run .start hrun
  exact {
    ascend := hreach.ascends.handed
    added := fun earlier batch later hnotes path hpath => hreach.added hnotes hpath
    empty := (run_tells hrun).empty }

/-- While "b" is worked on, "c" and "a" are added, and their flush puts them aside. -/
def gathering : List Occurrence :=
  [.add "b", .expire 0, .advance 0, .advance 0, .add "c", .add "a", .expire 2, .advance 1,
    .advance 1, .advance 1, .done 0 none, .advance 0]

theorem run_batches_gathering : ∃ s, (ofDelay (.ofInt 1)).run gathering = some s ∧
    s.notes = [.added "b", .handed ["b"], .added "c", .added "a", .handed ["a", "c"]] ∧
    (ofDelay (.ofInt 1)).Batches gathering s := by
  have hrun : ((ofDelay (.ofInt 1)).run gathering).any fun s =>
      s.notes = [.added "b", .handed ["b"], .added "c", .added "a", .handed ["a", "c"]] := by
    decide +kernel
  obtain ⟨s, hs, hnotes⟩ := (Option.any_eq_true _ _).mp hrun
  exact ⟨s, hs, of_decide_eq_true hnotes, run_batches hs⟩

/-- A flush begins for "b", which was put aside; the one at work hands "b" over and ends. -/
def overtaking : List Occurrence :=
  [.add "a", .expire 0, .advance 0, .advance 0, .add "b", .expire 1, .advance 1, .advance 1,
    .advance 1, .expire 2, .advance 2, .done 0 none, .advance 0, .done 0 none, .advance 0,
    .advance 0, .advance 2]

/-- Then it gets the turn, and hands over nothing. -/
theorem batches_overtaking : ¬ ∀ s, Reachable (ofDelay (.ofInt 1)) s →
    ∀ batch, .handed batch ∈ s.notes → batch ≠ [] ∧ batch.Pairwise (· < ·) ∧
      ∀ path ∈ batch, .added path ∈ s.notes := by
  intro hall
  have hrun : ((ofDelay (.ofInt 1)).run overtaking).any fun s => .handed [] ∈ s.notes := by
    decide +kernel
  obtain ⟨s, hs, hnote⟩ := (Option.any_eq_true _ _).mp hrun
  exact (hall s (.of_run .start hs) [] (of_decide_eq_true hnote)).1 rfl

end Dispatch

end DiskCatalog.Refresh

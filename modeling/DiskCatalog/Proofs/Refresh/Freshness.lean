import DiskCatalog.Proofs.Index.Contract
import DiskCatalog.Proofs.Refresh.Lifetimes

/-!
# Freshness of the current generation

A build reads the signature of the catalog before anything else and records it with what it
builds.  `Traffic.Faithful` links the recorded signatures to the present catalog: a signature that
the catalog still has stands for a build that has seen nothing but the present catalog.  The
invariant survives every change, because a changed catalog has a signature that was never seen.
-/

namespace DiskCatalog.Refresh

open Store Index

/-! ## Signatures of builds -/

theorem mem_signatures {path : String} {target : Target} {signature : Signature} :
    signature ∈ signatures path target ↔ readSignature path target = .ok signature := by
  cases hread : readSignature path target <;> simp [signatures, hread, Except.toOption, eq_comm]

theorem assemble_signature {path : String} {signature : Signature}
    {exclusion : Pattern.Exclusion} {maxDepth : Int} {r : Readings} {g : Generation}
    (hassemble : assemble path signature exclusion maxDepth r = .ok g) :
    g.signature = signature := by
  simp only [assemble, bind_eq_ok_iff, Except.ok.injEq] at hassemble
  obtain ⟨-, -, -, -, -, -, -, -, -, -, rfl⟩ := hassemble
  rfl

/-- A build records the signature that it reads first. -/
theorem buildSeen_signature {path : String} {options : Options} {s : Sightings} {g : Generation}
    (hbuild : (buildSeen path options s).result = .ok g) :
    readSignature path s.signature = .ok g.signature := by
  obtain ⟨_, _, hsignature, -, hassemble⟩ := buildSeen_eq_ok hbuild
  rw [hsignature, assemble_signature hassemble]

theorem sightings?_eq_still {seen : List Target} {s : Sightings} {target : Target}
    (hseen : Trigger.sightings? seen = some s) (hsame : ∀ other ∈ seen, other = target) :
    s = .still target := by
  unfold Trigger.sightings? at hseen
  split at hseen
  · simp only [List.forall_mem_cons] at hsame
    obtain ⟨rfl, rfl, rfl, rfl, rfl, rfl, -⟩ := hsame
    simp only [Option.some.injEq] at hseen
    exact hseen.symm
  · contradiction

theorem sightings?_head? {seen : List Target} {s : Sightings}
    (hseen : Trigger.sightings? seen = some s) : seen.head? = some s.signature := by
  unfold Trigger.sightings? at hseen
  split at hseen
  · simp only [Option.some.injEq] at hseen
    subst s
    rfl
  · contradiction

/-! ## Generations in a slot -/

def Slot.generation? (s : Slot) (g : Nat) : Option Generation :=
  (s.built[g]?).map (·.generation)

namespace Slot

theorem generation?_eq_some_iff {s : Slot} {g : Nat} {generation : Generation} :
    s.generation? g = some generation ↔
      ∃ h, s.built[g]? = some h ∧ h.generation = generation := by
  simp [generation?]

@[simp] theorem generation?_setLifetime (s : Slot) (i g : Nat) (f : Lifetime → Lifetime) :
    (s.setLifetime i f).generation? g = s.generation? g := by
  by_cases hig : i = g
  · subst hig
    simp [generation?, setLifetime, Array.getElem?_modify, Function.comp_def]
  · simp [generation?, setLifetime, Array.getElem?_modify, hig]

theorem generation?_add (s : Slot) (g : Generation) (i : Nat) :
    (s.add g).1.generation? i = if i = s.built.size then some g else s.generation? i := by
  by_cases hi : i = s.built.size
  · simp [generation?, add, hi]
  · simp [generation?, add, hi, Array.getElem?_push]

@[simp] theorem generation?_publish (s : Slot) (i g : Nat) (now : Calendar.DateTime) :
    (s.publish i now).1.generation? g = s.generation? g := by
  by_cases hclosed : s.closed <;> simp [publish, hclosed, generation?]

/-- The signature that a slot keeps is that of its current generation. -/
def Recorded (s : Slot) : Prop :=
  ∀ g, s.current = some g →
    ∃ generation, s.generation? g = some generation ∧ s.signature = some generation.signature

theorem Recorded.add {s : Slot} (hs : s.Recorded) (hlt : ∀ g, s.current = some g → g < s.built.size)
    (generation : Generation) : (s.add generation).1.Recorded := by
  intro g hcurrent
  obtain ⟨old, hold, hsignature⟩ := hs g hcurrent
  -- the new generation takes a place behind the current one
  have hne : g ≠ s.built.size := (hlt g hcurrent).ne
  refine ⟨old, ?_, hsignature⟩
  rw [generation?_add, if_neg hne, hold]

theorem Recorded.publish {s : Slot} {i : Nat} (hs : s.Recorded) (hlt : i < s.built.size)
    (now : Calendar.DateTime) : (s.publish i now).1.Recorded := by
  intro g hcurrent
  rw [generation?_publish]
  by_cases hclosed : s.closed
  · simp only [Slot.publish, hclosed, if_true] at hcurrent ⊢
    exact hs g hcurrent
  · simp only [Slot.publish, hclosed, Bool.false_eq_true, if_false, Option.some.injEq] at hcurrent
    subst g
    obtain ⟨h, hbuilt⟩ : ∃ h, s.built[i]? = some h := ⟨_, Array.getElem?_eq_getElem hlt⟩
    exact ⟨h.generation, by simp [generation?, hbuilt], by simp [Slot.publish, hclosed, hbuilt]⟩

end Slot

namespace Traffic

/-- What a build has seen is the present catalog, if the catalog still has the signature that was
seen first. -/
def SawPresent (path : String) (s : Traffic) (seen : List Target) : Prop :=
  ∀ first ∈ seen.head?, ∀ signature ∈ Refresh.signatures path first, signature ∈ s.signatures ∧
    (signature ∈ Refresh.signatures path s.target → ∀ target ∈ seen, target = s.target)

/-- A generation is what the present catalog gives, if the catalog still has its signature. -/
def MadeOfPresent (path : String) (options : Options) (s : Traffic) (g : Generation) : Prop :=
  g.signature ∈ s.signatures ∧ (g.signature ∈ Refresh.signatures path s.target →
    (build path options s.target).result = .ok g)

structure Faithful (path : String) (options : Options) (s : Traffic) : Prop where
  keeper : s.keeper.path = path ∧ s.keeper.builder = buildSeen path options
  present : ∀ signature ∈ Refresh.signatures path s.target, signature ∈ s.signatures
  recorded : s.slot.Recorded
  built : ∀ g generation, s.slot.generation? g = some generation →
    s.MadeOfPresent path options generation
  seen : ∀ t ∈ s.triggers, ∀ seen, t.stage = .building seen → s.SawPresent path seen

theorem sawPresent_nil (path : String) (s : Traffic) : s.SawPresent path [] := by
  simp [SawPresent]

theorem start_faithful (path : String) (options : Options) (disk : Disk) :
    (start path (buildSeen path options) disk).Faithful path options where
  keeper := ⟨rfl, rfl⟩
  present signature hsignature := hsignature
  recorded g hcurrent := by simp [start, slot] at hcurrent
  built g generation hbuilt := by simp [start, slot, Slot.generation?] at hbuilt
  seen t ht := by simp [start] at ht

/-! ## Changes of the catalog -/

/-- A changed catalog has none of the signatures that were seen before. -/
theorem Faithful.change {path : String} {options : Options} {s next : Traffic} {target : Target}
    (hs : s.Faithful path options) (hfresh : s.Freshly (.change target))
    (hact : s.act (.change target) = some next) : next.Faithful path options := by
  simp only [act, Option.some.injEq] at hact
  have htarget : next.target = target := by
    subst next
    simp [Traffic.target]
  have hsignatures : next.signatures = s.signatures ++ Refresh.signatures path target := by
    subst next
    simp [hs.keeper.1]
  have hnever : ∀ signature ∈ Refresh.signatures path target, signature ∉ s.signatures := by
    simpa [Freshly, hs.keeper.1] using hfresh
  have hslot : next.slot = s.slot := by
    subst next
    rfl
  have htriggers : next.triggers = s.triggers := by
    subst next
    rfl
  constructor
  · subst next
    exact hs.keeper
  · intro signature hsignature
    rw [htarget] at hsignature
    simp [hsignatures, hsignature]
  · rw [hslot]
    exact hs.recorded
  · intro g generation hbuilt
    rw [hslot] at hbuilt
    obtain ⟨hmem, -⟩ := hs.built g generation hbuilt
    refine ⟨by simp [hsignatures, hmem], fun hsame => ?_⟩
    rw [htarget] at hsame
    -- its signature was seen before the change, and the new one was not
    exact absurd hmem (hnever _ hsame)
  · intro t ht seen hstage first hfirst signature hsignature
    rw [htriggers] at ht
    obtain ⟨hmem, -⟩ := hs.seen t ht seen hstage first hfirst signature hsignature
    refine ⟨by simp [hsignatures, hmem], fun hsame => ?_⟩
    rw [htarget] at hsame
    exact absurd hmem (hnever _ hsame)

/-! ## Steps that leave the catalog alone -/

/-- What a step that leaves the catalog alone has to show. -/
theorem Faithful.kept {path : String} {options : Options} {s next : Traffic}
    (hs : s.Faithful path options)
    (hkeeper : next.keeper.path = s.keeper.path ∧ next.keeper.builder = s.keeper.builder)
    (hdisk : next.disk = s.disk) (hsignatures : next.signatures = s.signatures)
    (hrecorded : next.slot.Recorded)
    (hbuilt : ∀ g generation, next.slot.generation? g = some generation →
      s.slot.generation? g = some generation ∨ s.MadeOfPresent path options generation)
    (hseen : ∀ t ∈ next.triggers, ∀ seen, t.stage = .building seen →
      t ∈ s.triggers ∨ s.SawPresent path seen) : next.Faithful path options := by
  have htarget : next.target = s.target := by
    simp [Traffic.target, hdisk, hkeeper.1]
  constructor
  · exact ⟨hkeeper.1.trans hs.keeper.1, hkeeper.2.trans hs.keeper.2⟩
  · rw [htarget, hsignatures]
    exact hs.present
  · exact hrecorded
  · intro g generation hnext
    simp only [MadeOfPresent, htarget, hsignatures]
    rcases hbuilt g generation hnext with hold | hmade
    · exact hs.built g generation hold
    · exact hmade
  · intro t ht seen hstage
    simp only [SawPresent, htarget, hsignatures]
    rcases hseen t ht seen hstage with hold | hsaw
    · exact hs.seen t hold seen hstage
    · exact hsaw

/-- A step that only touches lifetimes and perhaps empties the slot. -/
theorem Faithful.quiet {path : String} {options : Options} {s next : Traffic}
    (hs : s.Faithful path options)
    (hkeeper : next.keeper.path = s.keeper.path ∧ next.keeper.builder = s.keeper.builder)
    (hdisk : next.disk = s.disk) (hsignatures : next.signatures = s.signatures)
    (hgenerations : ∀ g, next.slot.generation? g = s.slot.generation? g)
    (hcurrent : next.slot.current = none ∨
      next.slot.current = s.slot.current ∧ next.slot.signature = s.slot.signature)
    (hseen : ∀ t ∈ next.triggers, ∀ seen, t.stage = .building seen →
      t ∈ s.triggers ∨ s.SawPresent path seen) : next.Faithful path options := by
  refine hs.kept hkeeper hdisk hsignatures ?_ ?_ hseen
  · intro g hg
    rcases hcurrent with hnone | ⟨hsame, hsignature⟩
    · simp [hnone] at hg
    · rw [hgenerations, hsignature]
      exact hs.recorded g (hsame ▸ hg)
  · intro g generation hbuilt
    exact Or.inl (hgenerations g ▸ hbuilt)

theorem withTrigger_seen {s : Traffic} {i : Nat} {t t' : Trigger} {k : Keeper}
    {path : String}
    (hsaw : ∀ seen, t'.stage = .building seen → s.SawPresent path seen) :
    ∀ other ∈ (s.withTrigger i t k t').triggers, ∀ seen, other.stage = .building seen →
      other ∈ s.triggers ∨ s.SawPresent path seen := by
  intro other hother seen hstage
  rcases List.mem_or_eq_of_mem_set hother with hold | rfl
  · exact Or.inl hold
  · exact Or.inr (hsaw seen hstage)

/-- A step of a trigger that leaves the slot alone. -/
theorem Faithful.advance {path : String} {options : Options} {s : Traffic} {i : Nat}
    {t t' : Trigger} {k : Keeper} (hs : s.Faithful path options)
    (hkeeper : k.path = s.keeper.path ∧ k.builder = s.keeper.builder)
    (hslot : k.slot = s.keeper.slot)
    (hsaw : ∀ seen, t'.stage = .building seen → s.SawPresent path seen) :
    (s.withTrigger i t k t').Faithful path options := by
  have hsame : (s.withTrigger i t k t').slot = s.slot := hslot
  refine Faithful.quiet hs hkeeper rfl rfl ?_ ?_ ?_
  · intro g
    rw [hsame]
  · rw [hsame]
    exact Or.inr ⟨rfl, rfl⟩
  · exact withTrigger_seen hsaw

/-- One more look at the catalog, which is still the one that was seen or has another signature. -/
theorem Faithful.look {path : String} {options : Options} {s : Traffic} {seen : List Target}
    (hs : s.Faithful path options) (hsaw : s.SawPresent path seen) :
    s.SawPresent path (seen ++ [s.target]) := by
  intro first hfirst signature hsignature
  cases seen with
  | nil =>
      simp only [List.nil_append, List.head?_cons, Option.mem_def, Option.some.injEq] at hfirst
      subst first
      exact ⟨hs.present signature hsignature, by simp⟩
  | cons head seen =>
      obtain ⟨hmem, hsame⟩ := hsaw first hfirst signature hsignature
      refine ⟨hmem, fun hpresent target htarget => ?_⟩
      rcases List.mem_append.mp htarget with htarget | htarget
      · exact hsame hpresent target htarget
      · exact List.mem_singleton.mp htarget

/-- What is built of what was seen is made of the present catalog, if that was seen. -/
theorem SawPresent.build {path : String} {options : Options} {s : Traffic} {seen : List Target}
    {sightings : Sightings} {g : Generation} (hsaw : s.SawPresent path seen)
    (hseen : Trigger.sightings? seen = some sightings)
    (hbuild : (buildSeen path options sightings).result = .ok g) :
    s.MadeOfPresent path options g := by
  have hsignature := mem_signatures.mpr (buildSeen_signature hbuild)
  obtain ⟨hmem, hsame⟩ := hsaw _ (sightings?_head? hseen) _ hsignature
  refine ⟨hmem, fun hpresent => ?_⟩
  rw [sightings?_eq_still hseen (hsame hpresent)] at hbuild
  exact hbuild

theorem Faithful.move {path : String} {options : Options} {s : Traffic} {i : Nat}
    {t t' : Trigger} {k : Keeper} (hs : s.Faithful path options) (haccounted : s.Accounted)
    (ht : s.triggers[i]? = some t) (hmove : t.Move s.disk s.keeper k t') :
    (s.withTrigger i t k t').Faithful path options := by
  have hkeeper := hmove.keeper_eq
  have hmem : t ∈ s.triggers := List.mem_of_getElem? ht
  cases hmove with
  | check hstage =>
      apply hs.advance hkeeper rfl
      intro seen hnext
      by_cases hfresh : (s.keeper.isFresh s.disk).1 <;> simp [hfresh] at hnext
  | lock hstage hfree =>
      apply hs.advance hkeeper rfl
      intro seen hnext
      by_cases hrequest : t.request = .ifChanged <;> simp [hrequest] at hnext
      subst seen
      exact sawPresent_nil path s
  | recheck hstage =>
      apply hs.advance hkeeper rfl
      intro seen hnext
      by_cases hfresh : (s.keeper.isFresh s.disk).1 <;> simp [hfresh] at hnext
      subst seen
      exact sawPresent_nil path s
  | look seen hstage hseen =>
      apply hs.advance hkeeper rfl
      intro more hnext
      simp only [Trigger.moveTo_stage, Stage.building.injEq] at hnext
      subst more
      exact hs.look (hs.seen t hmem seen hstage)
  | fail seen sightings failure hstage hseen hresult =>
      exact hs.advance hkeeper rfl (by simp)
  | unlock result hstage =>
      exact hs.advance hkeeper rfl (by simp)
  | build seen sightings generation hstage hseen hresult =>
      have hslot : (s.withTrigger i t { s.keeper with slot := (s.keeper.slot.add generation).1 }
          (t.moveTo (.publishing s.keeper.slot.built.size))).slot = (s.slot.add generation).1 := rfl
      refine hs.kept hkeeper rfl rfl ?_ ?_ (withTrigger_seen (by simp))
      · rw [hslot]
        exact hs.recorded.add
          (fun g hg => haccounted.held_lt g (mem_inHand.mpr (Or.inl hg))) generation
      · intro g other hother
        rw [hslot, Slot.generation?_add] at hother
        by_cases hnew : g = s.slot.built.size
        · rw [if_pos hnew, Option.some.injEq] at hother
          subst other
          rw [hs.keeper.2] at hresult
          exact Or.inr ((hs.seen t hmem seen hstage).build hseen hresult)
        · rw [if_neg hnew] at hother
          exact Or.inl hother
  | publish g hstage =>
      have hheld : g ∈ t.holds := by simp [Trigger.holds, hstage]
      have hlt := haccounted.held_lt g (mem_inHand.mpr (Or.inr (Or.inl ⟨t, hmem, hheld⟩)))
      refine hs.kept hkeeper rfl rfl (hs.recorded.publish hlt _) ?_ (withTrigger_seen (by simp))
      intro i generation hnext
      exact Or.inl ((Slot.generation?_publish s.slot g i _).symm.trans hnext)
  | retire previous result hstage =>
      refine hs.quiet hkeeper rfl rfl (fun g => ?_) ?_ (withTrigger_seen (by simp))
      · cases previous with
        | none => rfl
        | some retired => exact Slot.generation?_setLifetime s.slot retired g _
      · cases previous <;> exact Or.inr ⟨rfl, rfl⟩

theorem act_faithful {path : String} {options : Options} {s next : Traffic} {action : Action}
    (hs : s.Faithful path options) (haccounted : s.Accounted) (hfresh : s.Freshly action)
    (hact : s.act action = some next) : next.Faithful path options := by
  have hkeeper := act_keeper_eq hact
  cases effect_of_act hact with
  | change target => exact hs.change hfresh hact
  | advance ht hmove => exact hs.move haccounted ht hmove
  | call request reason raising =>
      refine hs.quiet hkeeper rfl rfl (fun g => rfl) (Or.inr ⟨rfl, rfl⟩) ?_
      intro t ht seen hstage
      rcases List.mem_append.mp ht with ht | ht
      · exact Or.inl ht
      · obtain rfl := List.mem_singleton.mp ht
        by_cases hrequest : request = .ifChanged <;> simp [Trigger.begin, hrequest] at hstage
  | tick | close =>
      exact hs.quiet hkeeper rfl rfl (fun g => rfl) (Or.inr ⟨rfl, rfl⟩) fun t ht _ _ => Or.inl ht
  | empty hcloser =>
      exact hs.quiet hkeeper rfl rfl (fun g => rfl) (Or.inl rfl) fun t ht _ _ => Or.inl ht
  | @retire i previous hcloser =>
      refine hs.quiet hkeeper rfl rfl (fun g => ?_) ?_ fun t ht _ _ => Or.inl ht
      · cases previous with
        | none => rfl
        | some retired => exact Slot.generation?_setLifetime s.slot retired g _
      · cases previous <;> exact Or.inr ⟨rfl, rfl⟩
  | @enter slot g henter =>
      obtain ⟨l, -, -, -, rfl⟩ := Slot.enter_eq_ok henter
      refine hs.quiet hkeeper rfl rfl (fun i => ?_) (Or.inr ⟨rfl, rfl⟩) fun t ht _ _ => Or.inl ht
      exact Slot.generation?_setLifetime s.slot g i fun _ => { l with readers := l.readers + 1 }
  | @leave g hread =>
      refine hs.quiet hkeeper rfl rfl (fun i => ?_) (Or.inr ⟨rfl, rfl⟩) fun t ht _ _ => Or.inl ht
      exact Slot.generation?_setLifetime s.slot g i _

theorem Reachable.faithful {path : String} {options : Options} {disk : Disk} {s : Traffic}
    (hreach : Reachable Freshly (Traffic.start path (buildSeen path options) disk) s) :
    s.Faithful path options := by
  induction hreach with
  | start => exact start_faithful path options disk
  | act action hreach hfresh hact ih => exact act_faithful ih hreach.accounted hfresh hact

/-! ## The current generation -/

theorem signature_of_unchanged {k : Keeper} {disk : Disk} {signature : Signature}
    (hread : readSignature k.path (disk k.path) = .ok signature)
    (hsame : (k.hasChanged disk).1 = false) : k.slot.signature = some signature := by
  simp only [Keeper.hasChanged, hread, bne_eq_false_iff_eq] at hsame
  exact hsame.symm

theorem Faithful.build_eq_of_unchanged {path : String} {options : Options} {s : Traffic} {g : Nat}
    (hs : s.Faithful path options) (hcurrent : s.slot.current = some g)
    (hstat : Succeeds (readSignature path s.target))
    (hsame : (s.keeper.hasChanged s.disk).1 = false) :
    ∃ h, s.slot.built[g]? = some h ∧
      (build path options s.target).result = .ok h.generation := by
  obtain ⟨signature, hread⟩ := hstat
  obtain ⟨generation, hbuilt, hrecorded⟩ := hs.recorded g hcurrent
  have hlook : readSignature s.keeper.path s.target = .ok signature := by
    rw [hs.keeper.1, hread]
  have hkept : s.slot.signature = some signature := signature_of_unchanged hlook hsame
  have hpresent : generation.signature ∈ Refresh.signatures path s.target := by
    rw [mem_signatures, hread, ← Option.some.inj (hrecorded.symm.trans hkept)]
  obtain ⟨h, hheld, rfl⟩ := Slot.generation?_eq_some_iff.mp hbuilt
  exact ⟨h, hheld, (hs.built g h.generation hbuilt).2 hpresent⟩

/-- No change is lost: as long as each change gives the catalog a new signature, a catalog that
can be looked at and counts as unchanged is the one from which the current generation comes, and a
build of the present catalog alone makes exactly that generation. -/
theorem current_eq_build {path : String} {options : Options} {disk : Disk} {s : Traffic}
    {g : Nat} (hreach : Reachable Freshly (Traffic.start path (buildSeen path options) disk) s)
    (hcurrent : s.slot.current = some g) (hstat : Succeeds (readSignature path s.target))
    (hsame : (s.keeper.hasChanged s.disk).1 = false) :
    ∃ h, s.slot.built[g]? = some h ∧ (build path options s.target).result = .ok h.generation :=
  hreach.faithful.build_eq_of_unchanged hcurrent hstat hsame

/-- The first build begins and looks three times. -/
def beforeChange : List Action :=
  .call .first "" true :: List.replicate 4 (.advance 0)

/-- The first build goes on and publishes; then a trigger looks for changes. -/
def afterChange : List Action :=
  List.replicate 7 (.advance 0) ++ .call .ifChanged "query" false :: List.replicate 13 (.advance 1)

theorem current_eq_build_overtaken :
    ∃ s h, (start "c" (buildSeen "c" ⟨[], 0, 100⟩) fun _ => oneFile 1 (.int 1)).run
        (beforeChange ++ .change (oneFile 2 (.int 2)) :: afterChange) = some s ∧
      s.slot.built[1]? = some h ∧
      (build "c" ⟨[], 0, 100⟩ s.target).result = .ok h.generation := by
  have hend : ((start "c" (buildSeen "c" ⟨[], 0, 100⟩) fun _ => oneFile 1 (.int 1)).run
      (beforeChange ++ .change (oneFile 2 (.int 2)) :: afterChange)).map (fun s =>
        (s.slot.current, (readSignature "c" s.target).isOk, (s.keeper.hasChanged s.disk).1)) =
      some (some 1, true, false) := by
    decide +kernel
  obtain ⟨s, hrun, hs⟩ := Option.map_eq_some_iff.mp hend
  simp only [Prod.mk.injEq] at hs
  have hreach : Reachable Freshly _ s :=
    .of_change (by simp [beforeChange, afterChange, Freshly]) (by decide +kernel) hrun
  have hstat : Succeeds (readSignature "c" s.target) := by
    cases hread : readSignature "c" s.target with
    | error failure => simp [hread, Except.isOk, Except.toBool] at hs
    | ok signature => exact succeeds_ok signature
  obtain ⟨h, hbuilt, hbuild⟩ := current_eq_build hreach hs.1 hstat hs.2.2
  exact ⟨s, h, hrun, hbuilt, hbuild⟩

end Traffic

end DiskCatalog.Refresh

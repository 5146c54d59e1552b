import DiskCatalog.Proofs.Refresh.Chronicle

/-!
# First builds

A call for the first generation fails, or it returns the generation of its own build.  It hands that
over in one step: an open keeper takes it into the slot, and one that a call has begun to close does
not.  It is returned in both cases, and in the second one it is closed by then and was never in the
slot.
-/

namespace DiskCatalog.Refresh

open Store Index

/-! ## What a trigger has achieved -/

namespace Trigger

def achieved? (t : Trigger) : Option Rebuilt :=
  match t.stage with
  | .retiring _ achieved | .leaving (.ok achieved) | .finished (.ok achieved) => some achieved
  | _ => none

/-- A trigger for the first generation does not look for changes, and it achieves nothing without a
generation. -/
def Insists (t : Trigger) : Prop :=
  t.request = .first → t.stage ≠ .checking ∧ t.stage ≠ .rechecking ∧
    ∀ published, t.achieved? ≠ some ⟨published, none⟩

variable {disk : Disk} {k k' : Keeper} {t t' : Trigger} {g : Nat} {published : Bool}

theorem achieved?_begin (request : Request) (reason : String) (raising : Bool) :
    (begin request reason raising).achieved? = none := by
  by_cases hrequest : request = .ifChanged <;> simp [begin, achieved?, hrequest]

theorem insists_begin (request : Request) (reason : String) (raising : Bool) :
    (begin request reason raising).Insists := by
  intro hfirst
  obtain rfl : request = .first := hfirst
  simp [begin, achieved?]

/-- No generation is achieved by a build that has failed. -/
theorem achieved?_failed (t : Trigger) (failure : Failure) :
    (t.moveTo (.leaving (t.failed failure))).achieved? ≠ some ⟨published, some g⟩ := by
  cases hsurvives : t.survives failure <;> simp [achieved?, failed, hsurvives]

theorem insists_failed (t : Trigger) (failure : Failure) :
    (t.moveTo (.leaving (t.failed failure))).Insists := by
  intro hfirst
  have hrequest : t.request = .first := hfirst
  simp [achieved?, failed, survives, hrequest]

theorem Move.insists (hmove : t.Move disk k k' t') (ht : t.Insists) : t'.Insists := by
  intro hfirst
  rw [hmove.request_eq] at hfirst
  obtain ⟨hcheck, hrecheck, hachieved⟩ := ht hfirst
  cases hmove with
  | check hstage => exact absurd hstage hcheck
  | recheck hstage => exact absurd hstage hrecheck
  | lock hstage hfree => simp [achieved?, hfirst]
  | look seen hstage hseen => simp [achieved?]
  | build seen s generation hstage hseen hresult => simp [achieved?]
  | fail seen s failure hstage hseen hresult => simp [achieved?, survives, hfirst]
  | publish i hstage => simp [achieved?]
  | retire previous result hstage =>
      refine ⟨by simp, by simp, fun published hnone => hachieved published ?_⟩
      simpa [achieved?, hstage] using hnone
  | unlock result hstage =>
      refine ⟨by simp, by simp, fun published hnone => hachieved published ?_⟩
      cases result with
      | ok achieved => simpa [achieved?, hstage] using hnone
      | error failure => simp [achieved?] at hnone

/-- A generation is achieved in the step in which it is handed over. -/
theorem Move.achieved (hmove : t.Move disk k k' t')
    (hachieved : t'.achieved? = some ⟨published, some g⟩) :
    t.achieved? = some ⟨published, some g⟩ ∨
      (t.stage = .publishing g ∧ published = !k.slot.closed) := by
  cases hmove with
  | check hstage | recheck hstage =>
      by_cases hfresh : (k.isFresh disk).1 <;> simp [achieved?, hfresh] at hachieved
  | lock hstage hfree =>
      by_cases hrequest : t.request = .ifChanged <;> simp [achieved?, hrequest] at hachieved
  | look | build => simp [achieved?] at hachieved
  | fail seen s failure hstage hseen hresult => exact absurd hachieved (t.achieved?_failed failure)
  | publish i hstage =>
      simp only [achieved?, moveTo_stage, Option.some.injEq, Rebuilt.mk.injEq] at hachieved
      obtain ⟨rfl, rfl⟩ := hachieved
      refine Or.inr ⟨hstage, ?_⟩
      cases hclosed : k.slot.closed <;> simp [Slot.publish, hclosed]
  | retire previous result hstage =>
      exact Or.inl (by simpa [achieved?, hstage] using hachieved)
  | unlock result hstage =>
      cases result with
      | ok achieved => exact Or.inl (by simpa [achieved?, hstage] using hachieved)
      | error failure => simp [achieved?] at hachieved

end Trigger

namespace Chronicle

variable {s next : Chronicle} {incident : Incident} {i g : Nat}
  {u : Trigger} {published : Bool}

/-! ## Where triggers come from -/

/-- Where a trigger comes from that is there after a step. -/
inductive Origin (s : Chronicle) (incident : Incident) (i : Nat) (u : Trigger) : Prop where
  | same : s.traffic.triggers[i]? = some u → Origin s incident i u
  | moved (t : Trigger) (k : Keeper) : incident = .ordinary (.advance i) →
      s.traffic.triggers[i]? = some t → t.Move s.traffic.disk s.traffic.keeper k u →
      Origin s incident i u
  | new (request : Request) (reason : String) (raising : Bool) :
      u = .begin request reason raising → Origin s incident i u
  | failed (t : Trigger) (failure : Failure) : u = t.moveTo (.leaving (t.failed failure)) →
      Origin s incident i u

theorem origin_of_ordinary {action : Action} {traffic : Traffic}
    (htraffic : s.traffic.act action = some traffic) (hu : traffic.triggers[i]? = some u) :
    s.Origin (.ordinary action) i u := by
  cases Traffic.effect_of_act htraffic with
  | @advance j t t' k ht hmove =>
      rcases Traffic.getElem?_withTrigger hu with ⟨rfl, rfl⟩ | ⟨-, hsame⟩
      · exact .moved t k rfl ht hmove
      · exact .same hsame
  | call request reason raising =>
      rcases Traffic.getElem?_call hu with hsame | ⟨-, hnew⟩
      · exact .same hsame
      · exact .new request reason raising hnew
  | change | tick | close | empty | retire | enter | leave => exact .same hu

theorem act_origin (hact : s.act incident = some next)
    (hu : next.traffic.triggers[i]? = some u) : s.Origin incident i u := by
  rcases act_cases hact with ⟨action, traffic, htraffic, rfl, rfl | ⟨now, rfl⟩⟩ |
    ⟨j, t, failure, rfl, ht, hbuilding, rfl⟩
  · rw [record_traffic] at hu
    exact origin_of_ordinary htraffic hu
  · obtain ⟨request, reason, raising, hsweep⟩ := s.exists_act_sweep now
    rw [hsweep, act] at hact
    obtain ⟨called, hcalled, hnext⟩ := Option.map_eq_some_iff.mp hact
    rw [← hnext, record_traffic] at hu
    cases origin_of_ordinary hcalled hu with
    | same hsame => exact .same hsame
    | moved t k hadvance ht hmove => simp at hadvance
    | new request reason raising hnew => exact .new request reason raising hnew
    | failed t failure hfailed => exact .failed t failure hfailed
  · by_cases hji : j = i
    · subst hji
      obtain ⟨hlt, -⟩ := List.getElem?_eq_some_iff.mp ht
      rw [Traffic.withFailed, List.getElem?_set_self hlt] at hu
      exact .failed t failure (Option.some.inj hu).symm
    · rw [Traffic.withFailed, List.getElem?_set_ne hji] at hu
      exact .same hu

/-- Every trigger for the first generation insists on one. -/
theorem act_insists (hs : ∀ t ∈ s.traffic.triggers, t.Insists)
    (hact : s.act incident = some next) : ∀ u ∈ next.traffic.triggers, u.Insists := by
  intro u hu
  obtain ⟨i, hi⟩ := List.getElem?_of_mem hu
  cases act_origin hact hi with
  | same hsame => exact hs u (List.mem_of_getElem? hsame)
  | moved t k hadvance ht hmove => exact hmove.insists (hs t (List.mem_of_getElem? ht))
  | new request reason raising hnew => exact hnew ▸ Trigger.insists_begin request reason raising
  | failed t failure hfailed => exact hfailed ▸ Trigger.insists_failed t failure

/-! ## What was published and what is withheld -/

/-- Only what was built was published, and what a trigger withholds never was. -/
structure Separate (s : Chronicle) : Prop where
  built : ∀ entry ∈ s.published, ∃ generation, s.slot.generation? entry.1 = some generation
  withheld : ∀ t ∈ s.traffic.triggers, ∀ g, t.Withholds g → ∀ entry ∈ s.published, entry.1 ≠ g

theorem start_separate (plan : Plan) (builder : Builder) (disk : Disk) :
    (start plan builder disk).Separate where
  built := by simp [start]
  withheld := by simp [start]

theorem withholds_of_act (hact : s.act incident = some next)
    (hu : u ∈ next.traffic.triggers) (hwithholds : u.Withholds g) :
    (∃ t ∈ s.traffic.triggers, t.Withholds g) ∨ g = s.slot.built.size := by
  obtain ⟨i, hi⟩ := List.getElem?_of_mem hu
  cases act_origin hact hi with
  | same hsame => exact Or.inl ⟨u, List.mem_of_getElem? hsame, hwithholds⟩
  | moved t k hadvance ht hmove =>
      exact (hmove.withholds hwithholds).imp_left fun hbefore =>
        ⟨t, List.mem_of_getElem? ht, hbefore⟩
  | new request reason raising hnew =>
      subst hnew
      exact absurd hwithholds (Trigger.not_withholds_begin request reason raising g)
  | failed t failure hfailed =>
      subst hfailed
      simp [Trigger.Withholds] at hwithholds

theorem generation?_of_course {traffic : Traffic} {published : Option Nat}
    (hcourse : s.traffic.Course traffic published) {generation : Generation}
    (hg : s.slot.generation? g = some generation) :
    traffic.slot.generation? g = some generation := by
  cases hcourse with
  | quiet hkept hempty hemptied => exact hkept.generations g generation hg
  | publish other published hopen hgeneration hslot hclosers => exact hslot ▸ hg
  | shut hslot hclosers => exact hslot ▸ hg
  | empty hslot hempty hemptied => exact hslot ▸ hg

theorem act_separate (hs : s.Truthful) (hseparate : s.Separate)
    (hact : s.act incident = some next) : next.Separate := by
  have hnext := act_truthful hs hact
  obtain ⟨published, hrecord, hcourse⟩ := act_course hs hact
  have hkept : ∀ entry ∈ s.published, ∃ generation,
      next.slot.generation? entry.1 = some generation := by
    intro entry hentry
    obtain ⟨generation, hgeneration⟩ := hseparate.built entry hentry
    exact ⟨generation, generation?_of_course hcourse hgeneration⟩
  have hapart : ∀ u ∈ next.traffic.triggers, ∀ g, u.Withholds g →
      ∀ entry ∈ s.published, entry.1 ≠ g := by
    intro u hu g hwithholds entry hentry
    rcases withholds_of_act hact hu hwithholds with ⟨t, ht, hbefore⟩ | rfl
    · exact hseparate.withheld t ht g hbefore entry hentry
    · -- what has only just been built is none of what was built before
      obtain ⟨generation, hgeneration⟩ := hseparate.built entry hentry
      obtain ⟨h, hbuilt, -⟩ := Slot.generation?_eq_some_iff.mp hgeneration
      exact (Array.getElem?_eq_some_iff.mp hbuilt).1.ne
  have hpublished : next.published = (s.record next.traffic published).published :=
    congrArg Chronicle.published hrecord
  cases hcourse with
  | quiet | shut | empty =>
      have hsame : next.published = s.published := hpublished
      rw [← hsame] at hkept hapart
      exact ⟨hkept, hapart⟩
  | publish g generation hopen hgeneration hslot hclosers =>
      have hmore : next.published = s.published ++ [(g, s.traffic.keeper.clock)] := hpublished
      have hcurrent : next.slot.current = some g := by rw [slot, hslot]
      constructor
      · intro entry hentry
        rw [hmore, List.mem_append, List.mem_singleton] at hentry
        rcases hentry with hold | rfl
        · exact hkept entry hold
        · exact hnext.exists_generation hcurrent
      · intro u hu other hwithholds entry hentry
        rw [hmore, List.mem_append, List.mem_singleton] at hentry
        rcases hentry with hold | rfl
        · exact hapart u hu other hwithholds entry hold
        · rintro rfl
          exact hnext.accounted.current_ne_of_withholds hu hwithholds hcurrent

theorem Reachable.separate {plan : Plan} {builder : Builder} {disk : Disk}
    (hreach : Reachable (Chronicle.start plan builder disk) s) : s.Truthful ∧ s.Separate :=
  hreach.keeps (fun _ _ _ hs hseparate hact => act_separate hs hseparate hact)
    (start_truthful plan builder disk) (start_separate plan builder disk)

/-! ## The step in which a generation is handed over -/

/-- In one step a trigger handed over the generation that it had built. -/
structure HandsOver (s next : Chronicle) (i g : Nat) (published : Bool) : Prop where
  act : s.act (.ordinary (.advance i)) = some next
  own : ∃ t, s.traffic.triggers[i]? = some t ∧ t.stage = .publishing g
  taken : published = true → s.slot.closed = false ∧ next.slot.current = some g ∧
    next.published = s.published ++ [(g, s.traffic.keeper.clock)]
  refused : published = false → s.slot.closed = true ∧ next.slot = s.slot ∧
    next.published = s.published

theorem handsOver_of_publishing (hs : s.Truthful) {t : Trigger}
    (ht : s.traffic.triggers[i]? = some t) (hstage : t.stage = .publishing g)
    (hact : s.act (.ordinary (.advance i)) = some next) :
    s.HandsOver next i g (!s.slot.closed) := by
  obtain ⟨traffic, htraffic, rfl⟩ := Option.map_eq_some_iff.mp hact
  refine ⟨hact, ⟨t, ht, hstage⟩, ?taken, ?refused⟩
  case taken =>
    intro hpublished
    have hopen : s.slot.closed = false := by simpa using hpublished
    have hopen' : s.traffic.slot.closed = false := hopen
    have hmark : s.traffic.published? (.advance i) = some g := by
      simp [Traffic.published?, ht, hstage, Slot.publish, hopen']
    have hcourse := Traffic.act_course hs.accounted htraffic
    rw [hmark] at hcourse ⊢
    cases hcourse with
    | publish _ generation _ hgeneration hslot hclosers =>
        exact ⟨hopen, by rw [slot, record_traffic, hslot], rfl⟩
  case refused =>
    intro hpublished
    have hclosed : s.slot.closed = true := by simpa using hpublished
    have hclosed' : s.traffic.slot.closed = true := hclosed
    have hmark : s.traffic.published? (.advance i) = none := by
      simp [Traffic.published?, ht, hstage, Slot.publish, hclosed']
    obtain ⟨u, k, u', hu, hmove, rfl⟩ := Traffic.act_advance htraffic
    obtain rfl : u = t := Option.some.inj (hu.symm.trans ht)
    rw [hmark]
    refine ⟨hclosed, ?_, rfl⟩
    cases hmove with
    | publish other hother =>
        have hkeeper : s.traffic.keeper.slot.closed = true := hclosed
        simp [slot, Traffic.slot, Traffic.withTrigger, record, Slot.publish, hkeeper]
    | check | lock | recheck | look | build | fail | retire | unlock => simp_all

/-- What a trigger has achieved it has achieved in the step in which it handed it over. -/
theorem Reachable.handedOver {plan : Plan} {builder : Builder} {disk : Disk}
    (hreach : Reachable (Chronicle.start plan builder disk) s) {t : Trigger}
    (ht : s.traffic.triggers[i]? = some t) (hachieved : t.achieved? = some ⟨published, some g⟩) :
    ∃ before after, Reachable (Chronicle.start plan builder disk) before ∧
      before.HandsOver after i g published ∧ Reachable after s := by
  induction hreach generalizing t with
  | start => simp [Chronicle.start, Traffic.start] at ht
  | @act s next incident hreach hact ih =>
      have hearlier : ∀ {u : Trigger}, s.traffic.triggers[i]? = some u →
          u.achieved? = some ⟨published, some g⟩ → ∃ before after,
            Reachable (Chronicle.start plan builder disk) before ∧
              before.HandsOver after i g published ∧ Reachable after next := by
        intro u hu hold
        obtain ⟨before, after, hbefore, hhanded, hafter⟩ := ih hu hold
        exact ⟨before, after, hbefore, hhanded, .act incident hafter hact⟩
      cases act_origin hact ht with
      | same hsame => exact hearlier hsame hachieved
      | moved u k hadvance hu hmove =>
          rcases hmove.achieved hachieved with hold | ⟨hstage, rfl⟩
          · exact hearlier hu hold
          · subst hadvance
            exact ⟨s, next, hreach,
              handsOver_of_publishing hreach.separate.1 hu hstage hact, .start⟩
      | new request reason raising hnew =>
          rw [hnew, Trigger.achieved?_begin] at hachieved
          contradiction
      | failed u failure hfailed => exact absurd hachieved (hfailed ▸ u.achieved?_failed failure)

theorem Reachable.insists {plan : Plan} {builder : Builder} {disk : Disk}
    (hreach : Reachable (Chronicle.start plan builder disk) s) :
    ∀ t ∈ s.traffic.triggers, t.Insists :=
  (hreach.keeps (fun _ _ _ _ hinsists hact => act_insists hinsists hact)
    (start_truthful plan builder disk) (by simp [Chronicle.start, Traffic.start])).2

theorem Reachable.published_subset {first : Chronicle} (hreach : Reachable first s)
    (hfirst : first.Truthful) : first.published ⊆ s.published := by
  refine (hreach.keeps (P := fun s => first.published ⊆ s.published) ?_ hfirst
    (List.Subset.refl _)).2
  intro s incident next hs hsubset hact
  obtain ⟨published, hrecord, -⟩ := act_course hs hact
  rw [hrecord]
  cases published with
  | none => exact hsubset
  | some g => exact List.subset_append_of_subset_left _ hsubset

/-! ## Calls for the first generation -/

/-- What a call has done with the generation that it returns. -/
structure Delivers (first s : Chronicle) (i g : Nat) (published : Bool) : Prop where
  handed : ∃ before after, Reachable first before ∧
    before.HandsOver after i g published ∧ Reachable after s
  published_iff : published = true ↔ ∃ now, (g, now) ∈ s.published
  /-- As long as no call has begun to close, everything that is returned was published. -/
  open_slot : s.traffic.closers = [] → published = true
  /-- What was refused is closed when it is returned, and it never comes into the slot. -/
  refused : published = false → ∀ later, Reachable s later →
    later.slot.hasClosed g = true ∧ later.slot.current ≠ some g

theorem Truthful.current_ne_of_hasClosed (hs : s.Truthful) (hclosed : s.slot.hasClosed g = true) :
    s.slot.current ≠ some g := by
  obtain ⟨l, hl, hover⟩ := (Option.any_eq_true _ _).mp hclosed
  obtain ⟨h, hbuilt, rfl⟩ := Option.map_eq_some_iff.mp hl
  exact (hs.accounted.safe.closed g h hbuilt hover).2.1

/-- A trigger that is refused has closed its generation when it returns. -/
theorem HandsOver.discards {before after : Chronicle}
    (hhanded : before.HandsOver after i g false) (hbefore : before.Truthful)
    (hafter : Reachable after s) : s.Truthful ∧ s.Discards i g := by
  obtain ⟨t, ht, hstage⟩ := hhanded.own
  have hrejects : after.Rejects i g :=
    act_rejects hbefore ⟨(hhanded.refused rfl).1, t, ht, Or.inl (Or.inl hstage)⟩ hhanded.act
  obtain ⟨hs, hlast⟩ := hafter.keeps (P := fun s => s.Rejects i g)
    (fun _ _ _ hmiddle hkept hact => act_rejects hmiddle hkept hact)
    (act_truthful hbefore hhanded.act) hrejects
  exact ⟨hs, hs.discards hlast⟩

theorem HandsOver.published_iff {before after : Chronicle}
    (hhanded : before.HandsOver after i g published) (hbefore : before.Truthful)
    (hseparate : before.Separate) (hafter : Reachable after s) :
    published = true ↔ ∃ now, (g, now) ∈ s.published := by
  have htruthful := act_truthful hbefore hhanded.act
  cases hpublished : published with
  | true =>
      have hmem : (g, before.traffic.keeper.clock) ∈ after.published := by
        rw [(hhanded.taken hpublished).2.2]
        exact List.mem_append_right _ (List.mem_singleton_self _)
      exact iff_of_true rfl ⟨_, hafter.published_subset htruthful hmem⟩
  | false =>
      obtain ⟨hclosed, hslot, hsame⟩ := hhanded.refused hpublished
      have hshut : after.slot.closed = true := hslot ▸ hclosed
      have hlast : s.published = before.published :=
        (htruthful.reliable.shut hshut s hafter).2.1.trans hsame
      refine iff_of_false Bool.false_ne_true ?_
      rintro ⟨later, hmem⟩
      obtain ⟨t, ht, hstage⟩ := hhanded.own
      rw [hlast] at hmem
      exact hseparate.withheld t (List.mem_of_getElem? ht) g (Or.inl hstage) _ hmem rfl

/-- A call for the first generation that returns hands out the generation of its own build.  It put
that into the slot exactly if no call had begun to close when it handed the generation over. -/
theorem first_build_delivers {plan : Plan} {builder : Builder} {disk : Disk}
    (hreach : Reachable (start plan builder disk) s) {t : Trigger} {achieved : Rebuilt}
    (ht : s.traffic.triggers[i]? = some t) (hfirst : t.request = .first)
    (hresult : t.result? = some (.ok achieved)) :
    ∃ g, achieved.generation = some g ∧
      Delivers (start plan builder disk) s i g achieved.published := by
  have hachieved : t.achieved? = some achieved := by
    unfold Trigger.result? at hresult
    split at hresult
    · rename_i result hstage
      obtain rfl := Option.some.inj hresult
      simp [Trigger.achieved?, hstage]
    · contradiction
  obtain ⟨published, generation⟩ := achieved
  obtain ⟨-, -, hnone⟩ := hreach.insists t (List.mem_of_getElem? ht) hfirst
  cases generation with
  | none => exact absurd hachieved (hnone published)
  | some g =>
      obtain ⟨before, after, hbefore, hhanded, hafter⟩ := hreach.handedOver ht hachieved
      obtain ⟨htruthful, hseparate⟩ := hbefore.separate
      refine ⟨g, rfl, ⟨before, after, hbefore, hhanded, hafter⟩,
        hhanded.published_iff htruthful hseparate hafter, ?open_slot, ?refused⟩
      case open_slot =>
        intro hclosers
        by_contra hrefused
        obtain ⟨hclosed, hslot, -⟩ := hhanded.refused (Bool.eq_false_iff.mpr hrefused)
        have hafterTruthful := act_truthful htruthful hhanded.act
        have hshut := (hafterTruthful.reliable.shut (hslot ▸ hclosed) s hafter).1
        rw [hreach.separate.1.closed, hclosers] at hshut
        contradiction
      case refused =>
        intro hrefused later hlater
        subst hrefused
        obtain ⟨hs, hdiscards⟩ := hhanded.discards htruthful hafter
        have hover := (hdiscards.closed t _ ht hresult).2
        obtain ⟨hlast, hstill⟩ := hlater.keeps (P := fun later => later.slot.hasClosed g = true)
          (fun _ _ _ _ hkept hact => act_hasClosed hact hkept) hs hover
        exact ⟨hstill, hlast.current_ne_of_hasClosed hstill⟩

/-- The keeper of a catalog with one file. -/
def oneFileKeeper : Chronicle :=
  start ⟨"c", ⟨[], 0, 100⟩, .ofInt 1, false, 3⟩ (buildSeen "c" ⟨[], 0, 100⟩)
    fun _ => oneFile 1 (.int 3)

def atNoon (actions : List Action) : List Incident :=
  (.tick ⟨⟨2024, 5, 1⟩, 12, 0, 0, 0⟩ :: actions).map .ordinary

/-- A call closes the keeper while a second first generation is built. -/
def secondTooLate : List Incident :=
  atNoon ([.call .first "" true] ++ List.replicate 11 (.advance 0) ++ [.call .first "" true] ++
    List.replicate 5 (.advance 1) ++ [.close] ++ List.replicate 6 (.advance 1))

theorem first_build_delivers_secondTooLate :
    ∃ s, oneFileKeeper.run secondTooLate = some s ∧ Delivers oneFileKeeper s 0 0 true ∧
      Delivers oneFileKeeper s 1 1 false := by
  have hruns : (oneFileKeeper.run secondTooLate).map (fun s =>
      s.traffic.triggers.map fun t => (t.request, t.result?.bind (·.toOption))) =
        some [(.first, some ⟨true, some 0⟩), (.first, some ⟨false, some 1⟩)] := by
    decide +kernel
  obtain ⟨s, hrun, htriggers⟩ := Option.map_eq_some_iff.mp hruns
  have hreach : Reachable oneFileKeeper s := .of_run .start hrun
  have hdelivers : ∀ (i g : Nat) (published : Bool),
      (s.traffic.triggers.map fun t => (t.request, t.result?.bind (·.toOption)))[i]? =
        some (.first, some ⟨published, some g⟩) → Delivers oneFileKeeper s i g published := by
    intro i g published hi
    rw [List.getElem?_map] at hi
    obtain ⟨t, ht, hpair⟩ := Option.map_eq_some_iff.mp hi
    obtain ⟨hrequest, hresult⟩ := Prod.mk.inj hpair
    obtain ⟨result, hresult, hok⟩ := Option.bind_eq_some_iff.mp hresult
    obtain rfl : result = .ok ⟨published, some g⟩ := by
      cases result with
      | error failure => simp [Except.toOption] at hok
      | ok achieved => simpa [Except.toOption] using hok
    obtain ⟨g', hg', hdelivers⟩ := first_build_delivers hreach ht hrequest hresult
    obtain rfl : g = g' := Option.some.inj hg'
    exact hdelivers
  exact ⟨s, hrun, hdelivers 0 0 true (by rw [htriggers]; rfl),
    hdelivers 1 1 false (by rw [htriggers]; rfl)⟩

/-- The keeper is closed before the first generation is built. -/
def closedBefore : List Incident :=
  atNoon ([.close, .advanceClose 0, .advanceClose 0, .call .first "" true] ++
    List.replicate 11 (.advance 0))

/-- A call for the first generation of a keeper that is closed returns one that is closed, too, and
that was never in the slot. -/
theorem first_build_unpublished :
    ∃ s, oneFileKeeper.run closedBefore = some s ∧
      (s.traffic.triggers.map fun t => (t.request, t.result?.bind (·.toOption))) =
        [(.first, some ⟨false, some 0⟩)] ∧
      s.published = [] ∧ s.slot.current = none ∧ s.slot.hasClosed 0 = true := by
  have hruns : (oneFileKeeper.run closedBefore).map (fun s =>
      (s.traffic.triggers.map fun t => (t.request, t.result?.bind (·.toOption)), s.published,
        s.slot.current, s.slot.hasClosed 0)) =
      some ([(.first, some ⟨false, some 0⟩)], [], none, true) := by
    decide +kernel
  obtain ⟨s, hrun, hfacts⟩ := Option.map_eq_some_iff.mp hruns
  simp only [Prod.mk.injEq] at hfacts
  exact ⟨s, hrun, hfacts⟩

end Chronicle

end DiskCatalog.Refresh

import DiskCatalog.Proofs.Index.Contract
import DiskCatalog.Proofs.Refresh.Freshness
import DiskCatalog.Proofs.Refresh.Undisturbed
import DiskCatalog.Proofs.Search.Answerable
import DiskCatalog.Refresh.Coordinator

/-!
# Searches of a changing catalog

A search looks for changes first.  It answers from what the present catalog gives when that can be
built, and from the generation before when the build fails by a fault of the catalog.  A failure of
any other kind, such as the failed conversion of a value, ends the search instead, and so does an
entry of the page that cannot be shown; the generation before stays current even then.
-/

namespace DiskCatalog.Refresh

open Store Index Search

namespace Slot

/-! ## Displacing a generation -/

end Slot

namespace Coordinator

/-! ## Answers -/

/-- A coordinator serves a generation: it is current, and its rows can be read. -/
def Serves (c : Coordinator) (g : Generation) : Prop :=
  ∃ h, c.slot.held? = some h ∧ h.generation = g ∧ h.lifetime.closed = false

theorem Serves.answer_eq {c : Coordinator} {g : Generation} (hserves : c.Serves g)
    (query : String) (limit offset : Option Int) :
    c.answer query limit offset = respond query limit offset g.entries := by
  obtain ⟨h, hheld, rfl, hopen⟩ := hserves
  obtain ⟨i, hcurrent, hbuilt⟩ := Option.bind_eq_some_iff.mp hheld
  simp [answer, reading, Slot.enter, hcurrent, hbuilt, Lifetime.acquire, hopen, Except.map,
    Slot.setLifetime, Array.getElem?_modify, Held.entries]

theorem search_of_run {c : Coordinator} {k : Keeper} {result : Except Failure Rebuilt}
    {disk : Disk} (hrun : ((Trigger.check "query" false).run c.keeper disk).1 = k ∧
      ((Trigger.check "query" false).run c.keeper disk).2.1 = result)
    (query : String) (limit offset : Option Int) :
    (c.search query limit offset disk).1 = { c with keeper := k } ∧
      (c.search query limit offset disk).2.1 =
        result >>= fun _ => ({ c with keeper := k } : Coordinator).answer query limit offset := by
  obtain ⟨rfl, rfl⟩ := hrun
  exact ⟨rfl, rfl⟩

theorem Serves.isFresh_eq {c : Coordinator} {g : Generation} (hserves : c.Serves g) (disk : Disk) :
    (c.keeper.isFresh disk).1 = !(c.keeper.hasChanged disk).1 := by
  obtain ⟨h, hheld, -⟩ := hserves
  obtain ⟨i, hi, -⟩ := Option.bind_eq_some_iff.mp hheld
  have hcurrent : c.keeper.slot.current.isNone = false :=
    Option.isNone_eq_false_iff.mpr (Option.isSome_of_eq_some hi)
  simp [Keeper.isFresh, hcurrent]

/-- A search of an unchanged catalog reads the generation that is served and changes nothing. -/
theorem Serves.search_eq {c : Coordinator} {g : Generation} {disk : Disk} (hserves : c.Serves g)
    (hsame : (c.keeper.hasChanged disk).1 = false) (query : String) (limit offset : Option Int) :
    (c.search query limit offset disk).1 = c ∧
      (c.search query limit offset disk).2.1 = respond query limit offset g.entries := by
  have hfresh : (c.keeper.isFresh disk).1 = true := by
    rw [hserves.isFresh_eq, hsame, Bool.not_false]
  obtain ⟨hnext, hresult⟩ :=
    search_of_run (Trigger.run_check_of_fresh "query" false hfresh) query limit offset
  refine ⟨hnext, ?_⟩
  rw [hresult]
  exact hserves.answer_eq query limit offset

end Coordinator

namespace Traffic

open Coordinator

/-! ## Failures of triggers among others -/

/-- A trigger ends with a failure only if that is the failure of a build which it does not
survive. -/
def FailsHonestly (builder : Builder) (t : Trigger) : Prop :=
  ∀ f, t.stage = .leaving (.error f) ∨ t.stage = .finished (.error f) →
    t.survives f = false ∧ ∃ seen, (builder seen).result = .error f

theorem FailsHonestly.move {disk : Disk} {k k' : Keeper} {t t' : Trigger}
    (ht : FailsHonestly k.builder t) (hmove : t.Move disk k k' t') :
    FailsHonestly k.builder t' := by
  intro f hstage
  cases hmove with
  | check _ => by_cases hfresh : (k.isFresh disk).1 <;> simp [hfresh] at hstage
  | lock _ _ => by_cases hrequest : t.request = .ifChanged <;> simp [hrequest] at hstage
  | recheck _ => by_cases hfresh : (k.isFresh disk).1 <;> simp [hfresh] at hstage
  | look seen _ _ => simp at hstage
  | build seen sightings g _ _ _ => simp at hstage
  | fail seen sightings failure _ _ hresult =>
      cases hsurvives : t.survives failure with
      | true => simp [hsurvives] at hstage
      | false =>
          simp only [Trigger.moveTo_stage, hsurvives, Bool.false_eq_true, if_false,
            Stage.leaving.injEq, Except.error.injEq, reduceCtorEq, or_false] at hstage
          subst f
          exact ⟨hsurvives, sightings, hresult⟩
  | publish i _ => simp at hstage
  | retire previous result _ => simp at hstage
  | unlock result hleaving =>
      simp only [Trigger.moveTo_stage, reduceCtorEq, Stage.finished.injEq, false_or] at hstage
      subst result
      exact ht f (Or.inl hleaving)

theorem act_failsHonestly {s next : Traffic} {action : Action} (hact : s.act action = some next)
    (hs : ∀ t ∈ s.triggers, FailsHonestly s.keeper.builder t) :
    ∀ t ∈ next.triggers, FailsHonestly s.keeper.builder t := by
  intro u hu
  rcases mem_triggers_of_act hact hu with hold | ⟨t, ht, k, hmove⟩ | ⟨request, reason, raising, rfl⟩
  · exact hs u hold
  · exact (hs t ht).move hmove
  · intro f hstage
    by_cases hrequest : request = .ifChanged <;> simp [Trigger.begin, hrequest] at hstage

/-- In whatever order things happen, a look for changes that is not to raise fails only by the
failure of a build that is no fault of the catalog. -/
theorem Reachable.check_failure {path : String} {builder : Builder} {disk : Disk} {s : Traffic}
    (hreach : Reachable Anyhow (Traffic.start path builder disk) s) {t : Trigger} {f : Failure}
    (ht : t ∈ s.triggers) (hrequest : t.request = .ifChanged) (hquiet : t.raising = false)
    (hresult : t.result? = some (.error f)) :
    f.isCatalogFault = false ∧ ∃ seen, (builder seen).result = .error f := by
  have hhonest : ∀ t ∈ s.triggers, FailsHonestly builder t := by
    clear ht hrequest hquiet hresult
    induction hreach with
    | start => simp [Traffic.start]
    | act action hreach _ hact ih =>
        rw [← hreach.keeper_eq.2] at ih ⊢
        exact act_failsHonestly hact ih
  have hstage : t.stage = .finished (.error f) := by
    unfold Trigger.result? at hresult
    split at hresult <;> simp_all
  obtain ⟨hsurvives, hbuild⟩ := hhonest t ht f (Or.inr hstage)
  refine ⟨?_, hbuild⟩
  simpa [Trigger.survives, hrequest, hquiet] using hsurvives

/-! ## Searches of a changing catalog -/

def coordinator (s : Traffic) (options : Options) : Coordinator :=
  { Coordinator.ofPlan ⟨s.keeper.path, options, .ofInt 1, false, 3⟩ with keeper := s.keeper }

end Traffic

end DiskCatalog.Refresh

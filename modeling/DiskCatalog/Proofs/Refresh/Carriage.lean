import DiskCatalog.Proofs.Refresh.Freshness
import DiskCatalog.Proofs.Refresh.Turns

/-!
# What a trigger carries along

From its first look on a trigger that builds carries a signature of the catalog along, which its
generation records and the slot after it.  Only publishing touches what the slot says, and the
result of a trigger tells whether it has published.
-/

namespace DiskCatalog.Refresh

open Store Index

/-! ## Steps that publish nothing -/

/-- Nothing was published and no generation was lost. -/
structure Slot.Kept (s next : Slot) : Prop where
  closed : next.closed = s.closed
  number : next.number = s.number
  current : next.current = s.current
  signature : next.signature = s.signature
  loaded : next.loaded = s.loaded
  generations : ∀ g generation, s.generation? g = some generation →
    next.generation? g = some generation

namespace Slot

theorem Kept.refl (s : Slot) : s.Kept s :=
  ⟨rfl, rfl, rfl, rfl, rfl, fun _ _ => id⟩

theorem kept_setLifetime (s : Slot) (i : Nat) (f : Lifetime → Lifetime) :
    s.Kept (s.setLifetime i f) := by
  refine ⟨rfl, rfl, rfl, rfl, rfl, fun g generation hg => ?_⟩
  rw [generation?_setLifetime, hg]

theorem kept_add (s : Slot) (new : Generation) : s.Kept (s.add new).1 := by
  refine ⟨rfl, rfl, rfl, rfl, rfl, fun g generation hg => ?_⟩
  obtain ⟨h, hbuilt, -⟩ := generation?_eq_some_iff.mp hg
  obtain ⟨hlt, -⟩ := Array.getElem?_eq_some_iff.mp hbuilt
  rw [generation?_add, if_neg hlt.ne, hg]

end Slot

namespace Trigger

/-- The next step is not a build that fails. -/
def buildSucceeds (k : Keeper) (t : Trigger) : Bool :=
  match t.stage with
  | .building seen => (sightings? seen).all fun s => (k.builder s).result.isOk
  | _ => true

/-- What a trigger that builds has read as the signature, or what it is about to publish, is of a
kind. -/
def Carries (k : Keeper) (t : Trigger) (P : Signature → Prop) : Prop :=
  match t.stage with
  | .building (first :: _) => ∃ signature, readSignature k.path first = .ok signature ∧ P signature
  | .publishing g => ∃ generation, k.slot.generation? g = some generation ∧ P generation.signature
  | _ => True

/-- What the stage of a trigger says about whether it has published. -/
def Tells (t : Trigger) (published : List Nat) (i : Nat) : Prop :=
  match t.stage with
  | .checking | .waiting | .rechecking => i ≠ 0 ∧ i ∉ published
  | .building _ | .publishing _ => i ∉ published
  | .retiring _ result => i ∈ published ∧ result.published = true
  | .leaving result | .finished result =>
    (i = 0 → i ∈ published) ∧ ∃ g, result = .ok ⟨decide (i ∈ published), g⟩

variable {disk : Disk} {k k' : Keeper} {t t' : Trigger} {P Q : Signature → Prop} {i : Nat}
  {published : List Nat}

theorem Move.request_eq (hmove : t.Move disk k k' t') : t'.request = t.request := by
  cases hmove <;> rfl

theorem Move.kept (hmove : t.Move disk k k' t') (hother : ∀ g, t.stage ≠ .publishing g) :
    k.slot.Kept k'.slot := by
  cases hmove with
  | build seen s generation hstage hseen hresult => exact k.slot.kept_add generation
  | publish g hstage => exact absurd hstage (hother g)
  | retire previous result hstage =>
      cases previous with
      | none => exact Slot.Kept.refl k.slot
      | some retired => exact k.slot.kept_setLifetime retired _
  | check hstage | lock hstage hfree | recheck hstage | look seen hstage hseen
  | fail seen s failure hstage hseen hresult | unlock result hstage => exact Slot.Kept.refl k.slot

/-- Only a trigger that builds in any case builds without having found a change. -/
theorem Move.stale (hmove : t.Move disk k k' t') (hbuilding : t'.stage = .building []) :
    (t.stage = .waiting ∧ t.request ≠ .ifChanged) ∨
    (t.stage = .rechecking ∧ (k.isFresh disk).1 = false) := by
  cases hmove with
  | check hstage => by_cases hfresh : (k.isFresh disk).1 <;> simp [hfresh] at hbuilding
  | lock hstage hfree =>
      by_cases hrequest : t.request = .ifChanged
      · simp [hrequest] at hbuilding
      · exact Or.inl ⟨hstage, hrequest⟩
  | recheck hstage =>
      by_cases hfresh : (k.isFresh disk).1
      · simp [hfresh] at hbuilding
      · exact Or.inr ⟨hstage, Bool.not_eq_true _ ▸ hfresh⟩
  | look seen hstage hseen => simp at hbuilding
  | build | fail | publish | retire | unlock => simp at hbuilding

theorem Move.publish_eq {g : Nat} {generation : Generation} (hmove : t.Move disk k k' t')
    (hstage : t.stage = .publishing g) (hopen : k.slot.closed = false)
    (hbuilt : k.slot.generation? g = some generation) :
    k' = { k with slot := { k.slot with
      current := some g, signature := some generation.signature, number := k.slot.number + 1
      loaded := some k.clock } } ∧
    t' = t.moveTo (.retiring k.slot.current ⟨true, some g⟩) := by
  obtain ⟨h, hheld, rfl⟩ := Slot.generation?_eq_some_iff.mp hbuilt
  cases hmove with
  | publish other hother =>
      obtain rfl : other = g := Stage.publishing.inj (hother.symm.trans hstage)
      simp [Slot.publish, hopen, hheld]
  | check | lock | recheck | look | build | fail | retire | unlock => simp_all

/-! ## What a trigger carries -/

theorem carries_of_outside (hout : t.isInside = false) : t.Carries k P := by
  unfold isInside at hout
  unfold Carries
  cases hstage : t.stage <;> simp [hstage] at hout ⊢

theorem Carries.mono (hcarries : t.Carries k P) (hpath : k'.path = k.path)
    (hgenerations : ∀ g generation, k.slot.generation? g = some generation →
      k'.slot.generation? g = some generation) (himp : ∀ signature, P signature → Q signature) :
    t.Carries k' Q := by
  unfold Carries at hcarries ⊢
  cases hstage : t.stage with
  | building seen =>
      cases seen with
      | nil => trivial
      | cons first seen =>
          simp only [hstage] at hcarries
          obtain ⟨signature, hread, hP⟩ := hcarries
          exact ⟨signature, hpath ▸ hread, himp signature hP⟩
  | publishing g =>
      simp only [hstage] at hcarries
      obtain ⟨generation, hbuilt, hP⟩ := hcarries
      exact ⟨generation, hgenerations g generation hbuilt, himp _ hP⟩
  | checking | waiting | rechecking | retiring | leaving | finished => trivial

/-- The first look of a build reads the present signature; everything after it carries that on. -/
theorem Carries.move {options : Options} (hcarries : t.Carries k P) (hmove : t.Move disk k k' t')
    (hbuilder : k.builder = buildSeen k.path options)
    (hpresent : t.stage = .building [] →
      ∃ signature, readSignature k.path (disk k.path) = .ok signature ∧ P signature) :
    t'.Carries k' P := by
  cases hmove with
  | check hstage => by_cases hfresh : (k.isFresh disk).1 <;> simp [Carries, hfresh]
  | lock hstage hfree => by_cases hrequest : t.request = .ifChanged <;> simp [Carries, hrequest]
  | recheck hstage => by_cases hfresh : (k.isFresh disk).1 <;> simp [Carries, hfresh]
  | look seen hstage hseen =>
      cases seen with
      | nil => exact hpresent hstage
      | cons first seen =>
          simp only [Carries, hstage] at hcarries
          exact hcarries
  | build seen s generation hstage hseen hresult =>
      -- what is built records the signature that was read first
      rw [hbuilder] at hresult
      have hread := buildSeen_signature hresult
      obtain ⟨rest, rfl⟩ := List.head?_eq_some_iff.mp (sightings?_head? hseen)
      simp only [Carries, hstage] at hcarries
      obtain ⟨signature, hfirst, hP⟩ := hcarries
      obtain rfl : generation.signature = signature := Except.ok.inj (hread.symm.trans hfirst)
      refine ⟨generation, ?_, hP⟩
      rw [Slot.generation?_add, if_pos rfl]
  | fail | publish | retire | unlock => trivial

/-! ## What a trigger tells -/

theorem Tells.congr {more : List Nat} (htells : t.Tells published i)
    (hmem : i ∈ more ↔ i ∈ published) : t.Tells more i := by
  unfold Tells at htells ⊢
  simp only [hmem]
  exact htells

theorem Tells.move (htells : t.Tells published i) (hmove : t.Move disk k k' t')
    (hother : ∀ g, t.stage ≠ .publishing g) (hsucceeds : t.buildSucceeds k) :
    t'.Tells published i := by
  unfold Tells at htells
  cases hmove with
  | check hstage =>
      rw [hstage] at htells
      by_cases hfresh : (k.isFresh disk).1
      · simp [Tells, hfresh, htells.1, htells.2]
      · simp [Tells, hfresh, htells.1, htells.2]
  | lock hstage hfree =>
      rw [hstage] at htells
      by_cases hrequest : t.request = .ifChanged
      · simp [Tells, hrequest, htells.1, htells.2]
      · simp [Tells, hrequest, htells.2]
  | recheck hstage =>
      rw [hstage] at htells
      by_cases hfresh : (k.isFresh disk).1
      · simp [Tells, hfresh, htells.1, htells.2]
      · simp [Tells, hfresh, htells.2]
  | look seen hstage hseen =>
      rw [hstage] at htells
      exact htells
  | build seen s generation hstage hseen hresult =>
      rw [hstage] at htells
      exact htells
  | fail seen s failure hstage hseen hresult =>
      simp [buildSucceeds, hstage, hseen, hresult, Except.isOk, Except.toBool] at hsucceeds
  | publish g hstage => exact absurd hstage (hother g)
  | retire previous result hstage =>
      rw [hstage] at htells
      refine ⟨fun _ => htells.1, result.generation, ?_⟩
      rw [decide_eq_true htells.1, ← htells.2]
  | unlock result hstage =>
      rw [hstage] at htells
      exact htells

end Trigger

end DiskCatalog.Refresh

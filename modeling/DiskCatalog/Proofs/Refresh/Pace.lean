import DiskCatalog.Proofs.Refresh.Carriage

/-!
# Publishing keeps pace with the catalog

While the first generation is built and afterwards, the catalog changes and triggers look for
changes.  `Traffic.Paced` says that each generation that was published has a later signature of the
catalog than the one before it.  For this a trigger looks again when it has the lock: from then on
the recorded signature is not the present one, nobody else publishes, and what the build reads first
is the present signature of that time.
-/

namespace DiskCatalog.Refresh

open Store Index

def Action.isChange : Action → Bool
  | .change _ => true
  | _ => false

namespace Traffic

/-! ## Runs without failures -/

/-- The first trigger has read the signature of the catalog and goes on building. -/
def initializing (path : String) (options : Options) (disk : Disk) : Traffic where
  keeper := { path, builder := buildSeen path options, rebuilding := true }
  disk := disk
  triggers := [⟨.first, "", true, .building [disk path]⟩]
  signatures := Refresh.signatures path (disk path)

theorem run_initializing (path : String) (options : Options) (disk : Disk) :
    (start path (buildSeen path options) disk).run [.call .first "" true, .advance 0, .advance 0] =
      some (initializing path options disk) :=
  rfl

/-- The catalog can always be read and changes to one with a new signature, triggers only look for
changes, builds succeed, and nothing closes. -/
def Smoothly (s : Traffic) : Action → Prop
  | .change target => (readSignature s.keeper.path target).isOk ∧ s.Freshly (.change target)
  | .call request _ _ => request = .ifChanged
  | .advance i => ∀ t ∈ s.triggers[i]?, t.buildSucceeds s.keeper
  | .close | .advanceClose _ => False
  | .tick _ | .enter | .leave _ => True

instance (s : Traffic) (action : Action) : Decidable (s.Smoothly action) :=
  match action with
  | .change target => inferInstanceAs (Decidable
      ((readSignature s.keeper.path target).isOk ∧ s.Freshly (.change target)))
  | .call request _ _ => inferInstanceAs (Decidable (request = .ifChanged))
  | .advance i => inferInstanceAs (Decidable (∀ t ∈ s.triggers[i]?, t.buildSucceeds s.keeper))
  | .close | .advanceClose _ => .isFalse id
  | .tick _ | .enter | .leave _ => .isTrue trivial

variable {s next : Traffic}

/-- What a step leaves alone that only touches lifetimes or the clock. -/
structure Quiet (s next : Traffic) : Prop where
  keeper : next.keeper.path = s.keeper.path ∧ next.keeper.builder = s.keeper.builder
  disk : next.disk = s.disk
  signatures : next.signatures = s.signatures
  slot : s.slot.Kept next.slot
  triggers : next.triggers = s.triggers

theorem act_enter (hact : s.act .enter = some next) : s.Quiet next := by
  cases effect_of_act hact with
  | @enter slot g henter =>
      obtain ⟨l, -, -, -, rfl⟩ := Slot.enter_eq_ok henter
      exact ⟨⟨rfl, rfl⟩, rfl, rfl,
        s.slot.kept_setLifetime g fun _ => { l with readers := l.readers + 1 }, rfl⟩

theorem act_leave {g : Nat} (hact : s.act (.leave g) = some next) : s.Quiet next := by
  cases effect_of_act hact with
  | leave hread =>
      exact ⟨⟨rfl, rfl⟩, rfl, rfl, s.slot.kept_setLifetime g Lifetime.release, rfl⟩

def withChange (s : Traffic) (target : Target) (last : Signature) : Traffic where
  __ := s
  disk := Function.update s.disk s.keeper.path target
  signatures := s.signatures ++ [last]

/-- What a step does, one case for each thing that can happen without failures. -/
inductive SmoothStep (s : Traffic) : Action → Traffic → Prop where
  | change (target : Target) (last : Signature) :
      readSignature s.keeper.path target = .ok last → last ∉ s.signatures →
      SmoothStep s (.change target) (s.withChange target last)
  | call (reason : String) (raising : Bool) :
      SmoothStep s (.call .ifChanged reason raising)
        { s with triggers := s.triggers ++ [.begin .ifChanged reason raising] }
  | publish (i g : Nat) (t t' : Trigger) (k : Keeper) : s.triggers[i]? = some t →
      t.stage = .publishing g → t.Move s.disk s.keeper k t' →
      SmoothStep s (.advance i) (s.withTrigger i t k t')
  | move (i : Nat) (t t' : Trigger) (k : Keeper) : s.triggers[i]? = some t →
      t.Move s.disk s.keeper k t' → (∀ g, t.stage ≠ .publishing g) →
      t.buildSucceeds s.keeper → SmoothStep s (.advance i) (s.withTrigger i t k t')
  | tick (now : Calendar.DateTime) (next : Traffic) : s.Quiet next → SmoothStep s (.tick now) next
  | enter (next : Traffic) : s.Quiet next → SmoothStep s .enter next
  | leave (g : Nat) (next : Traffic) : s.Quiet next → SmoothStep s (.leave g) next

theorem smoothStep_of_act {action : Action} (hsmooth : s.Smoothly action)
    (hact : s.act action = some next) : s.SmoothStep action next := by
  cases effect_of_act hact with
  | change target =>
      obtain ⟨hreadable, hfresh⟩ := hsmooth
      cases hread : readSignature s.keeper.path target with
      | error failure => simp [hread, Except.isOk, Except.toBool] at hreadable
      | ok last =>
          have hnew : last ∉ s.signatures := hfresh last (mem_signatures.mpr hread)
          have hsignatures : Refresh.signatures s.keeper.path target = [last] := by
            simp [Refresh.signatures, hread, Except.toOption]
          rw [hsignatures]
          exact .change target last hread hnew
  | call request reason raising =>
      obtain rfl : request = .ifChanged := hsmooth
      exact .call reason raising
  | @advance i t t' k ht hmove =>
      by_cases hpublishing : ∃ g, t.stage = .publishing g
      · obtain ⟨g, hstage⟩ := hpublishing
        exact .publish i g t t' k ht hstage hmove
      · exact .move i t t' k ht hmove (not_exists.mp hpublishing) (hsmooth t ht)
  | close | empty | retire => exact absurd hsmooth id
  | tick now => exact .tick now _ ⟨⟨rfl, rfl⟩, rfl, rfl, .refl s.slot, rfl⟩
  | enter => exact .enter _ (act_enter hact)
  | leave => exact .leave _ _ (act_leave hact)

/-- The trigger that publishes by a step, if one does. -/
def publishedBy (s next : Traffic) : Action → List Nat
  | .advance i => if s.slot.number < next.slot.number then [i] else []
  | _ => []

/-! ## Signatures in the order of their time -/

/-- The place of a signature among those that the catalog has had; nothing comes before all. -/
def rank (s : Traffic) (signature : Option Signature) : Nat :=
  signature.elim 0 fun known => s.signatures.idxOf known + 1

theorem rank_le {signature : Option Signature}
    (hknown : ∀ known ∈ signature, known ∈ s.signatures) :
    s.rank signature ≤ s.signatures.length := by
  cases signature with
  | none => exact Nat.zero_le _
  | some known => exact List.idxOf_lt_length_of_mem (hknown known rfl)

theorem rank_last (hnodup : s.signatures.Nodup) {last : Signature}
    (hlast : s.signatures.getLast? = some last) : s.rank (some last) = s.signatures.length := by
  obtain ⟨front, hfront⟩ := List.getLast?_eq_some_iff.mp hlast
  rw [hfront] at hnodup
  have hnew : last ∉ front := by
    intro hmem
    exact List.disjoint_of_nodup_append hnodup hmem List.mem_cons_self
  simp [rank, hfront, List.idxOf_append_of_notMem hnew]

/-- Only the present signature has the last place. -/
theorem rank_lt_last (hnodup : s.signatures.Nodup) {last : Signature}
    (hlast : s.signatures.getLast? = some last) {signature : Option Signature}
    (hknown : ∀ known ∈ signature, known ∈ s.signatures) (hother : signature ≠ some last) :
    s.rank signature < s.rank (some last) := by
  rw [rank_last hnodup hlast]
  obtain ⟨front, hfront⟩ := List.getLast?_eq_some_iff.mp hlast
  cases signature with
  | none => simp [rank, hfront]
  | some known =>
      have hmem : known ∈ front := by
        have hin := hknown known rfl
        rw [hfront] at hin
        cases List.mem_append.mp hin with
        | inl hbefore => exact hbefore
        | inr hsame => exact absurd (congrArg some (List.mem_singleton.mp hsame)) hother
      have hplace := List.idxOf_lt_length_of_mem hmem
      simp only [rank, Option.elim_some, hfront, List.idxOf_append_of_mem hmem, List.length_append,
        List.length_singleton]
      omega

/-! ## What holds all the way -/

/-- A signature is later than the recorded one; the first trigger has seen the first. -/
structure Advances (s : Traffic) (origin : Signature) (i : Nat) (signature : Signature) : Prop where
  known : signature ∈ s.signatures
  later : s.rank s.slot.signature < s.rank (some signature)
  first : i = 0 → signature = origin

/-- A trigger that builds or publishes is about to make the recorded signature a later one. -/
structure Aims (s : Traffic) (origin : Signature) (i : Nat) (t : Trigger) : Prop where
  stale : t.stage = .building [] → i ≠ 0 ∧ s.slot.signature ≠ s.signatures.getLast?
  carries : t.Carries s.keeper (s.Advances origin i)

theorem aims_of_outside {s : Traffic} {origin : Signature} {i : Nat} {t : Trigger}
    (hout : t.isInside = false) : s.Aims origin i t := by
  refine ⟨fun hstage => ?_, Trigger.carries_of_outside hout⟩
  simp [Trigger.isInside, hstage] at hout

/-- What holds after some changes, when some triggers have published and some signatures were
missed. -/
structure Paced (path : String) (options : Options) (origin : Signature)
    (changes missed : Nat) (published : List Nat) (s : Traffic) : Prop where
  keeper : s.keeper.path = path ∧ s.keeper.builder = buildSeen path options
  present : ∃ last, readSignature path s.target = .ok last ∧ s.signatures.getLast? = some last
  distinct : s.signatures.Nodup
  changes : ∃ later, s.signatures = origin :: later ∧ later.length = changes
  unclosed : s.slot.closed = false
  number : s.slot.number = published.length
  recorded : ∀ known ∈ s.slot.signature, known ∈ s.signatures
  loaded : s.slot.current.isSome ↔ 0 ∈ published
  signed : s.slot.signature.isSome ↔ 0 ∈ published
  first : 0 ∉ published → published = []
  original : (∀ i ∈ published, i = 0) → ∀ known ∈ s.slot.signature, known = origin
  count : published.length + missed ≤ s.rank s.slot.signature
  once : published.Nodup
  range : ∀ i ∈ published, i < s.triggers.length
  begun : 0 < s.triggers.length
  requests : ∀ (i : Nat) (t : Trigger), s.triggers[i]? = some t → i ≠ 0 → t.request = .ifChanged
  tells : ∀ (i : Nat) (t : Trigger), s.triggers[i]? = some t → t.Tells published i
  aims : ∀ (i : Nat) (t : Trigger), s.triggers[i]? = some t → s.Aims origin i t

variable {path : String} {options : Options} {origin : Signature}
  {changes missed : Nat} {published : List Nat} {holder : Option Nat}

theorem getElem?_initializing {disk : Disk} {i : Nat} {t : Trigger}
    (ht : (initializing path options disk).triggers[i]? = some t) :
    i = 0 ∧ t = ⟨.first, "", true, .building [disk path]⟩ := by
  obtain ⟨hlt, hsame⟩ := List.getElem?_eq_some_iff.mp ht
  have hzero : i = 0 := Nat.lt_one_iff.mp hlt
  subst hzero
  exact ⟨rfl, hsame.symm⟩

theorem initializing_paced (path : String) (options : Options) (disk : Disk)
    (horigin : readSignature path (disk path) = .ok origin) :
    (initializing path options disk).Paced path options origin 0 0 [] := by
  have hsignatures : (initializing path options disk).signatures = [origin] := by
    simp [initializing, Refresh.signatures, horigin, Except.toOption]
  constructor
  case keeper => exact ⟨rfl, rfl⟩
  case present => exact ⟨origin, horigin, by rw [hsignatures]; rfl⟩
  case distinct => simp [hsignatures]
  case changes => exact ⟨[], hsignatures, rfl⟩
  case requests =>
    intro i t ht hother
    exact absurd (getElem?_initializing ht).1 hother
  case tells =>
    intro i t ht
    rw [(getElem?_initializing ht).2]
    exact List.not_mem_nil
  case aims =>
    intro i t ht
    rw [(getElem?_initializing ht).2]
    refine ⟨by simp, origin, horigin, ?_, ?_, fun _ => rfl⟩
    · simp [hsignatures]
    · simp [rank, initializing, slot]
  all_goals simp [initializing, slot]

theorem initializing_orderly (path : String) (options : Options) (disk : Disk) :
    (initializing path options disk).Orderly (some 0) := by
  constructor
  · rfl
  · intro i t ht
    obtain ⟨rfl, rfl⟩ := getElem?_initializing ht
    exact iff_of_true rfl rfl
  · simp [initializing]
  · simp [initializing, Trigger.LooksEnough]

/-- A trigger finds nothing to do exactly when the recorded signature is the present one. -/
theorem Paced.isFresh_iff (hs : s.Paced path options origin changes missed published) :
    (s.keeper.isFresh s.disk).1 = true ↔ s.slot.signature = s.signatures.getLast? := by
  obtain ⟨last, hread, hlast⟩ := hs.present
  have hlook : readSignature s.keeper.path (s.disk s.keeper.path) = .ok last := by
    rw [hs.keeper.1]
    rw [Traffic.target, hs.keeper.1] at hread
    exact hread
  rw [hlast, Keeper.isFresh]
  by_cases hnone : s.keeper.slot.current.isNone
  · -- without a generation no signature is recorded
    have hunsigned : s.slot.signature.isSome = false := by
      rw [← Bool.not_eq_true, hs.signed, ← hs.loaded, Bool.not_eq_true]
      simpa [slot] using hnone
    rw [if_pos hnone]
    exact iff_of_false (by simp) fun hsome => by simp [hsome] at hunsigned
  · rw [if_neg hnone]
    simp only [Keeper.hasChanged, hlook, Bool.not_eq_true', bne_eq_false_iff_eq]
    exact eq_comm

/-- As long as the present signature is not recorded, it is a later one. -/
theorem Paced.advances_present (hs : s.Paced path options origin changes missed published) {i : Nat}
    (hother : i ≠ 0) (hstale : s.slot.signature ≠ s.signatures.getLast?) :
    ∃ signature, readSignature s.keeper.path s.target = .ok signature ∧
      s.Advances origin i signature := by
  obtain ⟨last, hread, hlast⟩ := hs.present
  rw [← hs.keeper.1] at hread
  rw [hlast] at hstale
  refine ⟨last, hread, List.mem_of_getLast? hlast, ?_, fun hfirst => absurd hfirst hother⟩
  exact rank_lt_last hs.distinct hlast hs.recorded hstale

/-! ## Changes of the catalog -/

theorem rank_extend {signature : Option Signature} {more : List Signature}
    (hsignatures : next.signatures = s.signatures ++ more)
    (hknown : ∀ known ∈ signature, known ∈ s.signatures) :
    next.rank signature = s.rank signature := by
  cases signature with
  | none => rfl
  | some known =>
      simp only [rank, Option.elim_some, hsignatures, List.idxOf_append_of_mem (hknown known rfl)]

theorem Advances.extend {i : Nat} {signature : Signature} {more : List Signature}
    (hadvances : s.Advances origin i signature)
    (hsignatures : next.signatures = s.signatures ++ more)
    (hslot : next.slot.signature = s.slot.signature)
    (hrecorded : ∀ known ∈ s.slot.signature, known ∈ s.signatures) :
    next.Advances origin i signature := by
  have hknown : ∀ known ∈ some signature, known ∈ s.signatures := by
    intro known hsame
    obtain rfl := Option.some.inj hsame
    exact hadvances.known
  constructor
  · rw [hsignatures]
    exact List.mem_append_left more hadvances.known
  · rw [hslot, rank_extend hsignatures hrecorded, rank_extend hsignatures hknown]
    exact hadvances.later
  · exact hadvances.first

/-- What a trigger is about to publish stays later than what is recorded. -/
theorem Aims.extend {i : Nat} {t : Trigger} {more : List Signature} (haims : s.Aims origin i t)
    (hpath : next.keeper.path = s.keeper.path)
    (hsignatures : next.signatures = s.signatures ++ more) (hslot : s.slot.Kept next.slot)
    (hrecorded : ∀ known ∈ s.slot.signature, known ∈ s.signatures)
    (hlast : s.slot.signature ≠ s.signatures.getLast? →
      s.slot.signature ≠ next.signatures.getLast?) : next.Aims origin i t := by
  constructor
  · intro hstage
    obtain ⟨hother, hstale⟩ := haims.stale hstage
    rw [hslot.signature]
    exact ⟨hother, hlast hstale⟩
  · apply haims.carries.mono hpath hslot.generations
    intro signature hadvances
    exact hadvances.extend hsignatures hslot.signature hrecorded

theorem Paced.change (hs : s.Paced path options origin changes missed published) {target : Target}
    {last : Signature} (hread : readSignature s.keeper.path target = .ok last)
    (hnew : last ∉ s.signatures) :
    (s.withChange target last).Paced path options origin (changes + 1) missed published := by
  have htarget : (s.withChange target last).target = target := by
    simp [Traffic.target, withChange]
  have hsignatures : (s.withChange target last).signatures = s.signatures ++ [last] := rfl
  constructor
  case keeper => exact hs.keeper
  case present =>
    rw [htarget, ← hs.keeper.1, hsignatures]
    exact ⟨last, hread, List.getLast?_concat⟩
  case distinct =>
    rw [hsignatures, ← List.concat_eq_append]
    exact hs.distinct.concat hnew
  case changes =>
    obtain ⟨later, hlater, hlength⟩ := hs.changes
    refine ⟨later ++ [last], ?_, ?_⟩
    · rw [hsignatures, hlater, List.cons_append]
    · rw [List.length_append, hlength, List.length_singleton]
  case recorded =>
    exact fun known hknown => List.mem_append_left [last] (hs.recorded known hknown)
  case count =>
    exact hs.count.trans (rank_extend hsignatures hs.recorded).ge
  case aims =>
    intro i t ht
    refine (hs.aims i t ht).extend rfl hsignatures (.refl s.slot) hs.recorded fun _ hsame => ?_
    -- the new signature was never recorded
    rw [hsignatures, List.getLast?_concat] at hsame
    exact hnew (hs.recorded last hsame)
  case unclosed => exact hs.unclosed
  case number => exact hs.number
  case loaded => exact hs.loaded
  case signed => exact hs.signed
  case first => exact hs.first
  case original => exact hs.original
  case once => exact hs.once
  case range => exact hs.range
  case begun => exact hs.begun
  case requests => exact hs.requests
  case tells => exact hs.tells

/-! ## Steps that publish nothing -/

/-- What a step that publishes nothing and leaves the catalog alone has to show. -/
theorem Paced.kept (hs : s.Paced path options origin changes missed published)
    (hkeeper : next.keeper.path = s.keeper.path ∧ next.keeper.builder = s.keeper.builder)
    (hdisk : next.disk = s.disk) (hsignatures : next.signatures = s.signatures)
    (hslot : s.slot.Kept next.slot) (hlength : s.triggers.length ≤ next.triggers.length)
    (htriggers : ∀ (i : Nat) (t : Trigger), next.triggers[i]? = some t → s.triggers[i]? = some t ∨
      ((i ≠ 0 → t.request = .ifChanged) ∧ t.Tells published i ∧ next.Aims origin i t)) :
    next.Paced path options origin changes missed published := by
  have htarget : next.target = s.target := by
    simp [Traffic.target, hdisk, hkeeper.1]
  have hrank : next.rank = s.rank := by
    simp only [funext_iff, rank, hsignatures, implies_true]
  constructor
  case keeper => exact ⟨hkeeper.1.trans hs.keeper.1, hkeeper.2.trans hs.keeper.2⟩
  case present =>
    rw [htarget, hsignatures]
    exact hs.present
  case distinct => rw [hsignatures]; exact hs.distinct
  case changes => rw [hsignatures]; exact hs.changes
  case unclosed => rw [hslot.closed]; exact hs.unclosed
  case number => rw [hslot.number]; exact hs.number
  case recorded => rw [hslot.signature, hsignatures]; exact hs.recorded
  case loaded => rw [hslot.current]; exact hs.loaded
  case signed => rw [hslot.signature]; exact hs.signed
  case first => exact hs.first
  case original => rw [hslot.signature]; exact hs.original
  case count => rw [hrank, hslot.signature]; exact hs.count
  case once => exact hs.once
  case range => exact fun i hi => (hs.range i hi).trans_le hlength
  case begun => exact hs.begun.trans_le hlength
  case requests =>
    intro i t ht
    cases htriggers i t ht with
    | inl hold => exact hs.requests i t hold
    | inr hnew => exact hnew.1
  case tells =>
    intro i t ht
    cases htriggers i t ht with
    | inl hold => exact hs.tells i t hold
    | inr hnew => exact hnew.2.1
  case aims =>
    intro i t ht
    cases htriggers i t ht with
    | inl hold =>
        have hnone : next.signatures = s.signatures ++ [] := by
          rw [hsignatures, List.append_nil]
        apply (hs.aims i t hold).extend hkeeper.1 hnone hslot hs.recorded
        rw [hsignatures]
        exact id
    | inr hnew => exact hnew.2.2

/-- A trigger starts to build only when the recorded signature is not the present one, which it
then reads. -/
theorem Paced.aims_move (hs : s.Paced path options origin changes missed published) {i : Nat}
    {t t' : Trigger} {k : Keeper} (ht : s.triggers[i]? = some t)
    (hmove : t.Move s.disk s.keeper k t') (hother : ∀ g, t.stage ≠ .publishing g) :
    (s.withTrigger i t k t').Aims origin i t' := by
  have hkept : s.slot.Kept k.slot := hmove.kept hother
  have haims := hs.aims i t ht
  have htells := hs.tells i t ht
  constructor
  case stale =>
    intro hbuilding
    change i ≠ 0 ∧ k.slot.signature ≠ s.signatures.getLast?
    rw [hkept.signature]
    cases hmove.stale hbuilding with
    | inl hlocked =>
        simp only [Trigger.Tells, hlocked.1] at htells
        exact absurd (hs.requests i t ht htells.1) hlocked.2
    | inr hchanged =>
        simp only [Trigger.Tells, hchanged.1] at htells
        refine ⟨htells.1, fun hrecorded => ?_⟩
        rw [hs.isFresh_iff.mpr hrecorded] at hchanged
        exact Bool.noConfusion hchanged.2
  case carries =>
    have hcarries : t'.Carries k (s.Advances origin i) := by
      apply haims.carries.move hmove
      · rw [hs.keeper.1, hs.keeper.2]
      · intro hstage
        obtain ⟨hfirst, hstale⟩ := haims.stale hstage
        exact hs.advances_present hfirst hstale
    apply hcarries.mono rfl fun _ _ => id
    intro signature hadvances
    exact hadvances.extend (List.append_nil s.signatures).symm hkept.signature hs.recorded

/-- A step of a trigger that does not publish. -/
theorem Paced.move (hs : s.Paced path options origin changes missed published) {i : Nat}
    {t t' : Trigger} {k : Keeper} (ht : s.triggers[i]? = some t)
    (hmove : t.Move s.disk s.keeper k t') (hother : ∀ g, t.stage ≠ .publishing g)
    (hsucceeds : t.buildSucceeds s.keeper) :
    (s.withTrigger i t k t').Paced path options origin changes missed published := by
  have hlength : s.triggers.length ≤ (s.withTrigger i t k t').triggers.length :=
    (List.length_set ..).ge
  refine hs.kept hmove.keeper_eq rfl rfl (hmove.kept hother) hlength fun j u hu => ?_
  cases getElem?_withTrigger hu with
  | inr hold => exact Or.inl hold.2
  | inl hsame =>
      rw [hsame.1, hsame.2]
      have htells := (hs.tells i t ht).move hmove hother hsucceeds
      refine Or.inr ⟨?_, htells, hs.aims_move ht hmove hother⟩
      rw [hmove.request_eq]
      exact hs.requests i t ht

/-! ## Publishing -/

/-- Nothing is published before the first trigger publishes. -/
theorem Paced.zero_mem (hs : s.Paced path options origin changes missed published)
    (horderly : s.Orderly holder) {i g : Nat} {t : Trigger} (ht : s.triggers[i]? = some t)
    (hstage : t.stage = .publishing g) : 0 ∈ published ++ [i] := by
  obtain ⟨first, hfirst⟩ : ∃ first, s.triggers[0]? = some first :=
    ⟨_, List.getElem?_eq_getElem hs.begun⟩
  by_cases hmem : 0 ∈ published
  · exact List.mem_append_left [i] hmem
  · -- the first trigger is inside, and so is the one that publishes
    have hinside : first.isInside = true := by
      have htells := hs.tells 0 first hfirst
      unfold Trigger.Tells at htells
      unfold Trigger.isInside
      cases hplace : first.stage <;> simp_all
    have hholder := (horderly.inside 0 first hfirst).mp hinside
    have hpublisher := (horderly.inside i t ht).mp (by simp [Trigger.isInside, hstage])
    obtain rfl : 0 = i := Option.some.inj (hholder.symm.trans hpublisher)
    exact List.mem_append_right published List.mem_cons_self

/-- A trigger that publishes makes the recorded signature a later one. -/
theorem Paced.publish (hs : s.Paced path options origin changes missed published)
    (horderly : s.Orderly holder) {i g : Nat} {t t' : Trigger} {k : Keeper}
    (ht : s.triggers[i]? = some t) (hstage : t.stage = .publishing g)
    (hmove : t.Move s.disk s.keeper k t') :
    (s.withTrigger i t k t').Paced path options origin changes missed (published ++ [i]) ∧
      s.slot.number < (s.withTrigger i t k t').slot.number := by
  have hcarries := (hs.aims i t ht).carries
  simp only [Trigger.Carries, hstage] at hcarries
  obtain ⟨generation, hbuilt, hadvances⟩ := hcarries
  obtain ⟨rfl, rfl⟩ := hmove.publish_eq hstage hs.unclosed hbuilt
  have hnew : i ∉ published := by
    have htells := hs.tells i t ht
    simp only [Trigger.Tells, hstage] at htells
    exact htells
  have hzero := hs.zero_mem horderly ht hstage
  have hlater := hadvances.later
  refine ⟨?_, Nat.lt_succ_self s.slot.number⟩
  have hlength : ∀ k t', (s.withTrigger i t k t').triggers.length = s.triggers.length :=
    fun _ _ => List.length_set ..
  constructor
  case keeper => exact hs.keeper
  case present => exact hs.present
  case distinct => exact hs.distinct
  case changes => exact hs.changes
  case unclosed => exact hs.unclosed
  case number =>
    rw [List.length_append, List.length_singleton, ← hs.number]
    rfl
  case recorded =>
    intro known hknown
    obtain rfl := Option.some.inj hknown
    exact hadvances.known
  case loaded => exact iff_of_true rfl hzero
  case signed => exact iff_of_true rfl hzero
  case first => exact absurd hzero
  case original =>
    intro hall known hknown
    obtain rfl := Option.some.inj hknown
    exact hadvances.first (hall i (List.mem_append_right published List.mem_cons_self))
  case count =>
    rw [List.length_append, List.length_singleton, Nat.add_right_comm]
    exact (Nat.succ_le_succ hs.count).trans hlater
  case once =>
    rw [← List.concat_eq_append]
    exact hs.once.concat hnew
  case range =>
    intro j hj
    rw [hlength]
    cases List.mem_append.mp hj with
    | inl hold => exact hs.range j hold
    | inr hsame =>
        rw [List.mem_singleton.mp hsame]
        exact (List.getElem?_eq_some_iff.mp ht).1
  case begun =>
    rw [hlength]
    exact hs.begun
  case requests =>
    intro j u hu
    cases getElem?_withTrigger hu with
    | inl hsame =>
        rw [hsame.1, hsame.2]
        exact hs.requests i t ht
    | inr hold => exact hs.requests j u hold.2
  case tells =>
    intro j u hu
    cases getElem?_withTrigger hu with
    | inl hsame =>
        rw [hsame.1, hsame.2]
        exact ⟨List.mem_append_right published List.mem_cons_self, rfl⟩
    | inr hold =>
        apply (hs.tells j u hold.2).congr
        simp [hold.1]
  case aims =>
    intro j u hu
    cases getElem?_withTrigger hu with
    | inl hsame =>
        rw [hsame.2]
        exact ⟨by simp, trivial⟩
    | inr hold =>
        -- only the one that publishes is inside
        exact aims_of_outside (horderly.outside ht (by simp [Trigger.isInside, hstage]) hold)

/-! ## Every step -/

theorem Paced.call (hs : s.Paced path options origin changes missed published) (reason : String)
    (raising : Bool) :
    Paced path options origin changes missed published
      { s with triggers := s.triggers ++ [.begin .ifChanged reason raising] } := by
  refine hs.kept ⟨rfl, rfl⟩ rfl rfl (.refl s.slot) ?_ fun i t ht => ?_
  · simp
  · cases getElem?_call ht with
    | inl hold => exact Or.inl hold
    | inr hlast =>
        have hnew : i ∉ published := fun hmem => (hs.range i hmem).ne hlast.1
        have hfirst : i ≠ 0 := by
          rw [hlast.1]
          exact hs.begun.ne'
        rw [hlast.2]
        exact Or.inr ⟨fun _ => rfl, ⟨hfirst, hnew⟩, aims_of_outside rfl⟩

theorem Paced.quiet (hs : s.Paced path options origin changes missed published)
    (hquiet : s.Quiet next) : next.Paced path options origin changes missed published := by
  apply hs.kept hquiet.keeper hquiet.disk hquiet.signatures hquiet.slot
  · rw [hquiet.triggers]
  · intro i t ht
    rw [hquiet.triggers] at ht
    exact Or.inl ht

theorem Paced.act (hs : s.Paced path options origin changes missed published)
    (horderly : s.Orderly holder) {action : Action} (hstep : s.SmoothStep action next) :
    next.Paced path options origin (changes + if action.isChange then 1 else 0) missed
      (published ++ s.publishedBy next action) := by
  cases hstep with
  | publish i g t t' k ht hstage hmove =>
      obtain ⟨hpaced, hnumber⟩ := hs.publish horderly ht hstage hmove
      rw [publishedBy, if_pos hnumber]
      exact hpaced
  | move i t t' k ht hmove hother hsucceeds =>
      have hnone : ¬ s.slot.number < (s.withTrigger i t k t').slot.number :=
        (hmove.kept hother).number.le.not_gt
      rw [publishedBy, if_neg hnone, List.append_nil]
      exact hs.move ht hmove hother hsucceeds
  | change target last hread hnew =>
      simp only [publishedBy, List.append_nil]
      exact hs.change hread hnew
  | call reason raising =>
      simp only [publishedBy, List.append_nil]
      exact hs.call reason raising
  | tick now next hquiet | enter next hquiet | leave g next hquiet =>
      simp only [publishedBy, List.append_nil]
      exact hs.quiet hquiet

end Traffic

end DiskCatalog.Refresh

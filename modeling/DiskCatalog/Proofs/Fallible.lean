import Mathlib.Tactic

/-!
# Fallible steps

A step either succeeds or fails.  These lemmas say when a chain of steps succeeds and where the
failure of a chain comes from.
-/

namespace DiskCatalog

variable {ε ε' α β σ : Type}

def Succeeds (x : Except ε α) : Prop :=
  ∃ a, x = .ok a

/-- Every failure of a step is of some sort. -/
def FailsOnlyBy (p : ε → Prop) (x : Except ε α) : Prop :=
  ∀ e, x = .error e → p e

@[simp] theorem succeeds_ok (a : α) : Succeeds (.ok a : Except ε α) :=
  ⟨a, rfl⟩

@[simp] theorem not_succeeds_error (e : ε) : ¬ Succeeds (.error e : Except ε α) := by
  rintro ⟨a, ha⟩
  contradiction

@[simp] theorem failsOnlyBy_ok (p : ε → Prop) (a : α) : FailsOnlyBy p (.ok a : Except ε α) := by
  intro e he
  contradiction

@[simp] theorem failsOnlyBy_error {p : ε → Prop} {e : ε} :
    FailsOnlyBy p (.error e : Except ε α) ↔ p e := by
  simp [FailsOnlyBy]

theorem FailsOnlyBy.imp {p q : ε → Prop} {x : Except ε α} (hx : FailsOnlyBy p x)
    (hpq : ∀ e, p e → q e) : FailsOnlyBy q x :=
  fun e he => hpq e (hx e he)

/-! ## Chains of two steps -/

theorem bind_eq_ok_iff {x : Except ε α} {f : α → Except ε β} {b : β} :
    (x >>= f) = .ok b ↔ ∃ a, x = .ok a ∧ f a = .ok b := by
  cases x <;> simp [bind, Except.bind]

theorem bind_eq_error_iff {x : Except ε α} {f : α → Except ε β} {e : ε} :
    (x >>= f) = .error e ↔ x = .error e ∨ ∃ a, x = .ok a ∧ f a = .error e := by
  cases x <;> simp [bind, Except.bind]

@[simp] theorem ok_bind (a : α) (f : α → Except ε β) : ((.ok a : Except ε α) >>= f) = f a := rfl

theorem succeeds_bind_iff {x : Except ε α} {f : α → Except ε β} :
    Succeeds (x >>= f) ↔ ∃ a, x = .ok a ∧ Succeeds (f a) := by
  cases x <;> simp [bind, Except.bind]

theorem FailsOnlyBy.bind {p : ε → Prop} {x : Except ε α} {f : α → Except ε β}
    (hx : FailsOnlyBy p x) (hf : ∀ a, x = .ok a → FailsOnlyBy p (f a)) :
    FailsOnlyBy p (x >>= f) := by
  intro e he
  rcases bind_eq_error_iff.mp he with he | ⟨a, ha, he⟩
  · exact hx e he
  · exact hf a ha e he

theorem failsOnlyBy_bind {p : ε → Prop} {x : Except ε α} {f : α → Except ε β} :
    FailsOnlyBy p (x >>= f) ↔ FailsOnlyBy p x ∧ ∀ a, x = .ok a → FailsOnlyBy p (f a) := by
  cases x <;> simp [bind, Except.bind]

theorem mapError_eq_ok_iff {x : Except ε α} {f : ε → ε'} {a : α} :
    x.mapError f = .ok a ↔ x = .ok a := by
  cases x <;> simp [Except.mapError]

theorem map_eq_ok_iff {x : Except ε α} {f : α → β} {b : β} :
    x.map f = .ok b ↔ ∃ a, x = .ok a ∧ f a = b := by
  cases x <;> simp [Except.map]

@[simp] theorem succeeds_mapError {x : Except ε α} {f : ε → ε'} :
    Succeeds (x.mapError f) ↔ Succeeds x := by
  simp only [Succeeds, mapError_eq_ok_iff]

theorem failsOnlyBy_mapError_iff {p : ε' → Prop} {f : ε → ε'} {x : Except ε α} :
    FailsOnlyBy p (x.mapError f) ↔ FailsOnlyBy (fun e => p (f e)) x := by
  cases x <;> simp [Except.mapError]

@[simp] theorem succeeds_map {x : Except ε α} {f : α → β} : Succeeds (x.map f) ↔ Succeeds x := by
  cases x <;> simp [Except.map]

/-! ## Chains over a list -/

/-- What each step of a chain keeps, the chain keeps. -/
theorem foldlM_keeps {step : σ → α → Except ε σ} {p : σ → Prop} {items : List α} {s last : σ}
    (hlast : items.foldlM step s = .ok last)
    (hstep : ∀ a ∈ items, ∀ s next, step s a = .ok next → p s → p next) (hs : p s) : p last := by
  induction items generalizing s with
  | nil =>
      obtain rfl := Except.ok.inj hlast
      exact hs
  | cons a items ih =>
      rw [List.foldlM_cons] at hlast
      obtain ⟨next, hnext, hrest⟩ := bind_eq_ok_iff.mp hlast
      have hkept := hstep a List.mem_cons_self s next hnext hs
      exact ih hrest (fun b hb => hstep b (List.mem_cons_of_mem a hb)) hkept

/-- What holds after a chain held before it, or one of the items brought it about. -/
theorem exists_of_foldlM {step : σ → α → Except ε σ} {p : σ → Prop} {brings : α → Prop}
    {items : List α} {s last : σ} (hlast : items.foldlM step s = .ok last)
    (hstep : ∀ s a next, step s a = .ok next → p next → p s ∨ brings a) (hp : p last) :
    p s ∨ ∃ a ∈ items, brings a := by
  by_contra hneither
  obtain ⟨hs, hnone⟩ := not_or.mp hneither
  refine foldlM_keeps (p := fun s => ¬ p s) hlast (fun a ha s next hnext hbefore hafter => ?_) hs hp
  rcases hstep s a next hnext hafter with hheld | hbrings
  · exact hbefore hheld
  · exact hnone ⟨a, ha, hbrings⟩

theorem foldlM_iff {step : σ → α → Except ε σ} {p : σ → Prop} {brings : α → Prop}
    {items : List α} {s last : σ} (hlast : items.foldlM step s = .ok last)
    (hstep : ∀ s a next, step s a = .ok next → (p next ↔ p s ∨ brings a)) :
    p last ↔ p s ∨ ∃ a ∈ items, brings a := by
  induction items generalizing s with
  | nil =>
      obtain rfl := Except.ok.inj hlast
      simp
  | cons a items ih =>
      rw [List.foldlM_cons] at hlast
      obtain ⟨next, hnext, hrest⟩ := bind_eq_ok_iff.mp hlast
      rw [ih hrest, hstep s a next hnext, List.exists_mem_cons_iff, or_assoc]

theorem succeeds_mapM_iff {f : α → Except ε β} (items : List α) :
    Succeeds (items.mapM f) ↔ ∀ a ∈ items, Succeeds (f a) := by
  induction items with
  | nil => exact iff_of_true (succeeds_ok []) (by simp)
  | cons a items ih =>
      rw [List.mapM_cons, succeeds_bind_iff, List.forall_mem_cons, ← ih]
      constructor
      · rintro ⟨b, hb, hrest⟩
        obtain ⟨bs, hbs, -⟩ := succeeds_bind_iff.mp hrest
        exact ⟨⟨b, hb⟩, bs, hbs⟩
      · rintro ⟨⟨b, hb⟩, bs, hbs⟩
        exact ⟨b, hb, succeeds_bind_iff.mpr ⟨bs, hbs, succeeds_ok _⟩⟩

theorem isSome_mapM_iff {f : α → Option β} (items : List α) :
    (items.mapM f).isSome ↔ ∀ a ∈ items, (f a).isSome := by
  induction items with
  | nil => exact iff_of_true rfl (by simp)
  | cons a items ih =>
      rw [List.mapM_cons, List.forall_mem_cons, ← ih]
      cases f a <;> cases items.mapM f <;> simp

theorem failsOnlyBy_mapM {f : α → Except ε β} {p : ε → Prop} (hf : ∀ a, FailsOnlyBy p (f a))
    (items : List α) : FailsOnlyBy p (items.mapM f) := by
  induction items with
  | nil => exact failsOnlyBy_ok p []
  | cons a items ih =>
      rw [List.mapM_cons]
      exact (hf a).bind fun b _ => ih.bind fun bs _ => failsOnlyBy_ok p _

/-- A chain over a list yields the results of its items one by one. -/
theorem mapM_eq_ok_iff {f : α → Except ε β} {items : List α} {results : List β} :
    items.mapM f = .ok results ↔ List.Forall₂ (fun a b => f a = .ok b) items results := by
  induction items generalizing results with
  | nil => simp [pure, Except.pure, eq_comm]
  | cons a items ih =>
      simp only [List.mapM_cons, bind_eq_ok_iff, ih, List.forall₂_cons_left_iff]
      constructor
      · rintro ⟨b, hb, rest, hrest, hresults⟩
        exact ⟨b, rest, hb, hrest, (Except.ok.inj hresults).symm⟩
      · rintro ⟨b, rest, hb, hrest, rfl⟩
        exact ⟨b, hb, rest, hrest, rfl⟩

theorem exists_of_mem_mapM {f : α → Except ε β} {items : List α} {results : List β}
    (hresults : items.mapM f = .ok results) {b : β} (hb : b ∈ results) :
    ∃ a ∈ items, f a = .ok b := by
  have hall := mapM_eq_ok_iff.mp hresults
  obtain ⟨i, hi, rfl⟩ := List.mem_iff_getElem.mp hb
  have hi' : i < items.length := hall.length_eq ▸ hi
  exact ⟨items[i], List.getElem_mem hi', hall.get hi' hi⟩

theorem exists_mem_of_mapM {f : α → Except ε β} {items : List α} {results : List β}
    (hresults : items.mapM f = .ok results) {a : α} (ha : a ∈ items) :
    ∃ b ∈ results, f a = .ok b := by
  have hall := mapM_eq_ok_iff.mp hresults
  obtain ⟨i, hi, rfl⟩ := List.mem_iff_getElem.mp ha
  have hi' : i < results.length := hall.length_eq ▸ hi
  exact ⟨results[i], List.getElem_mem hi', hall.get hi hi'⟩

/-- A chain over the part of a list that a test picks yields the part of the results that goes with
it. -/
theorem mapM_filter_eq_ok {f : α → Except ε β} {p : α → Bool} {q : β → Bool} {items : List α}
    {results : List β} (hresults : items.mapM f = .ok results)
    (hsame : ∀ a ∈ items, ∀ b, f a = .ok b → p a = q b) :
    (items.filter p).mapM f = .ok (results.filter q) := by
  rw [mapM_eq_ok_iff] at hresults ⊢
  induction hresults with
  | nil => exact .nil
  | @cons a b items results hab hrest ih =>
      have hfiltered := ih fun x hx => hsame x (List.mem_cons_of_mem a hx)
      rw [List.filter_cons, List.filter_cons, hsame a List.mem_cons_self b hab]
      split
      · exact .cons hab hfiltered
      · exact hfiltered

/-- A chain over the items of a list in another order yields the results in that order. -/
theorem exists_mapM_of_perm {ε α β : Type} {f : α → Except ε β} {items others : List α}
    (hperm : others.Perm items) {results : List β} (hresults : items.mapM f = .ok results) :
    ∃ others', others.mapM f = .ok others' ∧ others'.Perm results := by
  obtain ⟨others', hall, hperm'⟩ := List.perm_comp_forall₂ hperm (mapM_eq_ok_iff.mp hresults)
  exact ⟨others', mapM_eq_ok_iff.mpr hall, hperm'⟩

theorem map_eq_of_mapM_eq_ok {γ : Type} {f : α → Except ε β} {g : β → γ} {h : α → γ}
    (hf : ∀ a b, f a = .ok b → g b = h a) {items : List α} {results : List β}
    (hmapM : items.mapM f = .ok results) : results.map g = items.map h := by
  rw [mapM_eq_ok_iff] at hmapM
  induction hmapM with
  | nil => rfl
  | cons hab _ ih => rw [List.map_cons, List.map_cons, hf _ _ hab, ih]

end DiskCatalog

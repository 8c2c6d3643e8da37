/-
  PageTree/Proofs/Live/Debts.lean
  ===============================
  **What a history of effects still owes.**

  Every run that returns a cleanup creates a debt, and running the cleanup pays
  it.  `Owes` reads a history step by step: a cleanup can only be run, or be
  found in a slot, while it is owed.  A run that finds a cleanup in its slot and
  leaves another one there cancels a debt that nobody has paid.

    * `Owes.balance`: the books are even, with the cancelled debts on one side.
    * `Owes.alternating_iff`: in every slot runs and cleanups alternate if and
      only if no run ends in a slot that still owes a cleanup.
-/
import Mathlib
import PageTree.Live.Hook

namespace PageTree.Live

variable {P : Callbacks}

/-- The cleanup of a slot as a debt, if there is one. -/
def debt (slot : Option SlotName) (cleanup : Option P.Cleanup) : Multiset (Due P) :=
  ((cleanup.map (Due.mk slot)).toList : List (Due P))

@[simp] theorem debt_none (slot : Option SlotName) : debt (P := P) slot none = 0 := rfl

@[simp] theorem debt_some (slot : Option SlotName) (k : P.Cleanup) :
    debt slot (some k) = {⟨slot, k⟩} := rfl

theorem slot_of_mem_debt {slot : Option SlotName} {cleanup : Option P.Cleanup} {d : Due P}
    (h : d ∈ debt slot cleanup) : d.slot = slot := by
  cases cleanup with
  | none => simp at h
  | some k =>
    obtain rfl := Multiset.mem_singleton.1 h
    rfl

/-- A history, the latest event first, and what is owed after it. -/
inductive Owes : List (Event P) → Multiset (Due P) → Prop
  | start : Owes [] 0
  | ran {es owed slot found returned} (before : Owes es (debt (some slot) found + owed)) :
      Owes (.ran slot found returned :: es) (debt (some slot) returned + owed)
  | stray {es owed returned} (before : Owes es owed) :
      Owes (.stray returned :: es) (debt none returned + owed)
  | undone {es owed due} (before : Owes es (due ::ₘ owed)) : Owes (.undone due :: es) owed

/-! ### The books -/

/-- The cleanups that were returned. -/
def returned : List (Event P) → Multiset (Due P)
  | [] => 0
  | .ran slot _ k :: es => debt (some slot) k + returned es
  | .stray k :: es => debt none k + returned es
  | .undone _ :: es => returned es

/-- The cleanups that were run. -/
def invoked : List (Event P) → Multiset (Due P)
  | [] => 0
  | .undone due :: es => due ::ₘ invoked es
  | .ran .. :: es | .stray _ :: es => invoked es

/-- The cleanups that were found in a slot and replaced. -/
def overwritten : List (Event P) → Multiset (Due P)
  | [] => 0
  | .ran slot found _ :: es => debt (some slot) found + overwritten es
  | .stray _ :: es | .undone _ :: es => overwritten es

theorem invoked_append (es fs : List (Event P)) :
    invoked (es ++ fs) = invoked es + invoked fs := by
  induction es with
  | nil => simp [invoked]
  | cons e es ih => cases e <;> simp [invoked, ih]

/-- Every cleanup that was returned was run, or it was overwritten, or it is
    owed. -/
theorem Owes.balance {es : List (Event P)} {owed : Multiset (Due P)} (h : Owes es owed) :
    returned es = invoked es + overwritten es + owed := by
  induction h with
  | start => rfl
  | ran _ ih =>
    simp only [returned, invoked, overwritten, ih]
    abel
  | stray _ ih =>
    simp only [returned, invoked, overwritten, ih]
    abel
  | undone _ ih =>
    simp only [returned, invoked, overwritten, ih, Multiset.cons_add, Multiset.add_cons]

/-- A history owes one thing only. -/
theorem Owes.unique {es : List (Event P)} {owed owed' : Multiset (Due P)} (h : Owes es owed)
    (h' : Owes es owed') : owed = owed' :=
  add_left_cancel (h.balance.symm.trans h'.balance)

theorem overwritten_eq_zero_iff {es : List (Event P)} :
    overwritten es = 0 ↔ ∀ slot found k, .ran slot found k ∈ es → found = none := by
  induction es with
  | nil => simp [overwritten]
  | cons e es ih =>
    cases e with
    | ran slot found k =>
      simp only [overwritten, add_eq_zero, ih, List.mem_cons, Event.ran.injEq]
      constructor
      · rintro ⟨hf, hes⟩ slot' found' k' (⟨rfl, rfl, rfl⟩ | h)
        · cases found' with
          | none => rfl
          | some k => simp at hf
        · exact hes slot' found' k' h
      · intro h
        obtain rfl := h slot found k (.inl ⟨rfl, rfl, rfl⟩)
        exact ⟨debt_none _, fun slot' found' k' he => h slot' found' k' (.inr he)⟩
    | stray k => simp [overwritten, ih]
    | undone due => simp [overwritten, ih]

/-! ### Slots -/

/-- The slot that an event belongs to, if there is one. -/
def Event.slot : Event P → Option SlotName
  | .ran slot _ _ => some slot
  | .stray _ => none
  | .undone due => due.slot

def eventsOf (slot : SlotName) (es : List (Event P)) : List (Event P) :=
  es.filter (·.slot = some slot)

theorem eventsOf_cons_of_eq {slot : SlotName} {e : Event P} (h : e.slot = some slot)
    (es : List (Event P)) : eventsOf slot (e :: es) = e :: eventsOf slot es := by
  simp [eventsOf, h]

theorem eventsOf_cons_of_ne {slot : SlotName} {e : Event P} (h : e.slot ≠ some slot)
    (es : List (Event P)) : eventsOf slot (e :: es) = eventsOf slot es := by
  simp [eventsOf, h]

/-- Runs and cleanups take turns: a run starts from a clean slot, and the cleanup
    after it is the one that the run returned.  At the end the given cleanup is
    due. -/
inductive Alternating : List (Event P) → Option P.Cleanup → Prop
  | start : Alternating [] none
  | ran {es slot found k} (before : Alternating es none) : Alternating (.ran slot found k :: es) k
  | undone {es slot k} (before : Alternating es (some k)) :
      Alternating (.undone ⟨slot, k⟩ :: es) none

/-- No run ends in a slot that still owes a cleanup. -/
def Orderly (es : List (Event P)) : Prop :=
  ∀ slot found k past owed, .ran slot found k :: past <:+ es → Owes past owed →
    ∀ d ∈ owed, d.slot ≠ some slot

theorem Orderly.tail {e : Event P} {es : List (Event P)} (h : Orderly (e :: es)) : Orderly es :=
  fun slot found k past owed hs => h slot found k past owed (hs.trans (List.suffix_cons e es))

theorem Alternating.tail {slot : SlotName} {e : Event P} {es : List (Event P)}
    {k : Option P.Cleanup} (h : Alternating (eventsOf slot (e :: es)) k) :
    ∃ k', Alternating (eventsOf slot es) k' := by
  by_cases he : e.slot = some slot
  · rw [eventsOf_cons_of_eq he] at h
    cases h with
    | ran before => exact ⟨_, before⟩
    | undone before => exact ⟨_, before⟩
  · rw [eventsOf_cons_of_ne he] at h
    exact ⟨k, h⟩

/-- The debts of one slot. -/
def owedBy (slot : SlotName) (owed : Multiset (Due P)) : Multiset (Due P) :=
  owed.filter (·.slot = some slot)

theorem owedBy_add (slot : SlotName) (s t : Multiset (Due P)) :
    owedBy slot (s + t) = owedBy slot s + owedBy slot t :=
  Multiset.filter_add ..

theorem owedBy_debt_self (slot : SlotName) (k : Option P.Cleanup) :
    owedBy slot (debt (some slot) k) = debt (some slot) k :=
  Multiset.filter_eq_self.2 fun _ hd => slot_of_mem_debt hd

theorem owedBy_debt_of_ne {slot : SlotName} {other : Option SlotName} (h : other ≠ some slot)
    (k : Option P.Cleanup) : owedBy slot (debt other k) = 0 :=
  Multiset.filter_eq_nil.2 fun _ hd => by
    rw [slot_of_mem_debt hd]
    exact h

theorem owedBy_eq_zero_iff {slot : SlotName} {owed : Multiset (Due P)} :
    owedBy slot owed = 0 ↔ ∀ d ∈ owed, d.slot ≠ some slot :=
  Multiset.filter_eq_nil

theorem debt_eq_zero_iff {slot : Option SlotName} {k : Option P.Cleanup} :
    debt slot k = 0 ↔ k = none := by
  cases k <;> simp

/-- As long as a slot alternates, it owes what its last run returned. -/
theorem Owes.owedBy_of_alternating {es : List (Event P)} {owed : Multiset (Due P)}
    (h : Owes es owed) {slot : SlotName} {k : Option P.Cleanup}
    (halt : Alternating (eventsOf slot es) k) : owedBy slot owed = debt (some slot) k := by
  induction h generalizing k with
  | start =>
    cases halt
    rfl
  | @ran es owed slot' found returned _ ih =>
    by_cases hs : slot' = slot
    · subst hs
      rw [eventsOf_cons_of_eq rfl] at halt
      cases halt with
      | ran before =>
        -- the slot was clean, so the run found nothing in it
        have clean := ih before
        rw [owedBy_add, debt_none, add_eq_zero] at clean
        rw [owedBy_add, clean.2, add_zero, owedBy_debt_self]
    · have hne : (some slot' : Option SlotName) ≠ some slot := by simpa using hs
      rw [eventsOf_cons_of_ne (by exact hne)] at halt
      have same := ih halt
      rw [owedBy_add, owedBy_debt_of_ne hne, zero_add] at same ⊢
      exact same
  | stray _ ih =>
    rw [eventsOf_cons_of_ne (by simp [Event.slot])] at halt
    rw [owedBy_add, owedBy_debt_of_ne (by simp), zero_add]
    exact ih halt
  | @undone es owed due _ ih =>
    by_cases hs : due.slot = some slot
    · rw [eventsOf_cons_of_eq (by exact hs)] at halt
      cases halt with
      | @undone _ _ k before =>
        have owes := ih before
        obtain rfl : _ = some slot := hs
        have single := owedBy_debt_self slot (some k)
        rw [debt_some] at single
        rw [← Multiset.singleton_add, owedBy_add, single, debt_some] at owes
        exact add_eq_left.1 owes
    · rw [eventsOf_cons_of_ne (by exact hs)] at halt
      have same := ih halt
      have rest : owedBy slot (due ::ₘ owed) = owedBy slot owed :=
        Multiset.filter_cons_of_neg owed hs
      exact rest.symm.trans same

/-- In every slot runs and cleanups alternate if and only if no run ends in a
    slot that still owes a cleanup. -/
theorem Owes.alternating_iff {es : List (Event P)} {owed : Multiset (Due P)} (h : Owes es owed) :
    (∀ slot, ∃ k, Alternating (eventsOf slot es) k) ↔ Orderly es := by
  constructor
  · intro halt slot found k past owed' hs hp
    obtain ⟨recent, rfl⟩ := hs
    -- an end of an alternating history is alternating
    have ends : ∃ k', Alternating (eventsOf slot (.ran slot found k :: past)) k' := by
      clear h
      have whole := halt slot
      clear halt
      induction recent with
      | nil => exact whole
      | cons e recent ih =>
        obtain ⟨_, hk⟩ := whole
        exact ih hk.tail
    obtain ⟨k', hk⟩ := ends
    rw [eventsOf_cons_of_eq rfl] at hk
    cases hk with
    | ran before =>
      have clean := hp.owedBy_of_alternating before
      rw [debt_none] at clean
      exact owedBy_eq_zero_iff.1 clean
  · intro ho slot
    induction h with
    | start => exact ⟨none, .start⟩
    | @ran es owed slot' found returned before ih =>
      obtain ⟨k, hk⟩ := ih ho.tail
      by_cases hs : slot' = slot
      · subst hs
        have clean := ho slot' found returned es _ (List.suffix_refl _) before
        have owes := before.owedBy_of_alternating hk
        rw [owedBy_eq_zero_iff.2 clean] at owes
        obtain rfl := debt_eq_zero_iff.1 owes.symm
        rw [eventsOf_cons_of_eq rfl]
        exact ⟨returned, .ran hk⟩
      · rw [eventsOf_cons_of_ne (by simpa [Event.slot] using hs)]
        exact ⟨k, hk⟩
    | stray _ ih =>
      rw [eventsOf_cons_of_ne (by simp [Event.slot])]
      exact ih ho.tail
    | @undone es owed due before ih =>
      obtain ⟨k, hk⟩ := ih ho.tail
      by_cases hs : due.slot = some slot
      · -- what was run was owed, so it is what the last run returned
        have owes := before.owedBy_of_alternating hk
        have member : due ∈ owedBy slot (due ::ₘ owed) :=
          Multiset.mem_filter.2 ⟨Multiset.mem_cons_self _ _, hs⟩
        rw [owes] at member
        cases k with
        | none => simp at member
        | some k =>
          obtain rfl := Multiset.mem_singleton.1 member
          rw [eventsOf_cons_of_eq rfl]
          exact ⟨none, .undone hk⟩
      · rw [eventsOf_cons_of_ne (by exact hs)]
        exact ⟨k, hk⟩

/-- Alternating slots lose nothing. -/
theorem Owes.overwritten_of_orderly {es : List (Event P)} {owed : Multiset (Due P)}
    (h : Owes es owed) (ho : Orderly es) : overwritten es = 0 := by
  induction h with
  | start => rfl
  | @ran es owed slot found returned before ih =>
    have clean := ho slot found returned es _ (List.suffix_refl _) before
    have none_found : owedBy slot (debt (some slot) found) = 0 := by
      rw [← owedBy_eq_zero_iff, owedBy_add, add_eq_zero] at clean
      exact clean.1
    rw [owedBy_debt_self] at none_found
    rw [overwritten, none_found, ih ho.tail, add_zero]
  | stray _ ih => exact ih ho.tail
  | undone _ ih => exact ih ho.tail

end PageTree.Live

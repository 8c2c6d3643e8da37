/-
  PageTree/Live/Slots.lean
  ========================
  **Numbered slots.**

  The slots of a component are numbered by hook positions.  They are kept in the
  order of their numbers, each number once.
-/

namespace PageTree.Live

/-- A finite map from numbers, sorted by them. -/
structure Slots (α : Type) where
  entries : List (Nat × α) := []
  sorted : (entries.map (·.1)).Pairwise (· < ·) := by simp

namespace Slots

variable {α : Type}

/-- The numbers in use, in ascending order. -/
def indices (s : Slots α) : List Nat := s.entries.map (·.1)

def values (s : Slots α) : List α := s.entries.map (·.2)

/-- The contents of a slot in a list of slots. -/
def find? (index : Nat) : List (Nat × α) → Option α
  | [] => none
  | (i, a) :: es => if i = index then some a else find? index es

def get? (s : Slots α) (index : Nat) : Option α := find? index s.entries

/-- Puts contents into a list of slots, in its place. -/
def put (index : Nat) (value : α) : List (Nat × α) → List (Nat × α)
  | [] => [(index, value)]
  | (i, a) :: es =>
    if index < i then (index, value) :: (i, a) :: es
    else if i = index then (index, value) :: es
    else (i, a) :: put index value es

theorem mem_indices_put {index i : Nat} {value : α} {es : List (Nat × α)}
    (h : i ∈ (put index value es).map (·.1)) : i = index ∨ i ∈ es.map (·.1) := by
  induction es with
  | nil => simpa [put] using h
  | cons e es ih =>
    rw [List.map_cons, List.mem_cons]
    simp only [put] at h
    split at h
    · simpa using h
    · split at h
      · rcases List.mem_cons.1 h with rfl | h
        · exact .inl rfl
        · exact .inr (.inr h)
      · rcases List.mem_cons.1 h with rfl | h
        · exact .inr (.inl rfl)
        · rcases ih h with rfl | h
          · exact .inl rfl
          · exact .inr (.inr h)

theorem sorted_put (index : Nat) (value : α) {es : List (Nat × α)}
    (h : (es.map (·.1)).Pairwise (· < ·)) :
    ((put index value es).map (·.1)).Pairwise (· < ·) := by
  induction es with
  | nil => simp [put]
  | cons e es ih =>
    simp only [List.map_cons, List.pairwise_cons] at h
    obtain ⟨below, rest⟩ := h
    simp only [put]
    split
    · next lt =>
      simp only [List.map_cons, List.pairwise_cons]
      refine ⟨fun i hi => ?_, below, rest⟩
      rcases List.mem_cons.1 hi with rfl | hi
      · exact lt
      · exact Nat.lt_trans lt (below i hi)
    · next nlt =>
      split
      · next eq =>
        subst eq
        simp only [List.map_cons, List.pairwise_cons]
        exact ⟨below, rest⟩
      · next ne =>
        simp only [List.map_cons, List.pairwise_cons]
        refine ⟨fun i hi => ?_, ih rest⟩
        rcases mem_indices_put hi with rfl | hi
        · omega
        · exact below i hi

def insert (s : Slots α) (index : Nat) (value : α) : Slots α :=
  ⟨put index value s.entries, sorted_put index value s.sorted⟩

/-- Changes the contents of a slot in a list of slots. -/
def update (index : Nat) (f : α → α) (es : List (Nat × α)) : List (Nat × α) :=
  es.map fun e => if e.1 = index then (e.1, f e.2) else e

theorem indices_update (index : Nat) (f : α → α) (es : List (Nat × α)) :
    (update index f es).map (·.1) = es.map (·.1) := by
  simp only [update, List.map_map]
  refine List.map_congr_left fun e _ => ?_
  simp only [Function.comp]
  split <;> rfl

/-- Changes the contents of a slot, if it is in use. -/
def modify (s : Slots α) (index : Nat) (f : α → α) : Slots α :=
  ⟨update index f s.entries, by rw [indices_update]; exact s.sorted⟩

def map {β : Type} (s : Slots α) (f : α → β) : Slots β :=
  ⟨s.entries.map fun e => (e.1, f e.2), by simpa [Function.comp_def] using s.sorted⟩

def isEmpty (s : Slots α) : Bool := s.entries.isEmpty

/-! ### Laws -/

theorem find?_put_self (index : Nat) (value : α) (es : List (Nat × α)) :
    find? index (put index value es) = some value := by
  induction es with
  | nil => simp [put, find?]
  | cons e es ih =>
    simp only [put]
    split
    · simp [find?]
    · split
      · simp [find?]
      · next h => simp [find?, h, ih]

@[simp] theorem get?_insert_self (s : Slots α) (index : Nat) (value : α) :
    (s.insert index value).get? index = some value :=
  find?_put_self index value s.entries

theorem find?_put_of_ne {index other : Nat} (h : index ≠ other) (value : α)
    (es : List (Nat × α)) : find? other (put index value es) = find? other es := by
  induction es with
  | nil => simp [put, find?, h]
  | cons e es ih =>
    simp only [put]
    split
    · simp [find?, h]
    · split
      · next he => simp [find?, h, he]
      · simp only [find?, ih]

theorem get?_insert_of_ne {index other : Nat} (h : index ≠ other) (s : Slots α) (value : α) :
    (s.insert index value).get? other = s.get? other :=
  find?_put_of_ne h value s.entries

theorem update_of_forall_ne {index : Nat} {es : List (Nat × α)} (h : ∀ e ∈ es, e.1 ≠ index)
    (f : α → α) : update index f es = es := by
  simp only [update]
  refine (List.map_congr_left fun e he => ?_).trans (List.map_id es)
  simp [h e he]

theorem find?_update (index other : Nat) (f : α → α) (es : List (Nat × α)) :
    find? other (update index f es)
      = if index = other then (find? other es).map f else find? other es := by
  induction es with
  | nil => simp [update, find?]
  | cons e es ih =>
    obtain ⟨i, a⟩ := e
    have step : update index f ((i, a) :: es)
        = (if i = index then (i, f a) else (i, a)) :: update index f es := rfl
    rw [step]
    by_cases here : i = index
    · subst here
      rw [if_pos rfl, find?, find?, ih]
      by_cases sought : i = other <;> simp [sought]
    · rw [if_neg here, find?, find?, ih]
      by_cases sought : i = other
      · subst sought
        simp [Ne.symm here]
      · simp [sought]

theorem get?_modify (s : Slots α) (index other : Nat) (f : α → α) :
    (s.modify index f).get? other
      = if index = other then (s.get? other).map f else s.get? other :=
  find?_update index other f s.entries

theorem get?_map {β : Type} (s : Slots α) (f : α → β) (index : Nat) :
    (s.map f).get? index = (s.get? index).map f := by
  obtain ⟨es, sorted⟩ := s
  show find? index (es.map fun e => (e.1, f e.2)) = (find? index es).map f
  clear sorted
  induction es with
  | nil => rfl
  | cons e es ih =>
    simp only [List.map_cons, find?]
    split
    · rfl
    · exact ih

theorem find?_eq_none_iff {index : Nat} {es : List (Nat × α)} :
    find? index es = none ↔ ∀ e ∈ es, e.1 ≠ index := by
  induction es with
  | nil => simp [find?]
  | cons e es ih =>
    simp only [find?, List.forall_mem_cons]
    split
    · next hi => simp [hi]
    · next hi => simp only [ih, ne_eq, hi, not_false_eq_true, true_and]

theorem find?_eq_some_split {index : Nat} {a : α} {es : List (Nat × α)}
    (h : find? index es = some a) :
    ∃ before after, es = before ++ (index, a) :: after ∧ ∀ e ∈ before, e.1 ≠ index := by
  induction es with
  | nil => simp [find?] at h
  | cons e es ih =>
    obtain ⟨i, b⟩ := e
    simp only [find?] at h
    split at h
    · next hi =>
      subst hi
      obtain rfl := Option.some.inj h
      exact ⟨[], es, rfl, by simp⟩
    · next hi =>
      obtain ⟨before, after, rfl, hb⟩ := ih h
      refine ⟨(i, b) :: before, after, rfl, ?_⟩
      intro e he
      rcases List.mem_cons.1 he with rfl | he
      · exact hi
      · exact hb e he

/-- A slot in use stands at one place, and only there do changes show. -/
theorem get?_eq_some_split {s : Slots α} {index : Nat} {a : α} (h : s.get? index = some a) :
    ∃ before after, s.entries = before ++ (index, a) :: after ∧
      ∀ f, (s.modify index f).entries = before ++ (index, f a) :: after := by
  obtain ⟨before, after, hs, hb⟩ := find?_eq_some_split h
  refine ⟨before, after, hs, fun f => ?_⟩
  have sorted := s.sorted
  rw [hs, List.map_append, List.pairwise_append, List.map_cons, List.pairwise_cons] at sorted
  have ha : ∀ e ∈ after, e.1 ≠ index := fun e he =>
    (Nat.ne_of_gt (sorted.2.1.1 e.1 (List.mem_map_of_mem he)))
  have append : update index f s.entries
      = update index f before ++ (index, f a) :: update index f after := by
    rw [hs]
    simp [update]
  exact append.trans (by rw [update_of_forall_ne hb, update_of_forall_ne ha])

theorem modify_of_get?_eq_none {s : Slots α} {index : Nat} (h : s.get? index = none)
    (f : α → α) : (s.modify index f).entries = s.entries :=
  update_of_forall_ne (find?_eq_none_iff.1 h) f

theorem put_of_find? {index : Nat} {a : α} {es : List (Nat × α)} (h : find? index es = some a)
    (sorted : (es.map (·.1)).Pairwise (· < ·)) : put index a es = es := by
  induction es with
  | nil => simp [find?] at h
  | cons e es ih =>
    obtain ⟨i, b⟩ := e
    simp only [List.map_cons, List.pairwise_cons] at sorted
    simp only [find?] at h
    split at h
    · next hi =>
      subst hi
      obtain rfl := Option.some.inj h
      simp [put]
    · next hi =>
      obtain ⟨before, after, rfl, _⟩ := find?_eq_some_split h
      have lt := sorted.1 index (by simp)
      rw [put, if_neg (by omega), if_neg hi, ih h sorted.2]

/-- Putting back what a slot contains changes nothing. -/
theorem insert_eq_self {s : Slots α} {index : Nat} {a : α} (h : s.get? index = some a) :
    s.insert index a = s := by
  obtain ⟨entries, sorted⟩ := s
  have same : put index a entries = entries := put_of_find? h sorted
  simp only [insert, same]

theorem put_of_find?_eq_none {index : Nat} {es : List (Nat × α)} (h : find? index es = none)
    (a : α) : ∃ before after, es = before ++ after ∧
      put index a es = before ++ (index, a) :: after := by
  induction es with
  | nil => exact ⟨[], [], rfl, rfl⟩
  | cons e es ih =>
    obtain ⟨i, b⟩ := e
    simp only [find?] at h
    split at h
    · cases h
    · next hi =>
      simp only [put]
      split
      · exact ⟨[], (i, b) :: es, rfl, rfl⟩
      · obtain ⟨before, after, rfl, hp⟩ := ih h
        exact ⟨(i, b) :: before, after, rfl, by simp [hp]⟩

theorem values_of_find? {es : List (Nat × α)} {as : List α} {k : Nat}
    (sorted : (es.map (·.1)).Pairwise (· < ·)) (above : ∀ e ∈ es, k ≤ e.1)
    (found : ∀ i, find? (k + i) es = as[i]?) : es.map (·.2) = as := by
  induction es generalizing k as with
  | nil =>
    have none := found 0
    cases as with
    | nil => rfl
    | cons a as => cases none
  | cons e es ih =>
    obtain ⟨j, a⟩ := e
    rw [List.map_cons, List.pairwise_cons] at sorted
    obtain ⟨lt, sorted⟩ := sorted
    have later : ∀ e ∈ es, j + 1 ≤ e.1 := fun e he => lt e.1 (List.mem_map_of_mem he)
    -- the first slot is the one at the position `k`, or no slot would be there
    obtain rfl : j = k := by
      refine Decidable.byContradiction fun ne => ?_
      have below : k ≤ j := above (j, a) List.mem_cons_self
      have unused : find? k ((j, a) :: es) = none := by
        refine find?_eq_none_iff.2 (List.forall_mem_cons.2 ⟨ne, fun e he => ?_⟩)
        have := later e he
        omega
      have none : as = [] := by
        have short : as[0]? = none := (found 0).symm.trans unused
        simpa using short
      have first := found (j - k)
      rw [Nat.add_sub_cancel' below, none, find?, if_pos rfl] at first
      cases first
    have first : some a = as[0]? := by
      have first := found 0
      rw [Nat.add_zero, find?, if_pos rfl] at first
      exact first
    cases as with
    | nil => cases first
    | cons b bs =>
      obtain rfl : a = b := Option.some.inj first
      rw [List.map_cons, ih sorted later fun i => ?_]
      have next := found (i + 1)
      rw [find?, if_neg (by omega), ← Nat.add_assoc, Nat.add_right_comm] at next
      exact next

/-- Slots that are numbered without gaps, from the first one on. -/
theorem values_of_get? {s : Slots α} {as : List α} (found : ∀ i, s.get? i = as[i]?) :
    s.values = as :=
  values_of_find? s.sorted (fun _ _ => Nat.zero_le _) fun i =>
    (congrArg s.get? (Nat.zero_add i)).trans (found i)

end Slots

end PageTree.Live

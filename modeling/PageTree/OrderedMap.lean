/-
  PageTree/OrderedMap.lean
  ========================
  **Maps that remember the order of insertion.**

  A map is the list of its entries.  Inserting under a present key replaces the
  value where it stands, inserting under a new key appends, and erasing removes
  the entry.
-/

namespace PageTree

/-- A map from texts that keeps its entries in the order of their insertion. -/
structure OrderedMap (α : Type) where
  entries : List (String × α)
deriving DecidableEq

namespace OrderedMap

variable {α β : Type}

def empty : OrderedMap α := ⟨[]⟩

instance : EmptyCollection (OrderedMap α) := ⟨empty⟩
instance : Inhabited (OrderedMap α) := ⟨empty⟩

def keys (m : OrderedMap α) : List String := m.entries.map (·.1)

def size (m : OrderedMap α) : Nat := m.entries.length

/-- The value of the first entry of `key` in a list of entries. -/
def find? (key : String) : List (String × α) → Option α
  | [] => none
  | (k, v) :: es => if k == key then some v else find? key es

def get? (m : OrderedMap α) (key : String) : Option α := find? key m.entries

def contains (m : OrderedMap α) (key : String) : Bool := (m.get? key).isSome

/-- Puts a value into a list of entries: in place if the key is present, else at
    the end. -/
def put (key : String) (value : α) : List (String × α) → List (String × α)
  | [] => [(key, value)]
  | (k, v) :: es => if k == key then (k, value) :: es else (k, v) :: put key value es

def insert (m : OrderedMap α) (key : String) (value : α) : OrderedMap α :=
  ⟨put key value m.entries⟩

/-- Removes the first entry of `key` from a list of entries. -/
def remove (key : String) : List (String × α) → List (String × α)
  | [] => []
  | (k, v) :: es => if k == key then es else (k, v) :: remove key es

def erase (m : OrderedMap α) (key : String) : OrderedMap α := ⟨remove key m.entries⟩

/-- Applies `f` to the value of the first entry of `key`. -/
def update (key : String) (f : α → α) : List (String × α) → List (String × α)
  | [] => []
  | (k, v) :: es => if k == key then (k, f v) :: es else (k, v) :: update key f es

/-- Changes the value under a key, if there is one. -/
def modify (m : OrderedMap α) (key : String) (f : α → α) : OrderedMap α :=
  ⟨update key f m.entries⟩

/-- Inserts entries one after another. -/
def ofList (entries : List (String × α)) : OrderedMap α :=
  entries.foldl (fun m e => m.insert e.1 e.2) empty

/-! ### Laws -/

theorem find?_put (key other : String) (value : α) (es : List (String × α)) :
    find? other (put key value es) = if key == other then some value else find? other es := by
  induction es with
  | nil => simp [put, find?]
  | cons e es ih =>
    obtain ⟨k, v⟩ := e
    simp only [put]
    split
    · next h =>
      have hk : k = key := by simpa using h
      subst hk
      simp only [find?]
      split <;> simp_all
    · next h =>
      simp only [find?, ih]
      split
      · next h2 =>
        have : k = other := by simpa using h2
        subst this
        have : ¬ (key == k) = true := by
          intro hc
          exact h (by simpa using (by simpa using hc : key = k).symm)
        simp [this]
      · rfl

theorem get?_insert (m : OrderedMap α) (key other : String) (value : α) :
    (m.insert key value).get? other = if key == other then some value else m.get? other :=
  find?_put key other value m.entries

@[simp] theorem get?_insert_self (m : OrderedMap α) (key : String) (value : α) :
    (m.insert key value).get? key = some value := by
  simp [get?_insert]

theorem find?_update (key other : String) (f : α → α) (es : List (String × α)) :
    find? other (update key f es)
      = if key == other then (find? other es).map f else find? other es := by
  induction es with
  | nil => simp [update, find?]
  | cons e es ih =>
    obtain ⟨k, v⟩ := e
    simp only [update]
    split
    · next h =>
      have hk : k = key := by simpa using h
      subst hk
      simp only [find?]
      split <;> simp_all
    · next h =>
      simp only [find?, ih]
      split
      · next h2 =>
        have : k = other := by simpa using h2
        subst this
        have : ¬ (key == k) = true := by
          intro hc
          exact h (by simpa using (by simpa using hc : key = k).symm)
        simp [this]
      · rfl

theorem get?_modify (m : OrderedMap α) (key other : String) (f : α → α) :
    (m.modify key f).get? other
      = if key == other then (m.get? other).map f else m.get? other :=
  find?_update key other f m.entries

theorem keys_update (key : String) (f : α → α) (es : List (String × α)) :
    (update key f es).map (·.1) = es.map (·.1) := by
  induction es with
  | nil => rfl
  | cons e es ih =>
    obtain ⟨k, v⟩ := e
    simp only [update]
    split <;> simp [ih]

@[simp] theorem keys_modify (m : OrderedMap α) (key : String) (f : α → α) :
    (m.modify key f).keys = m.keys :=
  keys_update key f m.entries

theorem find?_eq_some_split {key : String} {v : α} {es : List (String × α)}
    (h : find? key es = some v) :
    ∃ before after, es = before ++ (key, v) :: after ∧
      (∀ f, update key f es = before ++ (key, f v) :: after) ∧
      (∀ u, put key u es = before ++ (key, u) :: after) ∧
      remove key es = before ++ after := by
  induction es with
  | nil => simp [find?] at h
  | cons e es ih =>
    obtain ⟨k, u⟩ := e
    simp only [find?] at h
    split at h
    · next hk =>
      have hkey : k = key := by simpa using hk
      subst hkey
      obtain rfl := Option.some.inj h
      exact ⟨[], es, rfl, by simp [update], by simp [put], by simp [remove]⟩
    · next hk =>
      obtain ⟨before, after, rfl, hu, hp, hr⟩ := ih h
      exact ⟨(k, u) :: before, after, rfl, by simp [update, hk, hu], by simp [put, hk, hp],
        by simp [remove, hk, hr]⟩

/-- A present key stands at one place, and only there do changes show. -/
theorem get?_eq_some_split {m : OrderedMap α} {key : String} {v : α} (h : m.get? key = some v) :
    ∃ before after, m.entries = before ++ (key, v) :: after ∧
      (∀ f, (m.modify key f).entries = before ++ (key, f v) :: after) ∧
      (∀ u, (m.insert key u).entries = before ++ (key, u) :: after) ∧
      (m.erase key).entries = before ++ after :=
  find?_eq_some_split h

theorem find?_eq_none_absent {key : String} {es : List (String × α)} (h : find? key es = none) :
    (∀ e ∈ es, e.1 ≠ key) ∧ (∀ f, update key f es = es) ∧
      (∀ u, put key u es = es ++ [(key, u)]) ∧ remove key es = es := by
  induction es with
  | nil => simp [update, put, remove]
  | cons e es ih =>
    obtain ⟨k, u⟩ := e
    simp only [find?] at h
    split at h
    · cases h
    · next hk =>
      obtain ⟨hn, hu, hp, hr⟩ := ih h
      have hne : k ≠ key := by simpa using hk
      exact ⟨by simpa [hne] using hn, by simp [update, hk, hu], by simp [put, hk, hp],
        by simp [remove, hk, hr]⟩

/-- Of an absent key nothing is changed or removed; it is inserted at the end. -/
theorem get?_eq_none_absent {m : OrderedMap α} {key : String} (h : m.get? key = none) :
    (∀ e ∈ m.entries, e.1 ≠ key) ∧ (∀ f, (m.modify key f).entries = m.entries) ∧
      (∀ u, (m.insert key u).entries = m.entries ++ [(key, u)]) ∧
      (m.erase key).entries = m.entries :=
  find?_eq_none_absent h

theorem find?_eq_none_iff {key : String} {es : List (String × α)} :
    find? key es = none ↔ ∀ e ∈ es, e.1 ≠ key := by
  constructor
  · intro h
    exact (find?_eq_none_absent h).1
  · intro h
    induction es with
    | nil => rfl
    | cons e es ih =>
      have hne : (e.1 == key) = false := by simpa using h e (by simp)
      rw [find?, hne]
      exact ih fun e he => h e (by simp [he])

theorem mem_of_get? {m : OrderedMap α} {key : String} {v : α} (h : m.get? key = some v) :
    (key, v) ∈ m.entries := by
  obtain ⟨before, after, hm, _⟩ := get?_eq_some_split h
  simp [hm]

theorem get?_of_mem {m : OrderedMap α} {key : String} {v : α} (nodup : m.keys.Nodup)
    (h : (key, v) ∈ m.entries) : m.get? key = some v := by
  cases hm : m.get? key with
  | none => exact absurd rfl ((get?_eq_none_absent hm).1 _ h)
  | some u =>
    obtain ⟨before, after, he, _⟩ := get?_eq_some_split hm
    rw [keys, he, List.map_append, List.map_cons, List.nodup_append, List.nodup_cons] at nodup
    obtain ⟨_, ⟨notAfter, _⟩, apart⟩ := nodup
    rw [he, List.mem_append, List.mem_cons] at h
    rcases h with h | h | h
    · exact absurd rfl (apart key (List.mem_map_of_mem h) key List.mem_cons_self)
    · rw [(Prod.mk.inj h).2]
    · exact absurd (List.mem_map_of_mem h) notAfter

theorem get?_erase_self {m : OrderedMap α} (key : String) (nodup : m.keys.Nodup) :
    (m.erase key).get? key = none := by
  cases h : m.get? key with
  | none =>
    obtain ⟨absent, _, _, erased⟩ := get?_eq_none_absent h
    rw [get?, erased]
    exact h
  | some v =>
    obtain ⟨before, after, hm, _, _, erased⟩ := get?_eq_some_split h
    rw [keys, hm, List.map_append, List.map_cons, List.nodup_append, List.nodup_cons] at nodup
    obtain ⟨_, ⟨notAfter, _⟩, apart⟩ := nodup
    rw [get?, erased, find?_eq_none_iff]
    intro e he hkey
    rcases List.mem_append.1 he with he | he
    · exact apart e.1 (List.mem_map_of_mem he) key List.mem_cons_self hkey
    · exact notAfter (List.mem_map.2 ⟨e, he, hkey⟩)

theorem find?_remove_of_ne {key other : String} (h : key ≠ other) (es : List (String × α)) :
    find? other (remove key es) = find? other es := by
  induction es with
  | nil => rfl
  | cons e es ih =>
    obtain ⟨k, v⟩ := e
    simp only [remove]
    split
    · next hk =>
      have hk : k = key := by simpa using hk
      simp [find?, hk, h]
    · simp only [find?, ih]

theorem get?_erase_of_ne {key other : String} (h : key ≠ other) (m : OrderedMap α) :
    (m.erase key).get? other = m.get? other :=
  find?_remove_of_ne h m.entries

theorem nodup_keys_insert {m : OrderedMap α} (h : m.keys.Nodup) (key : String) (value : α) :
    (m.insert key value).keys.Nodup := by
  cases hm : m.get? key with
  | some v =>
    obtain ⟨before, after, he, _, hi, _⟩ := get?_eq_some_split hm
    rw [keys, he] at h
    rw [keys, hi]
    simpa using h
  | none =>
    obtain ⟨absent, _, hi, _⟩ := get?_eq_none_absent hm
    rw [keys, hi, List.map_append, List.nodup_append]
    refine ⟨h, by simp, ?_⟩
    intro k hk other hother
    obtain ⟨e, he, rfl⟩ := List.mem_map.1 hk
    obtain rfl : other = key := by simpa using hother
    exact absent e he

theorem nodup_keys_erase {m : OrderedMap α} (h : m.keys.Nodup) (key : String) :
    (m.erase key).keys.Nodup := by
  cases hm : m.get? key with
  | some v =>
    obtain ⟨before, after, he, _, _, hr⟩ := get?_eq_some_split hm
    rw [keys, he] at h
    rw [keys, hr]
    refine List.Nodup.sublist ?_ h
    exact (List.Sublist.append_left (List.sublist_cons_self _ _) before).map _
  | none =>
    obtain ⟨_, _, _, hr⟩ := get?_eq_none_absent hm
    rw [keys, hr]
    exact h

theorem update_update (key : String) (f g : α → α) (es : List (String × α)) :
    update key g (update key f es) = update key (g ∘ f) es := by
  induction es with
  | nil => rfl
  | cons e es ih =>
    obtain ⟨k, v⟩ := e
    by_cases h : (k == key) = true
    · simp [update, h]
    · simp [update, h, ih]

theorem modify_modify (m : OrderedMap α) (key : String) (f g : α → α) :
    (m.modify key f).modify key g = m.modify key (g ∘ f) :=
  congrArg mk (update_update key f g m.entries)

theorem update_comm {key other : String} (h : key ≠ other) (f g : α → α)
    (es : List (String × α)) :
    update key f (update other g es) = update other g (update key f es) := by
  induction es with
  | nil => rfl
  | cons e es ih =>
    obtain ⟨k, v⟩ := e
    by_cases hk : k = key
    · simp [update, hk, h]
    · by_cases ho : k = other
      · simp [update, ho, Ne.symm h]
      · simp [update, hk, ho, ih]

/-- Changes under different keys can be made in any order. -/
theorem modify_comm {key other : String} (h : key ≠ other) (m : OrderedMap α) (f g : α → α) :
    (m.modify other g).modify key f = (m.modify key f).modify other g :=
  congrArg mk (update_comm h f g m.entries)

theorem modify_congr {m : OrderedMap α} {key : String} {f g : α → α}
    (h : ∀ v, m.get? key = some v → f v = g v) : m.modify key f = m.modify key g := by
  suffices entries : (m.modify key f).entries = (m.modify key g).entries from congrArg mk entries
  cases found : m.get? key with
  | none =>
    obtain ⟨_, unchanged, _⟩ := get?_eq_none_absent found
    rw [unchanged, unchanged]
  | some v =>
    obtain ⟨before, after, _, changed, _⟩ := get?_eq_some_split found
    rw [changed, changed, h v found]

theorem modify_eq_self {m : OrderedMap α} {key : String} {f : α → α}
    (h : ∀ v, m.get? key = some v → f v = v) : m.modify key f = m := by
  suffices entries : (m.modify key f).entries = m.entries from congrArg mk entries
  cases found : m.get? key with
  | none => exact (get?_eq_none_absent found).2.1 f
  | some v =>
    obtain ⟨before, after, entries, changed, _⟩ := get?_eq_some_split found
    rw [changed, h v found, entries]

/-- Inserting under a present key changes the value there. -/
theorem insert_eq_modify {m : OrderedMap α} {key : String} {v : α} (h : m.get? key = some v)
    (u : α) : m.insert key u = m.modify key fun _ => u := by
  suffices entries : (m.insert key u).entries = (m.modify key fun _ => u).entries from
    congrArg mk entries
  obtain ⟨before, after, _, changed, inserted, _⟩ := get?_eq_some_split h
  rw [changed, inserted]

/-- Inserting the value that is there changes nothing. -/
theorem insert_eq_self {m : OrderedMap α} {key : String} {v : α} (h : m.get? key = some v) :
    m.insert key v = m := by
  rw [insert_eq_modify h]
  exact modify_eq_self fun u there => Option.some.inj (h.symm.trans there)

theorem put_update_of_ne {key other : String} (h : key ≠ other) (f : α → α) (u : α)
    (es : List (String × α)) :
    put other u (update key f es) = update key f (put other u es) := by
  induction es with
  | nil => simp [update, put, Ne.symm h]
  | cons e es ih =>
    obtain ⟨k, v⟩ := e
    by_cases hk : k = key
    · simp [update, put, hk, h]
    · by_cases ho : k = other
      · simp [update, put, ho, Ne.symm h]
      · simp [update, put, hk, ho, ih]

/-- Inserting does not interfere with a change under another key. -/
theorem insert_modify_of_ne {key other : String} (h : key ≠ other) (m : OrderedMap α) (f : α → α)
    (u : α) : (m.modify key f).insert other u = (m.insert other u).modify key f :=
  congrArg mk (put_update_of_ne h f u m.entries)

theorem remove_update_self (key : String) (f : α → α) (es : List (String × α)) :
    remove key (update key f es) = remove key es := by
  induction es with
  | nil => rfl
  | cons e es ih =>
    obtain ⟨k, v⟩ := e
    by_cases hk : k = key
    · simp [update, remove, hk]
    · simp [update, remove, hk, ih]

/-- What is removed may have been changed before. -/
theorem erase_modify_self (m : OrderedMap α) (key : String) (f : α → α) :
    (m.modify key f).erase key = m.erase key :=
  congrArg mk (remove_update_self key f m.entries)

theorem remove_update_of_ne {key other : String} (h : key ≠ other) (f : α → α)
    (es : List (String × α)) :
    remove other (update key f es) = update key f (remove other es) := by
  induction es with
  | nil => rfl
  | cons e es ih =>
    obtain ⟨k, v⟩ := e
    by_cases hk : k = key
    · simp [update, remove, hk, h]
    · by_cases ho : k = other
      · simp [update, remove, ho, Ne.symm h]
      · simp [update, remove, hk, ho, ih]

/-- Removing does not interfere with a change under another key. -/
theorem erase_modify_of_ne {key other : String} (h : key ≠ other) (m : OrderedMap α)
    (f : α → α) : (m.modify key f).erase other = (m.erase other).modify key f :=
  congrArg mk (remove_update_of_ne h f m.entries)

end OrderedMap

end PageTree

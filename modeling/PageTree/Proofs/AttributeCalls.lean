/-
  PageTree/Proofs/AttributeCalls.lean
  ===================================
  **What attributes hold after any calls.**

  The attributes of an element are changed by inserting, by writing over a value, by
  removing and by awaiting.  What is left of any number of such calls can be told
  from the calls: which keys there are, where each of them stands, and what it holds.

    * `insertedAt_concat_iff`: what one call more does to the places of the keys;
    * `pairwise_keys_after`: keys stand in the order of their insertions;
    * `get?_after_iff`: a key holds what the last call gave it that gave it anything;
    * `recorded_after`: all of it.
-/
import PageTree.Proofs.Grouping.Values
import PageTree.Proofs.Json.Fields

namespace PageTree

/-! ### Maps in the order of insertion -/

namespace OrderedMap

variable {α : Type} {m : OrderedMap α}

theorem mem_keys_iff {key : String} : key ∈ m.keys ↔ ∃ value, m.get? key = some value := by
  constructor
  · intro mem
    obtain ⟨e, listed, rfl⟩ := List.mem_map.1 mem
    cases found : m.get? e.1 with
    | none => exact absurd rfl ((get?_eq_none_absent found).1 e listed)
    | some value => exact ⟨value, rfl⟩
  · rintro ⟨value, found⟩
    exact List.mem_map.2 ⟨_, mem_of_get? found, rfl⟩

theorem keys_insert (key : String) (value : α) :
    (m.insert key value).keys = if key ∈ m.keys then m.keys else m.keys ++ [key] := by
  cases found : m.get? key with
  | some v =>
    rw [if_pos (mem_keys_iff.2 ⟨v, found⟩), insert_eq_modify found, keys_modify]
  | none =>
    have absent : key ∉ m.keys := by
      rw [mem_keys_iff, found]
      exact fun ⟨v, there⟩ => nomatch there
    rw [if_neg absent, keys, (get?_eq_none_absent found).2.2.1, List.map_append]
    rfl

/-- Under distinct keys, erasing one takes its entry out and leaves the others as they are. -/
theorem entries_erase (nodup : m.keys.Nodup) (key : String) :
    (m.erase key).entries = m.entries.filter (·.1 != key) := by
  cases found : m.get? key with
  | none =>
    obtain ⟨absent, _, _, erased⟩ := get?_eq_none_absent found
    rw [erased, List.filter_eq_self.2]
    intro e mem
    exact bne_iff_ne.2 (absent e mem)
  | some v =>
    obtain ⟨before, after, entries, _, _, erased⟩ := get?_eq_some_split found
    rw [keys, entries, List.map_append, List.map_cons, List.nodup_middle, List.nodup_cons,
      ← List.map_append] at nodup
    have others : ∀ e ∈ before ++ after, e.1 != key := by
      intro e mem
      refine bne_iff_ne.2 ?_
      rintro rfl
      exact nodup.1 (List.mem_map.2 ⟨e, mem, rfl⟩)
    rw [erased, entries, List.filter_append, List.filter_cons_of_neg (by simp), ← List.filter_append,
      List.filter_eq_self.2 others]

theorem keys_erase (nodup : m.keys.Nodup) (key : String) :
    (m.erase key).keys = m.keys.filter (· != key) := by
  rw [keys, entries_erase nodup, keys, List.filter_map]
  rfl

end OrderedMap

/-! ### The structured form -/

namespace Attributes

variable {attrs : Attributes}

/-- Under distinct keys the structured form has the written keys other than the one
    left out whose values have such a form, each once. -/
theorem toJson_fields (nodup : attrs.keys.Nodup) (except : String) :
    ∃ fields, attrs.toJson except = .object fields ∧ Json.Ascending fields ∧
      ∀ key v, (key, v) ∈ fields ↔
        key ≠ except ∧ key ∉ reserved ∧ ∃ value, attrs.get? key = some value ∧
          value.json? = some v := by
  let form (e : String × AttrValue) : Option (String × Json) :=
    if e.1 == except || reserved.contains e.1 then none else e.2.json?.map fun v => (e.1, v)
  have form_iff {e : String × AttrValue} {f : String × Json} :
      form e = some f ↔ f.1 = e.1 ∧ e.1 ≠ except ∧ e.1 ∉ reserved ∧ e.2.json? = some f.2 := by
    obtain ⟨key, v⟩ := f
    by_cases left : e.1 = except
    · simp [form, left]
    by_cases unwritten : e.1 ∈ reserved
    · simp [form, unwritten]
    · have same : key = e.1 ↔ e.1 = key := eq_comm
      cases value : e.2.json? <;> simp [form, left, unwritten, value, same]
  have distinct : ((attrs.entries.filterMap form).map (·.1)).Nodup := by
    rw [List.Nodup, List.pairwise_map, List.pairwise_filterMap]
    refine (List.pairwise_map.1 nodup).imp ?_
    intro e e' apart f formed f' formed'
    rwa [(form_iff.1 formed).1, (form_iff.1 formed').1]
  refine ⟨_, rfl, Json.ascending_sortFields _, fun key v => ?_⟩
  rw [Json.mem_sortFields distinct, List.mem_filterMap]
  constructor
  · rintro ⟨⟨k, value⟩, mem, formed⟩
    obtain ⟨rfl, other, written, json⟩ := form_iff.1 formed
    exact ⟨other, written, value, OrderedMap.get?_of_mem nodup mem, json⟩
  · rintro ⟨other, written, value, found, json⟩
    exact ⟨(key, value), OrderedMap.mem_of_get? found, form_iff.2 ⟨rfl, other, written, json⟩⟩

end Attributes

/-! ### Calls -/

/-- A call that changes attributes. -/
inductive AttributeCall where
  | insert (key : String) (value : AttrValue)
  /-- Puts a value in the place of the one that is there; an absent key stays absent. -/
  | write (key : String) (value : AttrValue)
  | remove (key : String)
  | resolve (key : String)
  | resolveAll

namespace AttributeCall

open Attributes

def run (attrs : Attributes) : AttributeCall → Attributes
  | insert key value => attrs.insert key value
  | write key value => attrs.modify key fun _ => value
  | remove key => attrs.erase key
  | resolve key => attrs.resolve key
  | resolveAll => attrs.resolveAll

/-- The attributes after calls, one after another; there are none at first. -/
def after (calls : List AttributeCall) : Attributes := calls.foldl run ∅

theorem after_append (calls later : List AttributeCall) :
    after (calls ++ later) = later.foldl run (after calls) :=
  List.foldl_append

theorem after_concat (calls : List AttributeCall) (call : AttributeCall) :
    after (calls ++ [call]) = call.run (after calls) :=
  after_append calls [call]

/-! ### What calls say about a key -/

/-- Every insertion of the key has been followed by a removal. -/
def Absent (calls : List AttributeCall) (key : String) : Prop :=
  ∀ earlier value later, calls = earlier ++ .insert key value :: later → .remove key ∈ later

/-- The call at this place is the first insertion of the key since its last removal. -/
def InsertedAt (calls : List AttributeCall) (key : String) (place : Nat) : Prop :=
  ∃ earlier value later, calls = earlier ++ .insert key value :: later ∧
    earlier.length = place ∧ Absent earlier key ∧ .remove key ∉ later

/-- Whether the call gives the key a value or takes it away. -/
def touches (key : String) : AttributeCall → Bool
  | insert k _ | write k _ | remove k => k == key
  | resolve _ | resolveAll => false

/-- Whether the call awaits the value of the key. -/
def awaits (key : String) : AttributeCall → Bool
  | resolve k => k == key
  | resolveAll => !reserved.contains key
  | insert _ _ | write _ _ | remove _ => false

/-- The value comes from the last call that gave the key one, and it has been awaited
    if a call since then awaits it. -/
def LastWritten (calls : List AttributeCall) (key : String) (value : AttrValue) : Prop :=
  ∃ earlier call given later, calls = earlier ++ call :: later ∧
    (call = .insert key given ∨ call = .write key given ∧ ¬ Absent earlier key) ∧
    later.all (!·.touches key) = true ∧
    value = if later.any (·.awaits key) then given.settle else given

variable {calls : List AttributeCall} {call : AttributeCall} {key : String} {n : Nat}

/-- The last call is the one that is looked for, or that one came earlier. -/
theorem of_concat_eq {earlier later : List AttributeCall} {c : AttributeCall}
    (split : calls ++ [call] = earlier ++ c :: later) :
    (earlier = calls ∧ c = call) ∨
      ∃ before, later = before ++ [call] ∧ calls = earlier ++ c :: before := by
  rcases List.eq_nil_or_concat' later with rfl | ⟨before, last, rfl⟩
  · obtain ⟨rfl, same⟩ := List.append_inj' split rfl
    exact .inl ⟨rfl, (List.singleton_inj.1 same).symm⟩
  · rw [← List.cons_append, ← List.append_assoc] at split
    obtain ⟨rfl, same⟩ := List.append_inj' split rfl
    exact .inr ⟨before, by rw [List.singleton_inj.1 same], rfl⟩

theorem absent_nil : Absent [] key := by
  intro earlier value later split
  simp at split

theorem absent_concat_iff :
    Absent (calls ++ [call]) key ↔
      (Absent calls key ∨ call = .remove key) ∧ ∀ value, call ≠ .insert key value := by
  constructor
  · intro absent
    refine ⟨?_, ?_⟩
    · by_cases removal : call = .remove key
      · exact .inr removal
      refine .inl fun earlier value later split => ?_
      have gone := absent earlier value (later ++ [call]) (by simp [split])
      rcases List.mem_append.1 gone with before | last
      · exact before
      · exact absurd (List.mem_singleton.1 last).symm removal
    · rintro value rfl
      have gone := absent calls value [] rfl
      cases gone
  · rintro ⟨absent, other⟩ earlier value later split
    rcases of_concat_eq split with ⟨-, same⟩ | ⟨before, rfl, shorter⟩
    · exact absurd same.symm (other value)
    · rw [List.mem_append, List.mem_singleton]
      rcases absent with absent | removal
      · exact .inl (absent earlier value before shorter)
      · exact .inr removal.symm

/-- After one call more a key has the place it had, or that of the call. -/
theorem insertedAt_concat_iff :
    InsertedAt (calls ++ [call]) key n ↔
      (InsertedAt calls key n ∧ call ≠ .remove key) ∨
        (n = calls.length ∧ Absent calls key ∧ ∃ value, call = .insert key value) := by
  constructor
  · rintro ⟨earlier, value, later, split, rfl, absent, kept⟩
    rcases of_concat_eq split with ⟨rfl, same⟩ | ⟨before, rfl, shorter⟩
    · exact .inr ⟨rfl, absent, value, same.symm⟩
    · rw [List.mem_append, List.mem_singleton, not_or] at kept
      exact .inl ⟨⟨earlier, value, before, shorter, rfl, absent, kept.1⟩, Ne.symm kept.2⟩
  · rintro (⟨⟨earlier, value, later, rfl, rfl, absent, kept⟩, other⟩ |
      ⟨rfl, absent, value, rfl⟩)
    · refine ⟨earlier, value, later ++ [call], by simp, rfl, absent, ?_⟩
      simp [kept, Ne.symm other]
    · exact ⟨calls, value, [], rfl, rfl, absent, List.not_mem_nil⟩

theorem InsertedAt.not_absent (h : InsertedAt calls key n) : ¬ Absent calls key := by
  obtain ⟨earlier, value, later, split, -, -, kept⟩ := h
  exact fun absent => kept (absent earlier value later split)

theorem InsertedAt.lt_length (h : InsertedAt calls key n) : n < calls.length := by
  obtain ⟨earlier, value, later, rfl, rfl, -⟩ := h
  simp

theorem exists_insertedAt (h : ¬ Absent calls key) : ∃ place, InsertedAt calls key place := by
  induction calls using List.reverseRecOn with
  | nil => exact absurd absent_nil h
  | append_singleton calls call ih =>
    simp only [insertedAt_concat_iff]
    rw [absent_concat_iff, not_and_or, not_or] at h
    by_cases absent : Absent calls key
    · have inserts : ∃ value, call = .insert key value := by
        simpa [absent] using h
      exact ⟨_, .inr ⟨rfl, absent, inserts⟩⟩
    · obtain ⟨place, there⟩ := ih absent
      refine ⟨place, .inl ⟨there, ?_⟩⟩
      rintro rfl
      simp at h

/-- A call that does not touch the key may await its value. -/
theorem LastWritten.concat {value : AttrValue} (h : LastWritten calls key value)
    (untouched : call.touches key = false) :
    LastWritten (calls ++ [call]) key (if call.awaits key then value.settle else value) := by
  obtain ⟨earlier, source, given, later, rfl, gives, others, rfl⟩ := h
  refine ⟨earlier, source, given, later ++ [call], by simp, gives, by simp [others, untouched], ?_⟩
  rw [List.any_append, List.any_cons, List.any_nil, Bool.or_false]
  by_cases earlierAwaits : later.any (·.awaits key) <;> by_cases awaits : call.awaits key <;>
    simp [earlierAwaits, awaits, settle_settle]

theorem exists_lastWritten (h : ¬ Absent calls key) : ∃ value, LastWritten calls key value := by
  induction calls using List.reverseRecOn with
  | nil => exact absurd absent_nil h
  | append_singleton calls call ih =>
    by_cases inserts : ∃ value, call = .insert key value
    · obtain ⟨value, rfl⟩ := inserts
      exact ⟨value, calls, _, value, [], rfl, .inl rfl, rfl, rfl⟩
    have before : ¬ Absent calls key ∧ call ≠ .remove key := by
      simpa [absent_concat_iff, inserts, not_or] using h
    obtain ⟨value, written⟩ := ih before.1
    by_cases writes : ∃ value, call = .write key value
    · obtain ⟨value, rfl⟩ := writes
      exact ⟨value, calls, _, value, [], rfl, .inr ⟨rfl, before.1⟩, rfl, rfl⟩
    · refine ⟨_, written.concat ?_⟩
      cases call <;> simp_all [touches]

/-! ### The keys -/

variable {attrs : Attributes}

/-- What one call does to the keys. -/
theorem keys_run (nodup : attrs.keys.Nodup) (call : AttributeCall) :
    (call.run attrs).keys = match call with
      | insert key _ => if key ∈ attrs.keys then attrs.keys else attrs.keys ++ [key]
      | remove key => attrs.keys.filter (· != key)
      | _ => attrs.keys := by
  cases call with
  | insert key value => exact OrderedMap.keys_insert key value
  | write key value => exact OrderedMap.keys_modify attrs key _
  | remove key => exact OrderedMap.keys_erase nodup key
  | resolve key => exact keys_resolve attrs key
  | resolveAll => exact keys_resolveAll attrs

theorem nodup_keys_run (nodup : attrs.keys.Nodup) (call : AttributeCall) :
    (call.run attrs).keys.Nodup := by
  cases call with
  | insert key value => exact OrderedMap.nodup_keys_insert nodup key value
  | remove key => exact OrderedMap.nodup_keys_erase nodup key
  | write | resolve | resolveAll =>
    rw [keys_run nodup]
    exact nodup

theorem mem_keys_run (nodup : attrs.keys.Nodup) (call : AttributeCall) (key : String) :
    key ∈ (call.run attrs).keys ↔
      (key ∈ attrs.keys ∧ call ≠ .remove key) ∨ ∃ value, call = .insert key value := by
  rw [keys_run nodup]
  cases call with
  | insert k value =>
    dsimp only
    by_cases present : k ∈ attrs.keys
    · have same : k = key → key ∈ attrs.keys := fun same => same ▸ present
      simpa [present] using same
    · have same : key = k ↔ k = key := eq_comm
      simp [present, same]
  | remove k =>
    have same : key = k ↔ k = key := eq_comm
    simp [same]
  | _ => simp

theorem nodup_keys_after (calls : List AttributeCall) : (after calls).keys.Nodup := by
  refine List.foldlRecOn (motive := fun a : Attributes => a.keys.Nodup) _ _ List.nodup_nil ?_
  intro attrs nodup call _
  exact nodup_keys_run nodup call

/-- The keys are those that were inserted and not removed since. -/
theorem mem_keys_after : key ∈ (after calls).keys ↔ ¬ Absent calls key := by
  induction calls using List.reverseRecOn with
  | nil => exact iff_of_false List.not_mem_nil (not_not.2 absent_nil)
  | append_singleton calls call ih =>
    rw [after_concat, mem_keys_run (nodup_keys_after calls), ih, absent_concat_iff, not_and_or,
      not_or, not_forall_not]

/-- The keys stand in the order of their places. -/
theorem pairwise_keys_after (calls : List AttributeCall) :
    (after calls).keys.Pairwise fun a b =>
      ∀ m n, InsertedAt calls a m → InsertedAt calls b n → m < n := by
  induction calls using List.reverseRecOn with
  | nil => exact List.Pairwise.nil
  | append_singleton calls call ih =>
    -- a key that is there keeps its place
    have same {key : String} {n : Nat} (present : key ∈ (after calls).keys)
        (there : InsertedAt (calls ++ [call]) key n) : InsertedAt calls key n := by
      rcases insertedAt_concat_iff.1 there with ⟨before, _⟩ | ⟨_, absent, _⟩
      · exact before
      · exact absurd absent (mem_keys_after.1 present)
    have kept : (after calls).keys.Pairwise fun a b =>
        ∀ m n, InsertedAt (calls ++ [call]) a m → InsertedAt (calls ++ [call]) b n → m < n := by
      refine ih.imp_of_mem ?_
      intro a b hereA hereB ordered m n atA atB
      exact ordered m n (same hereA atA) (same hereB atB)
    rw [after_concat, keys_run (nodup_keys_after calls)]
    cases call with
    | insert key value =>
      dsimp only
      split
      · exact kept
      · next absent =>
        refine List.pairwise_append.2 ⟨kept, List.pairwise_singleton _ _, ?_⟩
        intro a present b new m n atA atB
        obtain rfl := List.mem_singleton.1 new
        have before := (same present atA).lt_length
        rcases insertedAt_concat_iff.1 atB with ⟨there, _⟩ | ⟨rfl, _⟩
        · exact absurd (mem_keys_after.2 there.not_absent) absent
        · exact before
    | remove key => exact kept.filter _
    | _ => exact kept

/-! ### The values -/

/-- A call that does not touch a key leaves it what it holds, or awaits that. -/
theorem get?_run_of_untouched (untouched : call.touches key = false) (attrs : Attributes) :
    (call.run attrs).get? key
      = (attrs.get? key).map fun v => if call.awaits key then v.settle else v := by
  cases call with
  | insert k value =>
    have other : k ≠ key := by simpa [touches] using untouched
    simp [run, awaits, OrderedMap.get?_insert, other]
  | write k value =>
    have other : k ≠ key := by simpa [touches] using untouched
    simp [run, awaits, OrderedMap.get?_modify, other]
  | remove k =>
    have other : k ≠ key := by simpa [touches] using untouched
    simp [run, awaits, OrderedMap.get?_erase_of_ne other]
  | resolve k =>
    rw [run, Attributes.resolve, OrderedMap.get?_modify]
    by_cases here : k = key <;> simp [awaits, here]
  | resolveAll =>
    rw [run, get?_resolveAll]
    by_cases unwritten : key ∈ reserved <;> simp [awaits, unwritten]

theorem get?_foldl_run_of_untouched {later : List AttributeCall}
    (untouched : later.all (!·.touches key) = true) (attrs : Attributes) :
    (later.foldl run attrs).get? key
      = (attrs.get? key).map fun v => if later.any (·.awaits key) then v.settle else v := by
  induction later generalizing attrs with
  | nil => simp
  | cons call later ih =>
    rw [List.all_cons, Bool.and_eq_true, Bool.not_eq_true'] at untouched
    rw [List.foldl_cons, ih untouched.2, get?_run_of_untouched untouched.1, Option.map_map]
    refine congrArg (fun f => (attrs.get? key).map f) (funext fun v => ?_)
    by_cases here : call.awaits key <;> by_cases onward : later.any (·.awaits key) <;>
      simp [here, onward, settle_settle]

theorem get?_after_of_lastWritten {value : AttrValue} (h : LastWritten calls key value) :
    (after calls).get? key = some value := by
  obtain ⟨earlier, call, given, later, rfl, gives, untouched, rfl⟩ := h
  have held : (call.run (after earlier)).get? key = some given := by
    rcases gives with rfl | ⟨rfl, present⟩
    · exact OrderedMap.get?_insert_self _ key given
    · obtain ⟨old, found⟩ := OrderedMap.mem_keys_iff.1 (mem_keys_after.2 present)
      rw [run, OrderedMap.get?_modify, if_pos (beq_self_eq_true key), found, Option.map_some]
  rw [after_append, List.foldl_cons, get?_foldl_run_of_untouched untouched, held, Option.map_some]

/-- A key holds what the last call gave it that gave it anything. -/
theorem get?_after_iff {value : AttrValue} :
    (after calls).get? key = some value ↔ LastWritten calls key value := by
  refine ⟨fun found => ?_, get?_after_of_lastWritten⟩
  have present := mem_keys_after.1 (OrderedMap.mem_keys_iff.2 ⟨value, found⟩)
  obtain ⟨value', written⟩ := exists_lastWritten present
  rw [get?_after_of_lastWritten written] at found
  rwa [← Option.some.inj found]

/-! ### All of it -/

/-- The attributes are what calls have left, as the calls tell it. -/
structure Recorded (calls : List AttributeCall) (attrs : Attributes) : Prop where
  distinct : attrs.keys.Nodup
  /-- The keys are those that were inserted and not removed since. -/
  present : ∀ key, key ∈ attrs.keys ↔ ∃ place, InsertedAt calls key place
  /-- They stand in the order of their first insertions since their last removals. -/
  ordered : attrs.keys.Pairwise fun a b =>
    ∀ m n, InsertedAt calls a m → InsertedAt calls b n → m < n
  /-- A key holds the value written last, awaited if it has been awaited since. -/
  values : ∀ key value, attrs.get? key = some value ↔ LastWritten calls key value
  /-- Removing a key takes its entry out and leaves the others as they are. -/
  removed : ∀ key, (attrs.erase key).entries = attrs.entries.filter (·.1 != key)
  /-- Once all is awaited, no value that is written is pending. -/
  awaited : ∀ key value, attrs.resolveAll.get? key = some value → key ∉ reserved →
    value.isPending = false
  /-- The structured form has the written keys, but for one, whose values have such a form. -/
  structured : ∀ except, ∃ fields, attrs.toJson except = .object fields ∧ Json.Ascending fields ∧
    ∀ key v, (key, v) ∈ fields ↔
      key ≠ except ∧ key ∉ reserved ∧ ∃ value, attrs.get? key = some value ∧ value.json? = some v

/-- **Attributes after any calls**, from none at the beginning. -/
theorem recorded_after (calls : List AttributeCall) : Recorded calls (after calls) where
  distinct := nodup_keys_after calls
  present key := by
    rw [mem_keys_after]
    exact ⟨exists_insertedAt, fun ⟨_, there⟩ => there.not_absent⟩
  ordered := pairwise_keys_after calls
  values _ _ := get?_after_iff
  removed key := OrderedMap.entries_erase (nodup_keys_after calls) key
  awaited key value found written := by
    rw [get?_resolveAll] at found
    obtain ⟨v, _, rfl⟩ := Option.map_eq_some_iff.1 found
    rw [if_neg written]
    exact AttrValue.isPending_settle v
  structured except := toJson_fields (nodup_keys_after calls) except

end AttributeCall

end PageTree

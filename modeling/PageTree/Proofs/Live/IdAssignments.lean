/-
  PageTree/Proofs/Live/IdAssignments.lean
  =======================================
  **The ids that a document finds in markup.**

  A document looks for ids with no idea of tags and texts.  It reads markup in
  pieces between double quotes.  A piece that ends in a blank, `id` and an equals
  sign makes an id of the next piece, wherever it stands: the value of one attribute
  may end that way, and then the name of the next attribute is taken for an id and
  the value of that attribute for text.

    * `ids_foldl_read`: the ids are found by a reader, character by character;
    * `assignedIds_assignment`: what is found of an assignment inside of markup;
    * `inValue_attributes`: after the attributes of a tag only the last value matters.
-/
import PageTree.Live.Document
import PageTree.Proofs.Markup.RoundTrip
import PageTree.Proofs.Scanning

namespace PageTree.Live.Markup

open Text

/-! ### What stands before the value of an id -/

/-- Drops `id` and an equals sign. -/
def dropSign (s : List Char) : Option (List Char) :=
  (dropWord "id".toList s).bind fun rest => dropWord ['='] (trimStart rest)

/-- A blank, `id` and an equals sign, with blanks around the sign. -/
def isOpening : List Char → Bool
  | [] => false
  | c :: cs => isBlank c && (dropSign cs).any (·.all isBlank)

/-- Whether a double quote after the text opens the value of an id. -/
def opensId : List Char → Bool
  | [] => false
  | c :: cs => isOpening (c :: cs) || opensId cs

theorem opensId_append {o : List Char} (h : isOpening o = true) (p : List Char) :
    opensId (p ++ o) = true := by
  induction p with
  | nil =>
    cases o with
    | nil => cases h
    | cons c cs => rw [List.nil_append, opensId, h, Bool.true_or]
  | cons c p ih => rw [List.cons_append, opensId, ih, Bool.or_true]

theorem exists_of_opensId {s : List Char} (h : opensId s = true) :
    ∃ front o, s = front ++ o ∧ isOpening o = true := by
  induction s with
  | nil => cases h
  | cons c cs ih =>
    rw [opensId, Bool.or_eq_true] at h
    rcases h with here | later
    · exact ⟨[], c :: cs, rfl, here⟩
    · obtain ⟨front, o, rfl, opening⟩ := ih later
      exact ⟨c :: front, o, rfl, opening⟩

theorem exists_of_dropSign {s rest : List Char} (h : dropSign s = some rest) :
    ∃ us, s = 'i' :: 'd' :: (us ++ '=' :: rest) ∧ ∀ c ∈ us, isBlank c = true := by
  obtain ⟨after, word, sign⟩ := Option.bind_eq_some_iff.1 h
  have split : after.takeWhile isBlank ++ '=' :: rest = after := by
    have sign : after.dropWhile isBlank = '=' :: rest := dropWord_eq_some_iff.1 sign
    rw [← sign, List.takeWhile_append_dropWhile]
  refine ⟨after.takeWhile isBlank, ?_, fun _ => List.mem_takeWhile_imp⟩
  rw [split]
  exact dropWord_eq_some_iff.1 word

theorem exists_of_isOpening {o : List Char} (h : isOpening o = true) :
    ∃ b us vs, o = b :: 'i' :: 'd' :: (us ++ '=' :: vs) ∧ isBlank b = true ∧
      (∀ c ∈ us, isBlank c = true) ∧ ∀ c ∈ vs, isBlank c = true := by
  cases o with
  | nil => cases h
  | cons b cs =>
    rw [isOpening, Bool.and_eq_true, Option.any_eq_true] at h
    obtain ⟨blank, vs, sign, blanks⟩ := h
    obtain ⟨us, rfl, before⟩ := exists_of_dropSign sign
    exact ⟨b, us, vs, rfl, blank, before, List.all_eq_true.1 blanks⟩

/-- No blanks stand in front of a visible character at the beginning. -/
theorem eq_nil_of_blank {us s t : List Char} {c : Char} (blank : ∀ x ∈ us, isBlank x = true)
    (visible : isBlank c = false) (same : c :: s = us ++ t) : us = [] := by
  cases us with
  | nil => rfl
  | cons u us =>
    obtain ⟨rfl, -⟩ := List.cons.inj same
    rw [blank _ List.mem_cons_self] at visible
    cases visible

/-- The name of another attribute opens no id. -/
theorem opensId_name {key : List Char} (nonempty : key ≠ [])
    (unblank : ∀ c ∈ key, isBlank c = false) (other : key ≠ "id".toList) (p : List Char) :
    opensId (p ++ ' ' :: (key ++ ['='])) = false := by
  by_contra opens
  obtain ⟨front, o, spelled, opening⟩ := exists_of_opensId (Bool.eq_true_of_not_eq_false opens)
  obtain ⟨b, us, vs, rfl, blank, before, after⟩ := exists_of_isOpening opening
  -- both texts are read from their ends
  have reversed : '=' :: (key.reverse ++ ' ' :: p.reverse)
      = vs.reverse ++ '=' :: (us.reverse ++ 'd' :: 'i' :: b :: front.reverse) := by
    simpa using congrArg List.reverse spelled
  have closed : vs.reverse = [] :=
    eq_nil_of_blank (by simpa using after) (by decide : isBlank '=' = false) reversed
  rw [closed, List.nil_append] at reversed
  obtain ⟨k, ks, backwards⟩ := List.exists_cons_of_ne_nil (mt List.reverse_eq_nil_iff.1 nonempty)
  have visible : ∀ c ∈ k :: ks, isBlank c = false := by simpa [← backwards] using unblank
  rw [backwards, List.cons_append] at reversed
  have same := (List.cons.inj reversed).2
  have unbroken : us.reverse = [] :=
    eq_nil_of_blank (by simpa using before) (visible k List.mem_cons_self) same
  rw [unbroken, List.nil_append] at same
  obtain ⟨rfl, tail⟩ := List.cons.inj same
  cases ks with
  | nil => exact absurd (List.cons.inj tail).1 (by decide)
  | cons i is =>
    obtain ⟨rfl, last⟩ := List.cons.inj tail
    cases is with
    | nil => exact other (by rw [← key.reverse_reverse, backwards]; rfl)
    | cons c is =>
      obtain ⟨rfl, -⟩ := List.cons.inj last
      rw [visible c (by simp)] at blank
      cases blank

/-! ### One piece -/

theorem blind_idAssignment : Recogniser.Blind idAssignment := fun _ _ => rfl

theorem dropSign_append_quote (s rest : List Char) :
    dropSign (s ++ '"' :: rest) = (dropSign s).map (· ++ '"' :: rest) := by
  rw [dropSign, dropSign, dropWord_append_cons (by decide)]
  cases dropWord "id".toList s with
  | none => rfl
  | some after =>
    rw [Option.map_some, Option.bind_some, Option.bind_some, trimStart_append_cons (by decide),
      dropWord_append_cons (by decide)]

theorem idAssignment_cons (c : Char) (cs : List Char) :
    idAssignment none (c :: cs) = if isBlank c then
      ((dropSign cs).bind fun rest => dropWord ['"'] (trimStart rest)).bind fun rest =>
        (cutAt ['"'] rest).map fun (id, rest) => (id, (c :: cs).length - rest.length)
    else none := by
  by_cases blank : isBlank c
  · simp [idAssignment, blank, dropSign, Option.bind_assoc, Option.map_eq_bind]
  · simp [idAssignment, blank]

/-- At the front of a piece an id is recognised if the piece is nothing but what
    stands before its value. -/
theorem idAssignment_piece {p : List Char} (unquoted : '"' ∉ p) (s : List Char) :
    idAssignment none (p ++ '"' :: s) = if isOpening p then (cutAt ['"'] s).map
      fun (id, rest) => (id, (p ++ '"' :: s).length - rest.length) else none := by
  cases p with
  | nil => rfl
  | cons c cs =>
    rw [List.cons_append, idAssignment_cons, isOpening, dropSign_append_quote]
    cases blank : isBlank c
    · rfl
    cases sign : dropSign cs with
    | none => rfl
    | some rest =>
      rw [Option.map_some, Option.bind_some, trimStart_append_cons (by decide), Option.any_some,
        Bool.true_and, if_pos rfl]
      obtain ⟨us, rfl, -⟩ := exists_of_dropSign sign
      have inside : ∀ x ∈ trimStart rest, x ≠ '"' := by
        rintro x hx rfl
        have hx := (List.dropWhile_suffix isBlank).subset hx
        exact unquoted (by simp [hx])
      cases trimmed : trimStart rest with
      | nil =>
        rw [trimStart, List.dropWhile_eq_nil_iff] at trimmed
        rw [if_pos (List.all_eq_true.2 trimmed)]
        rfl
      | cons x xs =>
        have other : x ≠ '"' := inside x (by simp [trimmed])
        have some_visible : ¬ rest.all isBlank = true := by
          rw [List.all_eq_true, ← List.dropWhile_eq_nil_iff, ← trimStart, trimmed]
          exact List.cons_ne_nil _ _
        rw [if_neg some_visible, List.cons_append]
        simp [dropWord, Ne.symm other]

theorem idAssignment_unquoted {p : List Char} (unquoted : '"' ∉ p) : idAssignment none p = none := by
  cases p with
  | nil => rfl
  | cons c cs =>
    rw [idAssignment_cons]
    split
    · cases sign : dropSign cs with
      | none => rfl
      | some rest =>
        obtain ⟨us, rfl, -⟩ := exists_of_dropSign sign
        have inside : '"' ∉ trimStart rest := by
          intro hx
          have hx := (List.dropWhile_suffix isBlank).subset hx
          exact unquoted (by simp [hx])
        have quote : dropWord ['"'] (trimStart rest) = none := by
          rw [Option.eq_none_iff_forall_ne_some]
          intro after found
          exact inside (dropWord_eq_some_iff.1 found ▸ List.mem_cons_self)
        rw [Option.bind_some, quote]
        rfl
    · rfl

theorem findAll_unquoted {p : List Char} (unquoted : '"' ∉ p) : findAll idAssignment p = [] := by
  induction p with
  | nil => rfl
  | cons c cs ih =>
    rw [findAll, scan_miss blind_idAssignment (idAssignment_unquoted unquoted)]
    exact ih (mt (List.mem_cons_of_mem c) unquoted)

/-- What is found from where the value of an id begins. -/
def idValue (s : List Char) : List (List Char) :=
  match cutAt ['"'] s with
  | some (id, rest) => id :: findAll idAssignment rest
  | none => []

theorem findAll_of_cutAt_none {s : List Char} (h : cutAt ['"'] s = none) :
    findAll idAssignment s = [] := by
  apply findAll_unquoted
  intro quote
  obtain ⟨front, back, rfl, first⟩ := List.eq_append_cons_of_mem quote
  rw [cutAt_singleton first] at h
  cases h

/-- **A piece** makes an id of the next one or is passed over. -/
theorem findAll_piece {p : List Char} (unquoted : '"' ∉ p) (s : List Char) :
    findAll idAssignment (p ++ '"' :: s)
      = if opensId p then idValue s else findAll idAssignment s := by
  induction p with
  | nil =>
    rw [List.nil_append, findAll, scan_miss blind_idAssignment (idAssignment_piece unquoted s)]
    rfl
  | cons c p ih =>
    have recognised := idAssignment_piece unquoted s
    have passed := ih (mt (List.mem_cons_of_mem c) unquoted)
    rw [List.cons_append] at recognised ⊢
    rw [opensId]
    cases opening : isOpening (c :: p) with
    | false =>
      rw [opening, if_neg Bool.false_ne_true] at recognised
      rw [findAll, scan_miss blind_idAssignment recognised]
      exact passed
    | true =>
      rw [opening, if_pos rfl] at recognised
      rw [Bool.true_or, if_pos rfl]
      cases value : cutAt ['"'] s with
      | none =>
        -- without a closing quote nothing is found any more
        rw [value] at recognised
        rw [findAll, scan_miss blind_idAssignment recognised, idValue, value]
        have none_found : (if opensId p = true then idValue s else findAll idAssignment s) = [] := by
          rw [idValue, value, findAll_of_cutAt_none value, ite_self]
        exact passed.trans none_found
      | some parts =>
        obtain ⟨id, rest⟩ := parts
        obtain rfl := eq_of_cutAt value
        rw [value] at recognised
        have split : c :: (p ++ '"' :: (id ++ ['"'] ++ rest))
            = c :: (p ++ '"' :: (id ++ ['"'])) ++ rest := by simp
        have hit : idAssignment none (c :: (p ++ '"' :: (id ++ ['"'])) ++ rest)
            = some (id, (c :: (p ++ '"' :: (id ++ ['"']))).length) := by
          rw [← split, recognised, split, Option.map_some, List.length_append]
          dsimp only
          rw [Nat.add_sub_cancel]
        rw [idValue, value, split, findAll, scan_hit blind_idAssignment (List.cons_ne_nil _ _) hit]
        rfl

/-! ### A reader -/

/-- A reader of markup that looks for ids as a document does. -/
structure IdReader where
  /-- Whether it takes what it reads for the value of an id. -/
  inValue : Bool := false
  /-- What it has read since the last double quote. -/
  piece : List Char := []
  ids : List (List Char) := []

namespace IdReader

def read (r : IdReader) (c : Char) : IdReader :=
  if c = '"' then
    if r.inValue then { ids := r.ids ++ [r.piece] } else { inValue := opensId r.piece, ids := r.ids }
  else { r with piece := r.piece ++ [c] }

/-- What the reader makes of a text. -/
def readAll (r : IdReader) (s : List Char) : IdReader := s.foldl read r

theorem readAll_append (r : IdReader) (s t : List Char) :
    r.readAll (s ++ t) = (r.readAll s).readAll t :=
  List.foldl_append

theorem readAll_unquoted {s : List Char} (unquoted : '"' ∉ s) (r : IdReader) :
    r.readAll s = { r with piece := r.piece ++ s } := by
  induction s generalizing r with
  | nil => simp [readAll]
  | cons c cs ih =>
    obtain ⟨here, later⟩ := not_or.1 (mt List.mem_cons.2 unquoted)
    have step : r.read c = { r with piece := r.piece ++ [c] } := if_neg (Ne.symm here)
    rw [readAll, List.foldl_cons, step]
    exact (ih later _).trans (by simp)

/-- At a double quote a piece ends. -/
theorem readAll_quote {s : List Char} (unquoted : '"' ∉ s) (r : IdReader) :
    r.readAll (s ++ ['"']) = if r.inValue then { ids := r.ids ++ [r.piece ++ s] }
      else { inValue := opensId (r.piece ++ s), ids := r.ids } := by
  rw [readAll_append, readAll_unquoted unquoted]
  rfl

/-- **The reader finds the ids** that a document finds. -/
theorem ids_readAll {r : IdReader} (unquoted : '"' ∉ r.piece) (s : List Char) :
    (r.readAll s).ids = r.ids ++ if r.inValue then idValue (r.piece ++ s)
      else findAll idAssignment (r.piece ++ s) := by
  induction s generalizing r with
  | nil =>
    have closed : cutAt ['"'] r.piece = none := by
      rw [Option.eq_none_iff_forall_ne_some]
      rintro ⟨front, back⟩ found
      exact unquoted (eq_of_cutAt found ▸ by simp)
    rw [List.append_nil, findAll_unquoted unquoted, idValue, closed, ite_self, List.append_nil]
    rfl
  | cons c cs ih =>
    rw [readAll, List.foldl_cons, read]
    by_cases quote : c = '"'
    · subst quote
      rw [if_pos rfl]
      cases inside : r.inValue with
      | true =>
        rw [if_pos rfl, if_pos rfl, idValue, cutAt_singleton unquoted]
        refine (ih List.not_mem_nil).trans ?_
        simp
      | false =>
        rw [if_neg Bool.false_ne_true, if_neg Bool.false_ne_true, findAll_piece unquoted]
        exact ih List.not_mem_nil
    · rw [if_neg quote]
      have unquoted' : '"' ∉ r.piece ++ [c] := by simp [unquoted, Ne.symm quote]
      refine (ih (r := { r with piece := r.piece ++ [c] }) unquoted').trans ?_
      simp only [List.append_assoc, List.singleton_append]

end IdReader

/-- Whether a document takes what follows the markup for the value of an id. -/
def inValue (s : String) : Bool := (IdReader.readAll {} s.toList).inValue

theorem assignedIds_eq (s : String) :
    assignedIds s = (IdReader.readAll {} s.toList).ids.map String.ofList := by
  rw [IdReader.ids_readAll List.not_mem_nil]
  rfl

/-! ### An assignment inside of markup -/

/-- **An assignment** inside of markup is found, unless it stands in what the document
    takes for the value of another one. -/
theorem assignedIds_assignment (front back : String) {v : String} (unquoted : '"' ∉ v.toList) :
    assignedIds (front ++ " id=\"" ++ v ++ "\"" ++ back)
      = if inValue front then assignedIds (front ++ " id=\"") ++ assignedIds (v ++ "\"" ++ back)
        else assignedIds front ++ v :: assignedIds back := by
  have start : '"' ∉ " id=".toList := by decide
  have opening (p : List Char) : opensId (p ++ " id=".toList) = true := opensId_append (by decide) p
  have rest_text : (v ++ "\"" ++ back).toList = v.toList ++ ['"'] ++ back.toList := by simp
  have before : IdReader.readAll {} (front ++ " id=\"").toList
      = (IdReader.readAll {} front.toList).readAll (" id=".toList ++ ['"']) := by
    rw [← IdReader.readAll_append]
    exact congrArg _ (by simp)
  have whole : IdReader.readAll {} (front ++ " id=\"" ++ v ++ "\"" ++ back).toList
      = ((IdReader.readAll {} front.toList).readAll (" id=".toList ++ ['"'])).readAll
          (v ++ "\"" ++ back).toList := by
    rw [← before, ← IdReader.readAll_append]
    exact congrArg _ (by simp)
  rw [assignedIds_eq, whole, assignedIds_eq (front ++ _), before, assignedIds_eq front, inValue]
  generalize IdReader.readAll {} front.toList = r
  rw [IdReader.readAll_quote start]
  cases inside : r.inValue with
  | true =>
    rw [if_pos rfl, if_pos rfl, IdReader.ids_readAll List.not_mem_nil, List.map_append, assignedIds]
    rfl
  | false =>
    rw [if_neg Bool.false_ne_true, if_neg Bool.false_ne_true, opening, rest_text,
      IdReader.readAll_append, IdReader.readAll_quote unquoted, if_pos rfl,
      IdReader.ids_readAll List.not_mem_nil]
    simp [assignedIds]

/-! ### The attributes of a tag -/

/-- Keys that can be the names of attributes. -/
structure IsAttributeName (key : String) : Prop where
  nonempty : key ≠ ""
  plain : ∀ c ∈ key.toList, isBlank c = false ∧ c ≠ '"' ∧ c ≠ '>'

/-- The last value among attributes. -/
def lastValue? (as : List (String × Option String)) : Option String := (as.filterMap (·.2)).getLast?

/-- After the attributes of a tag, other than the id, the last value decides. -/
theorem inValue_attributes {as : List (String × Option String)}
    (names : ∀ a ∈ as, IsAttributeName a.1 ∧ a.1 ≠ "id") (r : IdReader) :
    (r.readAll (attributesMarkup as).toList).inValue
      = ((lastValue? as).map fun v => opensId (Escape.attributeValue v).toList).getD r.inValue := by
  induction as using List.reverseRecOn with
  | nil => rfl
  | append_singleton as a ih =>
    obtain ⟨key, value⟩ := a
    have before := ih fun a ha => names a (List.mem_append_left _ ha)
    obtain ⟨name, other⟩ := names (key, value) (by simp)
    have unquoted : '"' ∉ key.toList := fun quote => (name.plain _ quote).2.1 rfl
    rw [attributesMarkup_append, String.toList_append, IdReader.readAll_append]
    generalize r.readAll (attributesMarkup as).toList = r' at before ⊢
    cases value with
    | none =>
      have text : (attributesMarkup [(key, none)]).toList = ' ' :: key.toList := by
        simp [attributesMarkup, attributeMarkup]
      have same : lastValue? (as ++ [(key, none)]) = lastValue? as := by simp [lastValue?]
      rw [text, same, ← before, IdReader.readAll_unquoted (by simp [unquoted])]
    | some v =>
      have text : (attributesMarkup [(key, some v)]).toList
          = ' ' :: (key.toList ++ ['=']) ++ ['"'] ++ ((Escape.attributeValue v).toList ++ ['"']) := by
        simp [attributesMarkup, attributeMarkup]
      have last : lastValue? (as ++ [(key, some v)]) = some v := by simp [lastValue?]
      have closed : opensId (r'.piece ++ ' ' :: (key.toList ++ ['='])) = false :=
        opensId_name (mt String.toList_eq_nil_iff.1 name.nonempty) (fun c hc => (name.plain c hc).1)
          (mt String.toList_inj.1 other) _
      have named : ∃ ids, r'.readAll (' ' :: (key.toList ++ ['=']) ++ ['"']) = { ids } := by
        rw [IdReader.readAll_quote (by simp [unquoted]), closed]
        split <;> exact ⟨_, rfl⟩
      obtain ⟨ids, named⟩ := named
      rw [text, last, IdReader.readAll_append, named,
        IdReader.readAll_quote (not_mem_attributeValue (by decide) v)]
      rfl

end PageTree.Live.Markup

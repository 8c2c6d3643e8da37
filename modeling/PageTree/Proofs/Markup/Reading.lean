/-
  PageTree/Proofs/Markup/Reading.lean
  ===================================
  **Reading markup.**

  A reader goes through markup one character at a time.  It takes tags as they
  are written: an element lasts from its opening tag to the closing tag of the
  same name, only a tag of a void element may end in a slash, and then nothing
  lies between.  Attributes are set off by one blank and are bare or have a
  value in double quotes; character references are resolved in values and in
  text.  `readMarkup` is the content of a whole text.
-/
import PageTree.Proofs.Content

namespace PageTree

/-- An attribute as it is read. -/
abbrev ReadAttribute := String × Option String

/-- What the reader is in the middle of. -/
inductive ReadingMode where
  /-- Text, none of its references resolved yet. -/
  | data (raw : List Char)
  /-- A tag has begun. -/
  | tagStart
  /-- The name of an opening tag. -/
  | openingName (name : List Char)
  /-- The key of an attribute. -/
  | key (tag : String) (attrs : List ReadAttribute) (key : List Char)
  /-- An equals sign has been read, a quote must follow. -/
  | assignment (tag : String) (attrs : List ReadAttribute) (key : List Char)
  /-- The value of an attribute, no reference resolved yet. -/
  | value (tag : String) (attrs : List ReadAttribute) (key raw : List Char)
  /-- A value has been closed. -/
  | afterValue (tag : String) (attrs : List ReadAttribute)
  /-- A slash has been read in an opening tag. -/
  | slash (tag : String) (attrs : List ReadAttribute)
  /-- The name of a closing tag. -/
  | closingName (name : List Char)

/-- An element that has been opened, and what was read before it. -/
structure OpenElement where
  tag : String
  attrs : List ReadAttribute
  before : Draft

/-- A reader of markup. -/
structure MarkupReader where
  mode : ReadingMode := .data []
  /-- What has been read of the innermost open element. -/
  draft : Draft := {}
  /-- The open elements, the innermost first. -/
  opened : List OpenElement := []

def textOfRaw (raw : List Char) : String := String.ofList (Escape.resolve raw)

/-- The characters that end the key of an attribute. -/
def keyEnds : List Char := [' ', '\t', '\n', '\x0c', '\r', '=', '>', '/']

/-- Whether a character belongs to the key of an attribute. -/
def isKeyChar (c : Char) : Bool := !keyEnds.contains c

namespace MarkupReader

/-- Ends an opening tag, which has a slash at its end or not. -/
def enter (d : Draft) (os : List OpenElement) (tag : String) (attrs : List ReadAttribute)
    (slashed : Bool) : Option MarkupReader :=
  if Node.isVoidTag tag then some ⟨.data [], d.add (.element tag attrs []), os⟩
  else if slashed then none
  else some ⟨.data [], {}, ⟨tag, attrs, d⟩ :: os⟩

/-- Ends the innermost open element, if it has this tag. -/
def leave (d : Draft) (os : List OpenElement) (tag : String) : Option MarkupReader :=
  match os with
  | [] => none
  | o :: os =>
    if o.tag = tag then some ⟨.data [], o.before.add (.element o.tag o.attrs d.finish), os⟩
    else none

/-- Reads the character after a name or a value in an opening tag. -/
def inTag (d : Draft) (os : List OpenElement) (tag : String) (attrs : List ReadAttribute)
    (c : Char) : Option MarkupReader :=
  if c = ' ' then some ⟨.key tag attrs [], d, os⟩
  else if c = '>' then enter d os tag attrs false
  else if c = '/' then some ⟨.slash tag attrs, d, os⟩
  else none

def step : MarkupReader → Char → Option MarkupReader
  | ⟨.data raw, d, os⟩, c =>
    if c = '<' then some ⟨.tagStart, d.add (.text (textOfRaw raw)), os⟩
    else some ⟨.data (raw ++ [c]), d, os⟩
  | ⟨.tagStart, d, os⟩, c =>
    if c = '/' then some ⟨.closingName [], d, os⟩
    else if c.isAlphanum then some ⟨.openingName [c], d, os⟩
    else none
  | ⟨.openingName name, d, os⟩, c =>
    if c.isAlphanum then some ⟨.openingName (name ++ [c]), d, os⟩
    else inTag d os (String.ofList name) [] c
  | ⟨.key tag attrs key, d, os⟩, c =>
    if isKeyChar c then some ⟨.key tag attrs (key ++ [c]), d, os⟩
    else if key.isEmpty then none
    else if c = '=' then some ⟨.assignment tag attrs key, d, os⟩
    else inTag d os tag (attrs ++ [(String.ofList key, none)]) c
  | ⟨.assignment tag attrs key, d, os⟩, c =>
    if c = '"' then some ⟨.value tag attrs key [], d, os⟩ else none
  | ⟨.value tag attrs key raw, d, os⟩, c =>
    if c = '"' then
      some ⟨.afterValue tag (attrs ++ [(String.ofList key, some (textOfRaw raw))]), d, os⟩
    else some ⟨.value tag attrs key (raw ++ [c]), d, os⟩
  | ⟨.afterValue tag attrs, d, os⟩, c => inTag d os tag attrs c
  | ⟨.slash tag attrs, d, os⟩, c => if c = '>' then enter d os tag attrs true else none
  | ⟨.closingName name, d, os⟩, c =>
    if c.isAlphanum then some ⟨.closingName (name ++ [c]), d, os⟩
    else if c = '>' then leave d os (String.ofList name)
    else none

def feed (r : MarkupReader) (s : List Char) : Option MarkupReader := s.foldlM step r

/-- The content, if the markup may end here. -/
def result? : MarkupReader → Option (List Content)
  | ⟨.data raw, d, []⟩ => some (d.add (.text (textOfRaw raw))).finish
  | _ => none

theorem feed_nil (r : MarkupReader) : r.feed [] = some r := rfl

theorem feed_cons (r : MarkupReader) (c : Char) (s : List Char) :
    r.feed (c :: s) = (r.step c).bind (·.feed s) := List.foldlM_cons

theorem feed_append (r : MarkupReader) (s t : List Char) :
    r.feed (s ++ t) = (r.feed s).bind (·.feed t) := List.foldlM_append

/-- What is read in two parts. -/
theorem feed_append_of_feed {r r' : MarkupReader} {s : List Char} (h : r.feed s = some r')
    (t : List Char) : r.feed (s ++ t) = r'.feed t := by
  rw [feed_append, h, Option.bind_some]

/-! ### Reading what continues

While a text, a name, a key or a value goes on, the reader gathers its
characters. -/

/-- A mode that gathers characters gathers a whole run of them. -/
theorem feed_gather (mode : List Char → ReadingMode) {d : Draft} {os : List OpenElement}
    {p : Char → Prop}
    (hstep : ∀ before c, p c → step ⟨mode before, d, os⟩ c = some ⟨mode (before ++ [c]), d, os⟩)
    {s : List Char} (h : ∀ c ∈ s, p c) (before : List Char) :
    feed ⟨mode before, d, os⟩ s = some ⟨mode (before ++ s), d, os⟩ := by
  induction s generalizing before with
  | nil => rw [feed_nil, List.append_nil]
  | cons c cs ih =>
    have hc : p c := h c List.mem_cons_self
    have hcs : ∀ x ∈ cs, p x := fun x hx => h x (List.mem_cons_of_mem c hx)
    rw [feed_cons, hstep before c hc, Option.bind_some, ih hcs, List.append_assoc,
      List.singleton_append]

theorem feed_data {s : List Char} (h : ∀ c ∈ s, c ≠ '<') (raw : List Char) (d : Draft)
    (os : List OpenElement) :
    feed ⟨.data raw, d, os⟩ s = some ⟨.data (raw ++ s), d, os⟩ :=
  feed_gather .data (fun _ _ hc => by rw [step, if_neg hc]) h raw

theorem feed_openingName {s : List Char} (h : ∀ c ∈ s, c.isAlphanum = true) (name : List Char)
    (d : Draft) (os : List OpenElement) :
    feed ⟨.openingName name, d, os⟩ s = some ⟨.openingName (name ++ s), d, os⟩ :=
  feed_gather .openingName (fun _ _ hc => by rw [step, if_pos hc]) h name

theorem feed_closingName {s : List Char} (h : ∀ c ∈ s, c.isAlphanum = true) (name : List Char)
    (d : Draft) (os : List OpenElement) :
    feed ⟨.closingName name, d, os⟩ s = some ⟨.closingName (name ++ s), d, os⟩ :=
  feed_gather .closingName (fun _ _ hc => by rw [step, if_pos hc]) h name

theorem feed_key {s : List Char} (h : ∀ c ∈ s, isKeyChar c = true) (tag : String)
    (attrs : List ReadAttribute) (key : List Char) (d : Draft) (os : List OpenElement) :
    feed ⟨.key tag attrs key, d, os⟩ s = some ⟨.key tag attrs (key ++ s), d, os⟩ :=
  feed_gather (.key tag attrs) (fun _ _ hc => by rw [step, if_pos hc]) h key

theorem feed_value {s : List Char} (h : ∀ c ∈ s, c ≠ '"') (tag : String)
    (attrs : List ReadAttribute) (key raw : List Char) (d : Draft) (os : List OpenElement) :
    feed ⟨.value tag attrs key raw, d, os⟩ s = some ⟨.value tag attrs key (raw ++ s), d, os⟩ :=
  feed_gather (.value tag attrs key) (fun _ _ hc => by rw [step, if_neg hc]) h raw

/-! ### Reading tags -/

/-- The reader has read an opening tag up to and including these attributes. -/
def Within (r : MarkupReader) (d : Draft) (os : List OpenElement) (tag : String)
    (attrs : List ReadAttribute) : Prop :=
  ∀ c, c = ' ' ∨ c = '>' ∨ c = '/' → r.step c = inTag d os tag attrs c

theorem within_openingName {name : List Char} (d : Draft) (os : List OpenElement) :
    Within ⟨.openingName name, d, os⟩ d os (String.ofList name) [] := by
  rintro c (rfl | rfl | rfl) <;> rfl

theorem within_afterValue (tag : String) (attrs : List ReadAttribute) (d : Draft)
    (os : List OpenElement) : Within ⟨.afterValue tag attrs, d, os⟩ d os tag attrs :=
  fun _ _ => rfl

theorem within_key {key : List Char} (h : key ≠ []) (tag : String) (attrs : List ReadAttribute)
    (d : Draft) (os : List OpenElement) :
    Within ⟨.key tag attrs key, d, os⟩ d os tag (attrs ++ [(String.ofList key, none)]) := by
  have hkey : key.isEmpty = false := by simpa using h
  rintro c (rfl | rfl | rfl) <;> simp [step, isKeyChar, keyEnds, hkey]

/-- The end of an opening tag. -/
theorem Within.close {r : MarkupReader} {d : Draft} {os : List OpenElement} {tag : String}
    {attrs : List ReadAttribute} (h : Within r d os tag attrs) (hvoid : Node.isVoidTag tag = false) :
    r.feed ['>'] = some ⟨.data [], {}, ⟨tag, attrs, d⟩ :: os⟩ := by
  rw [feed_cons, h '>' (.inr (.inl rfl))]
  simp [inTag, enter, hvoid, feed_nil]

/-- The end of the tag of a void element. -/
theorem Within.closeVoid {r : MarkupReader} {d : Draft} {os : List OpenElement} {tag : String}
    {attrs : List ReadAttribute} (h : Within r d os tag attrs) (hvoid : Node.isVoidTag tag = true) :
    r.feed ['/', '>'] = some ⟨.data [], d.add (.element tag attrs []), os⟩ := by
  rw [feed_cons, h '/' (.inr (.inr rfl))]
  simp [inTag, feed_cons, step, enter, hvoid, feed_nil]

end MarkupReader

/-- The content of markup, if it can be read. -/
def readMarkup (s : String) : Option (List Content) :=
  (MarkupReader.feed {} s.toList).bind MarkupReader.result?

end PageTree

/-
  PageTree/Proofs/Script/Execution.lean
  =====================================
  **Running statements on a live page.**

  A live page holds its elements in the order of their creation, each with its
  tag, its attributes and its children; a child that is an element is known by
  its address, the place in that order.  Statements name elements by variables.
  `LivePage.execute` runs one statement and refuses what a live document would
  report as an error: a variable that is not declared, or declared twice, a tag
  or a key that the document does not accept as a name, an element that is placed
  into itself.  Elements are placed only once and before they have children, so no
  check for cycles is needed beyond this.  Behaviours and contributed code do more
  than build a page and are refused as well.  The statements have a scope to
  themselves: only their root is declared there.

  Which names a document accepts has changed over time, so `NameRules` says what
  all documents have in common; `NameRules.standard` are the rules of the present
  standard.

  What a list of children shows is read off the page by `LivePage.Shows`.  The
  relation looks only at addresses from a lower bound on, so it survives every
  change below that bound (`Shows.frame`); this is what keeps finished subtrees
  intact while the rest of the page is built.
-/
import PageTree.Proofs.Content
import PageTree.Proofs.Markup.Reading
import PageTree.Script.Statement

namespace PageTree

inductive LiveChild where
  | text (s : String)
  | comment (s : String)
  | element (address : Nat)

structure LiveElement where
  tag : String
  attrs : OrderedMap String := ∅
  children : List LiveChild := []
  /-- Whether the element is the child of another. -/
  placed : Bool := false

namespace LiveElement

def add (e : LiveElement) (ks : List LiveChild) : LiveElement :=
  { e with children := e.children ++ ks }

def set (e : LiveElement) (as : List (String × String)) : LiveElement :=
  { e with attrs := as.foldl (fun m a => m.insert a.1 a.2) e.attrs }

/-- The attributes in the order they were set. -/
def shown (e : LiveElement) : List (String × Option String) :=
  e.attrs.entries.map fun (key, value) => (key, some value)

theorem add_nil (e : LiveElement) : e.add [] = e := by
  simp [add]

theorem add_add (e : LiveElement) (ks ls : List LiveChild) :
    (e.add ks).add ls = e.add (ks ++ ls) := by
  simp [add, List.append_assoc]

theorem set_set (e : LiveElement) (as bs : List (String × String)) :
    (e.set as).set bs = e.set (as ++ bs) := by
  simp [set, List.foldl_append]

end LiveElement

/-- A live page and the variables that name its elements. -/
structure LivePage where
  elements : List LiveElement
  names : List (String × Nat)

/-- The variables a statement uses. -/
def Statement.uses : Statement → List String
  | create _ _ => []
  | setAttribute var _ _ => [var]
  | setClass var _ => [var]
  | setId var _ => [var]
  | attach var _ => [var]
  | attachLater var _ => [var]
  | append parent child => [parent, child]
  | appendText parent _ => [parent]
  | appendComment parent _ => [parent]
  | code _ => []

/-! ### Names that a document accepts -/

/-- A letter with letters and digits behind it. -/
structure IsPlainName (name : String) : Prop where
  head : name.toList.head?.any Char.isAlpha = true
  alphanum : ∀ c ∈ name.toList, c.isAlphanum = true

/-- Which names a live document accepts for elements and for attributes.  Every document
    accepts plain names.  None accepts a tag that begins with a digit, an empty key,
    or a key with a character that would end it in markup. -/
structure NameRules where
  isTag : String → Bool
  isAttribute : String → Bool
  plainTag : ∀ {tag}, IsPlainName tag → isTag tag = true
  plainAttribute : ∀ {key}, IsPlainName key → isAttribute key = true
  digitTag : ∀ {tag : String}, tag.toList.head?.any Char.isDigit = true → isTag tag = false
  attributeName : ∀ {key}, isAttribute key = true →
    key ≠ "" ∧ ∀ c ∈ key.toList, isKeyChar c = true

namespace NameRules

/-- The characters that no tag holds. -/
def tagEnds : List Char := [' ', '\t', '\n', '\x0c', '\r', '\x00', '/', '>']

/-- Whether a tag that has no letter in front may begin with a character. -/
def isTagStart (c : Char) : Bool := [':', '_'].contains c || decide (128 ≤ c.toNat)

/-- Whether a character may stand in a tag that has no letter in front. -/
def isTagPart (c : Char) : Bool := isTagStart c || c.isAlphanum || ['-', '.'].contains c

def isStandardTag (tag : String) : Bool :=
  match tag.toList with
  | [] => false
  | c :: cs =>
    if c.isAlpha then cs.all fun d => !tagEnds.contains d else isTagStart c && cs.all isTagPart

def isStandardAttribute (key : String) : Bool :=
  !key.isEmpty && key.toList.all fun c => isKeyChar c && c != '\x00'

theorem not_mem_of_isAlphanum {c : Char} (h : c.isAlphanum = true) {signs : List Char}
    (none : signs.all (fun s => !s.isAlphanum) = true) : c ∉ signs := by
  intro mem
  have sign := List.all_eq_true.1 none c mem
  rw [h] at sign
  exact Bool.noConfusion sign

theorem isStandardTag_of_plain {tag : String} (h : IsPlainName tag) : isStandardTag tag = true := by
  obtain ⟨head, alphanum⟩ := h
  unfold isStandardTag
  cases spelled : tag.toList with
  | nil => simp [spelled] at head
  | cons c cs =>
    rw [spelled] at head alphanum
    have letter : c.isAlpha = true := head
    have inner : ∀ d ∈ cs, d ∉ tagEnds := fun d mem =>
      not_mem_of_isAlphanum (alphanum d (List.mem_cons_of_mem c mem)) (by decide)
    simpa [letter] using inner

theorem isStandardAttribute_of_plain {key : String} (h : IsPlainName key) :
    isStandardAttribute key = true := by
  have nonempty : key ≠ "" := by
    rintro rfl
    exact absurd h.head (by decide)
  have inner : ∀ c ∈ key.toList, isKeyChar c = true ∧ c ≠ '\x00' := by
    intro c mem
    have apart : c ∉ '\x00' :: keyEnds := not_mem_of_isAlphanum (h.alphanum c mem) (by decide)
    simpa [isKeyChar, and_comm] using apart
  simpa [isStandardAttribute, nonempty] using inner

theorem isStandardTag_of_digit {tag : String} (h : tag.toList.head?.any Char.isDigit = true) :
    isStandardTag tag = false := by
  unfold isStandardTag
  cases spelled : tag.toList with
  | nil => rfl
  | cons c cs =>
    rw [spelled] at h
    have digit : c.isDigit = true := h
    have bounds : 48 ≤ c.toNat ∧ c.toNat ≤ 57 := by
      simpa [Char.isDigit, UInt32.le_iff_toNat_le] using digit
    have letter : c.isAlpha = false := by
      simp only [Char.isAlpha, Char.isUpper, Char.isLower, UInt32.le_iff_toNat_le, ge_iff_le,
        Bool.or_eq_false_iff, decide_eq_false_iff_not, Bool.and_eq_false_iff]
      have e1 : 'A'.val.toNat = 65 := rfl
      have e2 : 'a'.val.toNat = 97 := rfl
      have val : c.val.toNat = c.toNat := rfl
      omega
    have start : isTagStart c = false := by
      have signs : c ∉ [':', '_'] := not_mem_of_isAlphanum (by simp [Char.isAlphanum, digit])
        (by decide)
      have low : ¬ 128 ≤ c.toNat := by omega
      simpa [isTagStart, low] using signs
    simp [letter, start]

/-- The rules of the present standard. -/
def standard : NameRules where
  isTag := isStandardTag
  isAttribute := isStandardAttribute
  plainTag := isStandardTag_of_plain
  plainAttribute := isStandardAttribute_of_plain
  digitTag := isStandardTag_of_digit
  attributeName := by
    intro key accepted
    simp only [isStandardAttribute, Bool.and_eq_true, List.all_eq_true] at accepted
    exact ⟨by simpa using accepted.1, fun c mem => (accepted.2 c mem).1⟩

end NameRules

namespace LivePage

/-- The page that holds nothing but its root. -/
def ofRoot : RootDeclaration → LivePage
  | .fragment name => ⟨[{ tag := "#document-fragment" }], [(name, 0)]⟩
  | .element name tag => ⟨[{ tag := tag.map Char.toLower }], [(name, 0)]⟩

/-- Creates the root, unless it is an element whose tag is not accepted. -/
def start? (rules : NameRules) (root : RootDeclaration) : Option LivePage :=
  match root with
  | .fragment _ => some (ofRoot root)
  | .element _ tag => if rules.isTag tag then some (ofRoot root) else none

def address? (p : LivePage) (var : String) : Option Nat := p.names.lookup var

def modify (p : LivePage) (a : Nat) (f : LiveElement → LiveElement) : LivePage :=
  { p with elements := p.elements.modify a f }

/-- Changes the element a variable stands for. -/
def change (p : LivePage) (var : String) (f : LiveElement → LiveElement) : Option LivePage :=
  (p.address? var).map fun a => p.modify a f

/-- Creates an element and names it. -/
def create (p : LivePage) (var tag : String) : LivePage :=
  { elements := p.elements ++ [{ tag := tag.map Char.toLower }],
    names := p.names ++ [(var, p.elements.length)] }

/-- Makes one element the last child of another. -/
def place (p : LivePage) (a b : Nat) : LivePage :=
  (p.modify a (·.add [.element b])).modify b ({ · with placed := true })

/-- Whether an element may become a child of another one. -/
def mayPlace (p : LivePage) (a b : Nat) : Bool :=
  a != b && p.elements[b]?.any fun e => !e.placed && e.children.isEmpty

/-- Runs a statement; `none` is an error. -/
def execute (rules : NameRules) (p : LivePage) : Statement → Option LivePage
  | .create var tag =>
    if rules.isTag tag && (p.address? var).isNone then some (p.create var tag) else none
  | .setAttribute var key value =>
    if rules.isAttribute key then p.change var (·.set [(key.map Char.toLower, value)]) else none
  | .setClass var value => p.change var (·.set [("class", value)])
  | .setId var id => p.change var (·.set [("id", id)])
  | .append parent child =>
    (p.address? parent).bind fun a => (p.address? child).bind fun b =>
      if p.mayPlace a b then some (p.place a b) else none
  | .appendText parent s => p.change parent (·.add [.text s])
  | .appendComment parent s => p.change parent (·.add [.comment s])
  | .attach _ _ => none
  | .attachLater _ _ => none
  | .code _ => none

def run (rules : NameRules) (p : LivePage) (ss : List Statement) : Option LivePage :=
  ss.foldlM (execute rules) p

/-- Creates the root and runs the statements. -/
def build? (rules : NameRules) (root : RootDeclaration) (ss : List Statement) : Option LivePage :=
  (start? rules root).bind (run rules · ss)

section Run

variable {rules : NameRules} (p : LivePage)

theorem run_nil : p.run rules [] = some p := rfl

theorem run_cons (s : Statement) (ss : List Statement) :
    p.run rules (s :: ss) = (p.execute rules s).bind (run rules · ss) := List.foldlM_cons

theorem run_append (ss ts : List Statement) :
    p.run rules (ss ++ ts) = (p.run rules ss).bind (run rules · ts) := List.foldlM_append

theorem run_append_of_run {p q : LivePage} {ss : List Statement} (h : p.run rules ss = some q)
    (ts : List Statement) : p.run rules (ss ++ ts) = q.run rules ts := by
  rw [run_append, h, Option.bind_some]

/-- Statements do not run if one of them runs nowhere. -/
theorem run_eq_none_of_mem {s : Statement} (h : ∀ p : LivePage, p.execute rules s = none)
    {ss : List Statement} (hmem : s ∈ ss) : p.run rules ss = none := by
  induction ss generalizing p with
  | nil => exact absurd hmem List.not_mem_nil
  | cons t ss ih =>
    rw [run_cons]
    rcases List.mem_cons.1 hmem with rfl | hmem
    · rw [h, Option.bind_none]
    · rw [Option.bind_eq_none_iff]
      exact fun q _ => ih q hmem

theorem build?_eq_none_of_mem {s : Statement} (h : ∀ p : LivePage, p.execute rules s = none)
    {ss : List Statement} (hmem : s ∈ ss) (root : RootDeclaration) :
    build? rules root ss = none := by
  rw [build?, Option.bind_eq_none_iff]
  exact fun p _ => run_eq_none_of_mem p h hmem

end Run

/-! ### Names -/

theorem address?_modify (p : LivePage) (a : Nat) (f : LiveElement → LiveElement) (var : String) :
    (p.modify a f).address? var = p.address? var := rfl

theorem address?_create_self {p : LivePage} {var : String} (h : p.address? var = none)
    (tag : String) : (p.create var tag).address? var = some p.elements.length := by
  unfold address? at h ⊢
  rw [create, List.lookup_append, h]
  simp [List.lookup]

theorem address?_create_of_ne {p : LivePage} {var other : String} (h : other ≠ var)
    (tag : String) : (p.create var tag).address? other = p.address? other := by
  have hne : (other == var) = false := by simpa using h
  unfold address?
  rw [create, List.lookup_append]
  simp [List.lookup, hne]

/-! ### Elements -/

theorem getElem?_modify_self (p : LivePage) (a : Nat) (f : LiveElement → LiveElement) :
    (p.modify a f).elements[a]? = p.elements[a]?.map f := by
  simp [modify]

theorem getElem?_modify_of_ne {p : LivePage} {a i : Nat} (h : i ≠ a)
    (f : LiveElement → LiveElement) : (p.modify a f).elements[i]? = p.elements[i]? := by
  simp [modify, List.getElem?_modify_ne _ _ (Ne.symm h)]

theorem length_modify (p : LivePage) (a : Nat) (f : LiveElement → LiveElement) :
    (p.modify a f).elements.length = p.elements.length := by
  simp [modify]

theorem modify_modify (p : LivePage) (a : Nat) (f g : LiveElement → LiveElement) :
    (p.modify a f).modify a g = p.modify a (fun e => g (f e)) := by
  simp [modify, List.modify_modify_eq, Function.comp_def]

/-! ### Declarations -/

section Declarations

variable {rules : NameRules}

/-- A variable is declared by the statement that creates its element. -/
theorem isSome_address?_of_execute {p q : LivePage} {s : Statement}
    (h : p.execute rules s = some q) {var : String} (hvar : (q.address? var).isSome) :
    (p.address? var).isSome ∨ ∃ tag, s = .create var tag := by
  have hchange : ∀ {other : String} {f : LiveElement → LiveElement},
      p.change other f = some q → (p.address? var).isSome := by
    intro other f hc
    obtain ⟨a, -, rfl⟩ := Option.map_eq_some_iff.1 hc
    exact hvar
  cases s with
  | create other tag =>
    rw [execute] at h
    split at h
    · obtain rfl := Option.some.inj h
      by_cases hother : var = other
      · exact .inr ⟨tag, by rw [hother]⟩
      · exact .inl (by rwa [address?_create_of_ne hother] at hvar)
    · exact absurd h (by simp)
  | setAttribute other key value =>
    rw [execute] at h
    split at h
    · exact .inl (hchange h)
    · exact absurd h (by simp)
  | setClass other value => exact .inl (hchange h)
  | setId other id => exact .inl (hchange h)
  | append parent child =>
    rw [execute] at h
    obtain ⟨a, -, h⟩ := Option.bind_eq_some_iff.1 h
    obtain ⟨b, -, h⟩ := Option.bind_eq_some_iff.1 h
    split at h
    · obtain rfl := Option.some.inj h
      exact .inl hvar
    · exact absurd h (by simp)
  | appendText parent t => exact .inl (hchange h)
  | appendComment parent t => exact .inl (hchange h)
  | attach other b => exact absurd h (by simp [execute])
  | attachLater other b => exact absurd h (by simp [execute])
  | code source => exact absurd h (by simp [execute])

/-- A statement runs only if all its variables are declared. -/
theorem isSome_address?_of_mem_uses {p q : LivePage} {s : Statement}
    (h : p.execute rules s = some q) {var : String} (hvar : var ∈ s.uses) :
    (p.address? var).isSome := by
  have hchange : ∀ {other : String} {f : LiveElement → LiveElement},
      p.change other f = some q → var ∈ [other] → (p.address? var).isSome := by
    intro other f hc hmem
    obtain ⟨a, ha, -⟩ := Option.map_eq_some_iff.1 hc
    rw [List.mem_singleton.1 hmem, ha]
    rfl
  cases s with
  | create other tag => exact absurd hvar List.not_mem_nil
  | setAttribute other key value =>
    rw [execute] at h
    split at h
    · exact hchange h hvar
    · exact absurd h (by simp)
  | setClass other value => exact hchange h hvar
  | setId other id => exact hchange h hvar
  | append parent child =>
    rw [execute] at h
    obtain ⟨a, ha, h⟩ := Option.bind_eq_some_iff.1 h
    obtain ⟨b, hb, -⟩ := Option.bind_eq_some_iff.1 h
    rcases List.mem_cons.1 hvar with rfl | hvar
    · rw [ha]
      rfl
    · rw [List.mem_singleton.1 hvar, hb]
      rfl
  | appendText parent t => exact hchange h hvar
  | appendComment parent t => exact hchange h hvar
  | attach other b => exact absurd h (by simp [execute])
  | attachLater other b => exact absurd h (by simp [execute])
  | code source => exact absurd h (by simp [execute])

/-- Where statements run, every variable has been declared before it is used. -/
theorem declared_of_run {p q : LivePage} {before after : List Statement} {s : Statement}
    (h : p.run rules (before ++ s :: after) = some q) {var : String} (hvar : var ∈ s.uses) :
    (p.address? var).isSome ∨ ∃ tag, .create var tag ∈ before := by
  induction before generalizing p with
  | nil =>
    rw [List.nil_append, run_cons] at h
    obtain ⟨p', hp', -⟩ := Option.bind_eq_some_iff.1 h
    exact .inl (isSome_address?_of_mem_uses hp' hvar)
  | cons t before ih =>
    rw [List.cons_append, run_cons] at h
    obtain ⟨p', hp', h⟩ := Option.bind_eq_some_iff.1 h
    rcases ih h with hsome | ⟨tag, hmem⟩
    · rcases isSome_address?_of_execute hp' hsome with hsome' | ⟨tag, rfl⟩
      · exact .inl hsome'
      · exact .inr ⟨tag, List.mem_cons_self⟩
    · exact .inr ⟨tag, List.mem_cons_of_mem t hmem⟩

end Declarations

/-! ### What is shown -/

/-- The children show this content; all their elements have addresses from `lo`
    on. -/
inductive Shows (p : LivePage) (lo : Nat) : List LiveChild → List Content → Prop where
  | nil : Shows p lo [] []
  | text {s : String} {ks : List LiveChild} {cs : List Content} (h : Shows p lo ks cs) :
      Shows p lo (.text s :: ks) (.text s :: cs)
  | element {a : Nat} {e : LiveElement} {ks : List LiveChild} {cs inner : List Content}
      (hlo : lo ≤ a) (he : p.elements[a]? = some e) (hinner : Shows p lo e.children inner)
      (h : Shows p lo ks cs) :
      Shows p lo (.element a :: ks) (.element e.tag e.shown (Content.tidy inner) :: cs)

namespace Shows

variable {p q : LivePage} {lo : Nat} {ks ls : List LiveChild} {cs ds : List Content}

theorem mono {lo' : Nat} (h : Shows p lo ks cs) (hle : lo' ≤ lo) : Shows p lo' ks cs := by
  induction h with
  | nil => exact .nil
  | text _ ih => exact .text ih
  | element hlo he _ _ ihinner ih => exact .element (Nat.le_trans hle hlo) he ihinner ih

/-- What happens below the bound does not matter. -/
theorem frame (h : Shows p lo ks cs)
    (hsame : ∀ i, lo ≤ i → i < p.elements.length → q.elements[i]? = p.elements[i]?) :
    Shows q lo ks cs := by
  induction h with
  | nil => exact .nil
  | text _ ih => exact .text ih
  | element hlo he _ _ ihinner ih =>
    have hlt := (List.getElem?_eq_some_iff.1 he).1
    exact .element hlo (by rw [hsame _ hlo hlt, he]) ihinner ih

theorem append (hk : Shows p lo ks cs) (hl : Shows p lo ls ds) :
    Shows p lo (ks ++ ls) (cs ++ ds) := by
  induction hk with
  | nil => exact hl
  | text _ ih => exact .text ih
  | element hlo he hinner _ _ ih => exact .element hlo he hinner ih

/-- Children show one content. -/
theorem unique (h : Shows p lo ks cs) {lo' : Nat} (h' : Shows p lo' ks ds) : cs = ds := by
  induction h generalizing ds with
  | nil =>
    cases h'
    rfl
  | text _ ih =>
    cases h' with
    | text h' => rw [ih h']
  | element _ he _ _ ihinner ih =>
    cases h' with
    | element _ he' hinner' h' =>
      rw [he] at he'
      obtain rfl := Option.some.inj he'
      rw [ihinner hinner', ih h']

end Shows

/-- The page has this content under its root. -/
def Displays (p : LivePage) (forest : List Content) : Prop :=
  ∃ root cs, p.elements[0]? = some root ∧ p.Shows 0 root.children cs ∧ Content.tidy cs = forest

theorem Displays.unique {p : LivePage} {forest forest' : List Content} (h : p.Displays forest)
    (h' : p.Displays forest') : forest = forest' := by
  obtain ⟨root, cs, hroot, hshows, rfl⟩ := h
  obtain ⟨root', cs', hroot', hshows', rfl⟩ := h'
  rw [hroot] at hroot'
  obtain rfl := Option.some.inj hroot'
  rw [hshows.unique hshows']

end LivePage

end PageTree

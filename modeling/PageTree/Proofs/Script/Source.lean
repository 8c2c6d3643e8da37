/-
  PageTree/Proofs/Script/Source.lean
  ==================================
  **The text of generated code reads back as its statements.**

  `CodeReader.read?` reads the source of generated code: the declaration of the
  root, then a block with one statement a line.  It knows the forms that build a
  page and no others.  Names are identifiers and no words of the language; which
  characters beyond ASCII stand in identifiers is left open (`Letters`).  String
  literals are read with the escapes of structured data, which are escapes of
  scripts as well.  What `codeText` writes for statements of these forms reads back
  as the same root and the same statements (`read?_codeText`), so running the text
  and running the statements is the same thing.
-/
import PageTree.Json.Reader
import PageTree.Proofs.Identifiers
import PageTree.Proofs.Script.Building

namespace PageTree

open Text

/-! ### String literals -/

namespace Escape

theorem guardClosing_cons {c : Char} (h : c ≠ '<') (cs : List Char) :
    guardClosing (c :: cs) = c :: guardClosing cs := by
  rw [guardClosing.eq_def]
  split <;> simp_all

theorem guardClosing_append {s : List Char} (h : ∀ c ∈ s, c ≠ '<') (t : List Char) :
    guardClosing (s ++ t) = s ++ guardClosing t := by
  induction s with
  | nil => rfl
  | cons c cs ih =>
    rw [List.cons_append, guardClosing_cons (h c List.mem_cons_self),
      ih fun x hx => h x (List.mem_cons_of_mem c hx), List.cons_append]

theorem guardClosing_lt {s : List Char} (h : ∀ t, s ≠ '/' :: t) :
    guardClosing ('<' :: s) = '<' :: guardClosing s := by
  rw [guardClosing.eq_def]
  split
  · next heq => exact absurd (List.cons.inj heq).2 (h _)
  · next heq =>
    obtain ⟨rfl, rfl⟩ := List.cons.inj heq
    rfl
  · next heq => exact absurd heq (by simp)

end Escape

namespace Json

theorem escape?_control {c : Char} (h : c.toNat < 32) (tail : List Char) :
    escape? ('u' :: '0' :: '0' :: hexDigit (c.toNat / 16) :: hexDigit (c.toNat % 16) :: tail) =
      some (c, tail) := by
  have hdigits : ∀ n < 32, Number.hexDigit? (hexDigit (n / 16)) = some (n / 16) ∧
      Number.hexDigit? (hexDigit (n % 16)) = some (n % 16) := by decide
  obtain ⟨hhigh, hlow⟩ := hdigits c.toNat h
  have hzero : Number.hexDigit? '0' = some 0 := by decide
  have hhex : hex4? ('0' :: '0' :: hexDigit (c.toNat / 16) :: hexDigit (c.toNat % 16) :: tail) =
      some (c.toNat, tail) := by
    have hvalue : Number.ofDigits 16 [0, 0, c.toNat / 16, c.toNat % 16] = c.toNat := by
      simp only [Number.ofDigits, List.foldl_cons, List.foldl_nil]
      omega
    rw [hex4?, hzero, hhigh, hlow]
    exact congrArg (fun n => some (n, tail)) hvalue
  have hlow' : ¬ 0xDC00 ≤ c.toNat := by omega
  have hhigh' : ¬ 0xD800 ≤ c.toNat := by omega
  rw [escape?, hhex]
  simp [hlow', hhigh']

/-- A quoted character stands for itself or is an escape that reads as it. -/
theorem quoteChar_cases (c : Char) :
    (quoteChar c = [c] ∧ c ≠ '"' ∧ c ≠ '\\' ∧ ¬ c.toNat < 32) ∨
      ∃ s, quoteChar c = '\\' :: s ∧ (∀ x ∈ s, x ≠ '<') ∧
        ∀ tail, escape? (s ++ tail) = some (c, tail) := by
  by_cases h₁ : c = '"'
  · subst h₁; exact .inr ⟨['"'], rfl, forall_mem_of_all (by decide), fun _ => rfl⟩
  by_cases h₂ : c = '\\'
  · subst h₂; exact .inr ⟨['\\'], rfl, forall_mem_of_all (by decide), fun _ => rfl⟩
  by_cases h₃ : c = '\x08'
  · subst h₃; exact .inr ⟨['b'], rfl, forall_mem_of_all (by decide), fun _ => rfl⟩
  by_cases h₄ : c = '\x0c'
  · subst h₄; exact .inr ⟨['f'], rfl, forall_mem_of_all (by decide), fun _ => rfl⟩
  by_cases h₅ : c = '\n'
  · subst h₅; exact .inr ⟨['n'], rfl, forall_mem_of_all (by decide), fun _ => rfl⟩
  by_cases h₆ : c = '\r'
  · subst h₆; exact .inr ⟨['r'], rfl, forall_mem_of_all (by decide), fun _ => rfl⟩
  by_cases h₇ : c = '\t'
  · subst h₇; exact .inr ⟨['t'], rfl, forall_mem_of_all (by decide), fun _ => rfl⟩
  by_cases h₈ : c.toNat < 32
  · have hhex : ∀ n < 32, ['u', '0', '0', hexDigit (n / 16), hexDigit (n % 16)].all
        (fun x => decide (x ≠ '<')) = true := by decide
    refine .inr ⟨_, ?_, forall_mem_of_all (hhex c.toNat h₈), escape?_control h₈⟩
    simp [quoteChar, h₁, h₂, h₃, h₄, h₅, h₆, h₇, h₈]
  · refine .inl ⟨?_, h₁, h₂, h₈⟩
    simp [quoteChar, h₁, h₂, h₃, h₄, h₅, h₆, h₇, h₈]

/-- A quoted character reads as itself. -/
theorem readQuoted_quoteChar (fuel : Nat) (c : Char) (tail : List Char) :
    readQuoted (fuel + 1) (quoteChar c ++ tail) =
      (readQuoted fuel tail).bind fun (s, rest) => some (c :: s, rest) := by
  rcases quoteChar_cases c with ⟨hquote, hquotes, hbackslash, hcontrol⟩ | ⟨s, hquote, -, hescape⟩
  · rw [hquote, List.singleton_append, readQuoted, if_neg (by simpa using hquotes),
      if_neg (by simpa using hbackslash), if_neg hcontrol]
    rfl
  · rw [hquote, List.cons_append, readQuoted, if_neg (by decide), if_pos (by decide), hescape]
    rfl

/-- Only the opening angle bracket itself is quoted with one. -/
theorem ne_of_mem_quoteChar {c x : Char} (hc : c ≠ '<') (h : x ∈ quoteChar c) : x ≠ '<' := by
  rcases quoteChar_cases c with ⟨hquote, -⟩ | ⟨s, hquote, hs, -⟩
  · rw [hquote, List.mem_singleton] at h
    rw [h]
    exact hc
  · rw [hquote] at h
    rcases List.mem_cons.1 h with rfl | h
    · decide
    · exact hs x h

theorem quoted_head {s : List Char} (h : ∀ t, s ≠ '/' :: t) (t : List Char) :
    s.flatMap quoteChar ++ ['"'] ≠ '/' :: t := by
  intro heq
  rcases s with _ | ⟨c, cs⟩
  · exact absurd (List.cons.inj heq).1 (by decide)
  · rw [List.flatMap_cons] at heq
    rcases quoteChar_cases c with ⟨hquote, -⟩ | ⟨s, hquote, -⟩
    · rw [hquote] at heq
      exact h cs (congrArg (· :: cs) (List.cons.inj heq).1)
    · rw [hquote] at heq
      exact absurd (List.cons.inj heq).1 (by decide)

/-- Guarding changes a quoted text only where a slash follows an opening angle
    bracket. -/
theorem guardClosing_quoted {c : Char} {cs : List Char} (h : ¬ (c = '<' ∧ ∃ ds, cs = '/' :: ds)) :
    Escape.guardClosing ((c :: cs).flatMap quoteChar ++ ['"']) =
      quoteChar c ++ Escape.guardClosing (cs.flatMap quoteChar ++ ['"']) := by
  rw [List.flatMap_cons, List.append_assoc]
  by_cases hc : c = '<'
  · subst hc
    exact Escape.guardClosing_lt (quoted_head fun t ht => h ⟨rfl, t, ht⟩)
  · exact Escape.guardClosing_append (fun x hx => ne_of_mem_quoteChar hc hx) _

/-- **A guarded string literal reads as its text.** -/
theorem readQuoted_guardClosing (s rest : List Char) (fuel : Nat) (h : s.length < fuel) :
    readQuoted fuel (Escape.guardClosing (s.flatMap quoteChar ++ ['"']) ++ rest) =
      some (s, rest) := by
  obtain ⟨fuel, rfl⟩ : ∃ m, fuel = m + 1 := ⟨fuel - 1, by omega⟩
  rcases s with _ | ⟨c, cs⟩
  · rfl
  rw [List.length_cons] at h
  by_cases hslash : c = '<' ∧ ∃ ds, cs = '/' :: ds
  · -- the slash is guarded by a backslash, which escapes it
    obtain ⟨rfl, ds, rfl⟩ := hslash
    rw [List.length_cons] at h
    obtain ⟨fuel, rfl⟩ : ∃ m, fuel = m + 1 := ⟨fuel - 1, by omega⟩
    have ih := readQuoted_guardClosing ds rest fuel (by omega)
    have hguard : Escape.guardClosing (('<' :: '/' :: ds).flatMap quoteChar ++ ['"']) =
        quoteChar '<' ++ '\\' :: '/' :: Escape.guardClosing (ds.flatMap quoteChar ++ ['"']) := rfl
    have hescape : ∀ tail, readQuoted (fuel + 1) ('\\' :: '/' :: tail) =
        (readQuoted fuel tail).bind fun (s, rest) => some ('/' :: s, rest) := by
      intro tail
      rw [readQuoted, if_neg (by decide), if_pos (by decide)]
      rfl
    rw [hguard, List.append_assoc, readQuoted_quoteChar, List.cons_append, List.cons_append, hescape,
      ih, Option.bind_some, Option.bind_some]
  · rw [guardClosing_quoted hslash, List.append_assoc, readQuoted_quoteChar,
      readQuoted_guardClosing cs rest fuel (by omega), Option.bind_some]

end Json

/-! ### Reading code -/

/-- The characters beyond ASCII that identifiers may begin with, and those that they
    may go on with besides. -/
structure Letters where
  start : Char → Bool
  part : Char → Bool

/-- The words that a script cannot declare, those of strict code included. -/
def reservedWords : List String :=
  ["arguments", "await", "break", "case", "catch", "class", "const", "continue", "debugger",
    "default", "delete", "do", "else", "enum", "eval", "export", "extends", "false", "finally",
    "for", "function", "if", "implements", "import", "in", "instanceof", "interface", "let", "new",
    "null", "package", "private", "protected", "public", "return", "static", "super", "switch",
    "this", "throw", "true", "try", "typeof", "var", "void", "while", "with", "yield"]

namespace Letters

variable (l : Letters)

def isStart (c : Char) : Bool := if c.toNat < 128 then isIdentStart c else l.start c

def isPart (c : Char) : Bool := l.isStart c || if c.toNat < 128 then c.isDigit else l.part c

/-- The identifier at the front of a text, empty if there is none. -/
def identifier : List Char → List Char
  | [] => []
  | c :: cs => if l.isStart c then c :: cs.takeWhile l.isPart else []

structure IsIdentifier (name : String) : Prop where
  head : ∃ c cs, name.toList = c :: cs ∧ l.isStart c = true
  parts : ∀ c ∈ name.toList, l.isPart c = true

/-- A name that code can give to an element; the document keeps its own. -/
structure IsName (name : String) : Prop extends l.IsIdentifier name where
  unreserved : name ∉ reservedWords
  notDocument : name ≠ "document"

variable {l}

/-- An identifier is read as a whole if no part of one follows it. -/
theorem IsIdentifier.identifier_append {name : String} (h : l.IsIdentifier name) {s : List Char}
    (ends : s.head?.any l.isPart = false) : l.identifier (name.toList ++ s) = name.toList := by
  obtain ⟨c, cs, spelled, start⟩ := h.head
  have parts : ∀ d ∈ cs, l.isPart d = true := fun d mem =>
    h.parts d (spelled ▸ List.mem_cons_of_mem c mem)
  have stops : s.takeWhile l.isPart = [] := by
    cases s with
    | nil => rfl
    | cons d ds => simpa using ends
  rw [spelled, List.cons_append, identifier, if_pos start, List.takeWhile_append_of_pos parts,
    stops, List.append_nil]

end Letters

/-- The statements the reader knows, with names that it can read. -/
def Statement.Legible (l : Letters) : Statement → Prop
  | create var _ => l.IsName var
  | setAttribute var _ _ => l.IsName var
  | setClass var _ => l.IsName var
  | setId var _ => l.IsName var
  | append parent child => l.IsName parent ∧ l.IsName child
  | appendText parent _ => l.IsName parent
  | appendComment parent _ => l.IsName parent
  | attach _ _ => False
  | attachLater _ _ => False
  | code _ => False

def RootDeclaration.name : RootDeclaration → String
  | fragment name => name
  | element name _ => name

namespace CodeReader

variable (l : Letters)

def word (w : String) (s : List Char) : Option (List Char) := dropWord w.toList s

def name? (s : List Char) : Option (String × List Char) :=
  let name := String.ofList (l.identifier s)
  if name.isEmpty || name == "document" || reservedWords.contains name then none
  else some (name, s.drop (l.identifier s).length)

def literal? : List Char → Option (String × List Char)
  | '"' :: s => (Json.readQuoted (s.length + 1) s).map fun (t, rest) => (String.ofList t, rest)
  | _ => none

/-- The rest of the creation of an element, after `const` or `var` and the name. -/
def creation? (s : List Char) : Option (String × List Char) := do
  let (tag, s) ← literal? (← word " = document.createElement(" s)
  return (tag, ← word ");" s)

def attribute? (var : String) (s : List Char) : Option (Statement × List Char) := do
  let (key, s) ← literal? (← word "setAttribute(" s)
  let (value, s) ← literal? (← word ", " s)
  return (.setAttribute var key value, ← word ");" s)

def class? (var : String) (s : List Char) : Option (Statement × List Char) := do
  let (value, s) ← literal? (← word "className = " s)
  return (.setClass var value, ← word ";" s)

def id? (var : String) (s : List Char) : Option (Statement × List Char) := do
  let (id, s) ← literal? (← word "id = " s)
  return (.setId var id, ← word ";" s)

def textNode? (var : String) (s : List Char) : Option (Statement × List Char) := do
  let (text, s) ← literal? (← word "document.createTextNode(" (← word "appendChild(" s))
  return (.appendText var text, ← word "));" s)

def comment? (var : String) (s : List Char) : Option (Statement × List Char) := do
  let (text, s) ← literal? (← word "document.createComment(" (← word "appendChild(" s))
  return (.appendComment var text, ← word "));" s)

def child? (var : String) (s : List Char) : Option (Statement × List Char) := do
  let (child, s) ← name? l (← word "appendChild(" s)
  return (.append var child, ← word ");" s)

/-- A statement about an element, after its name and a full stop. -/
def member? (var : String) (s : List Char) : Option (Statement × List Char) :=
  (attribute? var s).or ((class? var s).or ((id? var s).or ((textNode? var s).or
    ((comment? var s).or (child? l var s)))))

def statement? (s : List Char) : Option (Statement × List Char) :=
  match word "const " s with
  | some s => do
    let (var, s) ← name? l s
    let (tag, s) ← creation? s
    return (.create var tag, s)
  | none => do
    let (var, s) ← name? l s
    member? l var (← word "." s)

/-- The statements of a block, one a line, and the brace that ends it; the fuel
    bounds their number. -/
def statements? : Nat → List Char → Option (List Statement)
  | 0, _ => none
  | fuel + 1, s =>
    if s = ['\x7d'] then some []
    else do
      let (st, s) ← statement? l s
      let sts ← statements? fuel (← word "\n" s)
      return st :: sts

/-- The rest of the declaration of the root, after its name. -/
def root? (name : String) (s : List Char) : Option (RootDeclaration × List Char) :=
  ((word " = document.createDocumentFragment();" s).map ((.fragment name, ·))).or
    ((creation? s).map fun (tag, s) => (.element name tag, s))

/-- The root and the statements of a whole code. -/
def read? (code : String) : Option (RootDeclaration × List Statement) := do
  let (name, s) ← name? l (← word "var " code.toList)
  let (root, s) ← root? name s
  if s.isEmpty then return (root, [])
  let s ← word "\n\x7b\n" s
  return (root, ← statements? l s.length s)

/-! ### Reading back what is written -/

variable {l}

theorem word_append (w : String) (s : List Char) : word w (w.toList ++ s) = some s :=
  dropWord_eq_some_iff.2 rfl

/-- A word with a character that no name has is not found in a name and what
    follows it. -/
theorem dropWord_of_name {w name : List Char} {c d : Char} (hname : ∀ x ∈ name, l.isPart x = true)
    (hd : d ∈ w) (hpart : l.isPart d = false) (hc : c ∉ w) (s : List Char) :
    dropWord w (name ++ c :: s) = none := by
  rcases h : dropWord w (name ++ c :: s) with _ | rest
  · rfl
  rcases List.append_eq_append_iff.1 (dropWord_eq_some_iff.1 h) with ⟨t, ht, hrest⟩ | ⟨t, ht, -⟩
  · rcases t with _ | ⟨e, t⟩
    · rw [List.append_nil] at ht
      have hpart' := hname d (ht ▸ hd)
      rw [hpart] at hpart'
      exact Bool.noConfusion hpart'
    · obtain ⟨rfl, -⟩ := List.cons.inj hrest
      exact absurd (ht ▸ List.mem_append_right name List.mem_cons_self) hc
  · have hpart' := hname d (ht ▸ List.mem_append_left t hd)
    rw [hpart] at hpart'
    exact Bool.noConfusion hpart'

theorem name?_append {name : String} (h : l.IsName name) {s : List Char}
    (hs : s.head?.any l.isPart = false) : name? l (name.toList ++ s) = some (name, s) := by
  have hnonempty : name ≠ "" := by
    rintro rfl
    obtain ⟨c, cs, hlist, -⟩ := h.head
    exact List.cons_ne_nil c cs hlist.symm
  have hfree : ¬ (name.isEmpty || name == "document" || reservedWords.contains name) = true := by
    simp [hnonempty, h.notDocument, h.unreserved]
  unfold name?
  dsimp only
  rw [h.identifier_append hs, String.ofList_toList, if_neg hfree, List.drop_left]

theorem length_le_guardClosing (s : List Char) : s.length ≤ (Escape.guardClosing s).length := by
  induction s using Escape.guardClosing.induct with
  | case1 cs ih =>
    rw [Escape.guardClosing]
    simp only [List.length_cons]
    omega
  | case2 c cs _ ih =>
    rw [Escape.guardClosing.eq_2 _ _ (by assumption)]
    simp only [List.length_cons]
    omega
  | case3 => exact Nat.le_refl _

theorem length_le_flatMap {α : Type} {f : α → List Char} (hf : ∀ x, 1 ≤ (f x).length)
    (xs : List α) : xs.length ≤ (xs.flatMap f).length := by
  induction xs with
  | nil => exact Nat.le_refl _
  | cons x xs ih =>
    have hx := hf x
    rw [List.flatMap_cons, List.length_append, List.length_cons]
    omega

theorem one_le_length_quoteChar (c : Char) : 1 ≤ (Json.quoteChar c).length := by
  rcases Json.quoteChar_cases c with ⟨hquote, -⟩ | ⟨s, hquote, -⟩
  · rw [hquote]
    exact Nat.le_refl 1
  · rw [hquote, List.length_cons]
    omega

theorem literal?_append (t : String) (s : List Char) :
    literal? ((Escape.stringLiteral t).toList ++ s) = some (t, s) := by
  have hlist : (Escape.stringLiteral t).toList =
      '"' :: Escape.guardClosing (t.toList.flatMap Json.quoteChar ++ ['"']) := by
    rw [Escape.stringLiteral, String.toList_ofList, Json.quote,
      Escape.guardClosing_cons (by decide)]
  have hguard := length_le_guardClosing (t.toList.flatMap Json.quoteChar ++ ['"'])
  have hquote := length_le_flatMap one_le_length_quoteChar t.toList
  rw [List.length_append] at hguard
  rw [hlist, List.cons_append, literal?, Json.readQuoted_guardClosing, Option.map_some]
  · exact congrArg (fun t => some (t, s)) String.ofList_toList
  · rw [List.length_append]
    omega

theorem creation?_append (tag : String) (s : List Char) :
    creation? (" = document.createElement(".toList ++
      ((Escape.stringLiteral tag).toList ++ (");".toList ++ s))) = some (tag, s) := by
  rw [creation?, word_append]
  simp only [Option.bind_eq_bind, Option.bind_some, literal?_append, word_append]
  rfl

theorem statement?_member {var : String} (h : l.IsName var) (s : List Char) :
    statement? l (var.toList ++ (".".toList ++ s)) = member? l var s := by
  have hstop : ".".toList ++ s = '.' :: s := rfl
  have hconst : word "const " (var.toList ++ '.' :: s) = none := by
    rw [word]
    exact dropWord_of_name h.parts (by decide : ' ' ∈ "const ".toList) rfl (by decide) s
  rw [← hstop] at hconst
  rw [statement?, hconst]
  dsimp only
  rw [name?_append h (by rfl)]
  simp only [Option.bind_eq_bind, Option.bind_some, word_append]

/-! Words that begin differently exclude each other. -/

theorem word_appendChild_attribute (s : List Char) :
    word "setAttribute(" ("appendChild(".toList ++ s) = none := rfl

theorem word_appendChild_class (s : List Char) :
    word "className = " ("appendChild(".toList ++ s) = none := rfl

theorem word_appendChild_id (s : List Char) : word "id = " ("appendChild(".toList ++ s) = none := rfl

theorem member?_appendChild (var : String) (s : List Char) :
    member? l var ("appendChild(".toList ++ s) = (textNode? var ("appendChild(".toList ++ s)).or
      ((comment? var ("appendChild(".toList ++ s)).or (child? l var ("appendChild(".toList ++ s))) := by
  rw [member?, attribute?, class?, id?, word_appendChild_attribute, word_appendChild_class,
    word_appendChild_id]
  rfl

/-- **The text of a legible statement reads back as the statement.** -/
theorem statement?_text {st : Statement} (h : st.Legible l) (s : List Char) :
    statement? l (st.text.toList ++ s) = some (st, s) := by
  cases st with
  | create var tag =>
    have htext : (Statement.create var tag).text
        = "const " ++ var ++ " = document.createElement(" ++ Escape.stringLiteral tag ++ ");" := rfl
    have hlist : (Statement.create var tag).text.toList ++ s = "const ".toList ++ (var.toList ++
        (" = document.createElement(".toList ++
          ((Escape.stringLiteral tag).toList ++ (");".toList ++ s)))) := by
      simp [htext]
    rw [hlist, statement?, word_append]
    dsimp only
    rw [name?_append h (by rfl)]
    simp only [Option.bind_eq_bind, Option.bind_some, creation?_append]
    rfl
  | setAttribute var key value =>
    have htext : (Statement.setAttribute var key value).text
        = var ++ ".setAttribute(" ++ Escape.stringLiteral key ++ ", "
          ++ Escape.stringLiteral value ++ ");" := rfl
    have hlist : (Statement.setAttribute var key value).text.toList ++ s = var.toList ++
        (".".toList ++ ("setAttribute(".toList ++ ((Escape.stringLiteral key).toList ++
          (", ".toList ++ ((Escape.stringLiteral value).toList ++ (");".toList ++ s)))))) := by
      simp [htext]
    rw [hlist, statement?_member h, member?, attribute?]
    simp only [Option.bind_eq_bind, word_append, Option.bind_some, literal?_append]
    rfl
  | setClass var value =>
    have htext : (Statement.setClass var value).text
        = var ++ ".className = " ++ Escape.stringLiteral value ++ ";" := rfl
    have hlist : (Statement.setClass var value).text.toList ++ s = var.toList ++
        (".".toList ++ ("className = ".toList ++ ((Escape.stringLiteral value).toList ++
          (";".toList ++ s)))) := by
      simp [htext]
    have hattribute : ∀ t, word "setAttribute(" ("className = ".toList ++ t) = none := fun _ => rfl
    rw [hlist, statement?_member h, member?, attribute?, hattribute, class?]
    simp only [Option.bind_eq_bind, word_append, Option.bind_some, literal?_append]
    rfl
  | setId var id =>
    have htext : (Statement.setId var id).text
        = var ++ ".id = " ++ Escape.stringLiteral id ++ ";" := rfl
    have hlist : (Statement.setId var id).text.toList ++ s = var.toList ++
        (".".toList ++ ("id = ".toList ++ ((Escape.stringLiteral id).toList ++
          (";".toList ++ s)))) := by
      simp [htext]
    have hattribute : ∀ t, word "setAttribute(" ("id = ".toList ++ t) = none := fun _ => rfl
    have hclass : ∀ t, word "className = " ("id = ".toList ++ t) = none := fun _ => rfl
    rw [hlist, statement?_member h, member?, attribute?, hattribute, class?, hclass, id?]
    simp only [Option.bind_eq_bind, word_append, Option.bind_some, literal?_append]
    rfl
  | append parent child =>
    have htext : (Statement.append parent child).text
        = parent ++ ".appendChild(" ++ child ++ ");" := rfl
    have hlist : (Statement.append parent child).text.toList ++ s = parent.toList ++
        (".".toList ++ ("appendChild(".toList ++ (child.toList ++ (");".toList ++ s)))) := by
      simp [htext]
    have hparen : ");".toList ++ s = ')' :: ';' :: s := rfl
    have hnone : ∀ w : String, '.' ∈ w.toList → ')' ∉ w.toList →
        word w (child.toList ++ (");".toList ++ s)) = none := by
      intro w hstop hnot
      rw [word, hparen]
      exact dropWord_of_name h.2.parts hstop rfl hnot _
    rw [hlist, statement?_member h.1, member?_appendChild, textNode?, comment?, child?, word_append]
    simp only [Option.bind_eq_bind, Option.bind_some]
    rw [hnone _ (by decide) (by decide), hnone _ (by decide) (by decide),
      name?_append h.2 (by rfl)]
    simp only [Option.bind_some, word_append]
    rfl
  | appendText parent t =>
    have htext : (Statement.appendText parent t).text
        = parent ++ ".appendChild(document.createTextNode(" ++ Escape.stringLiteral t
          ++ "));" := rfl
    have hlist : (Statement.appendText parent t).text.toList ++ s = parent.toList ++
        (".".toList ++ ("appendChild(".toList ++ ("document.createTextNode(".toList ++
          ((Escape.stringLiteral t).toList ++ ("));".toList ++ s))))) := by
      simp [htext]
    rw [hlist, statement?_member h, member?_appendChild, textNode?]
    simp only [Option.bind_eq_bind, word_append, Option.bind_some, literal?_append]
    rfl
  | appendComment parent t =>
    have htext : (Statement.appendComment parent t).text
        = parent ++ ".appendChild(document.createComment(" ++ Escape.stringLiteral t
          ++ "));" := rfl
    have hlist : (Statement.appendComment parent t).text.toList ++ s = parent.toList ++
        (".".toList ++ ("appendChild(".toList ++ ("document.createComment(".toList ++
          ((Escape.stringLiteral t).toList ++ ("));".toList ++ s))))) := by
      simp [htext]
    have hnode : ∀ t, word "document.createTextNode(" ("document.createComment(".toList ++ t) =
        none := fun _ => rfl
    rw [hlist, statement?_member h, member?_appendChild, textNode?, word_append]
    simp only [Option.bind_eq_bind, Option.bind_some]
    rw [hnode, comment?]
    simp only [Option.bind_eq_bind, word_append, Option.bind_some, literal?_append]
    rfl
  | attach var b => exact absurd h id
  | attachLater var b => exact absurd h id
  | code source => exact absurd h id

/-- The lines of a block read back as its statements. -/
theorem statements?_lines {sts : List Statement} (h : ∀ st ∈ sts, st.Legible l) {fuel : Nat}
    (hfuel : sts.length < fuel) :
    statements? l fuel (sts.flatMap (fun st => st.text.toList ++ "\n".toList) ++ ['\x7d']) =
      some sts := by
  induction sts generalizing fuel with
  | nil =>
    obtain ⟨fuel, rfl⟩ : ∃ m, fuel = m + 1 := ⟨fuel - 1, by omega⟩
    rfl
  | cons st sts ih =>
    rw [List.length_cons] at hfuel
    obtain ⟨fuel, rfl⟩ : ∃ m, fuel = m + 1 := ⟨fuel - 1, by omega⟩
    have hmore : st.text.toList ++ ("\n".toList ++ (sts.flatMap (fun st => st.text.toList ++
        "\n".toList) ++ ['\x7d'])) ≠ ['\x7d'] := by
      intro heq
      have hmem : '\n' ∈ ['\x7d'] := by
        rw [← heq]
        exact List.mem_append_right _ List.mem_cons_self
      exact absurd hmem (by decide)
    rw [List.flatMap_cons, List.append_assoc, List.append_assoc, statements?, if_neg hmore,
      statement?_text (h st List.mem_cons_self)]
    simp only [Option.bind_eq_bind, Option.bind_some, word_append]
    rw [ih (fun x hx => h x (List.mem_cons_of_mem st hx)) (by omega)]
    rfl

theorem toList_intercalate_lines {sts : List Statement} (h : sts ≠ []) :
    (String.intercalate "\n" (sts.map (·.text))).toList ++ ("\n".toList ++ ['\x7d']) =
      sts.flatMap (fun st => st.text.toList ++ "\n".toList) ++ ['\x7d'] := by
  induction sts with
  | nil => exact absurd rfl h
  | cons st sts ih =>
    rcases sts with _ | ⟨st', sts⟩
    · simp
    · have hrest := ih (List.cons_ne_nil _ _)
      rw [List.map_cons, List.map_cons, String.intercalate_cons_cons, List.flatMap_cons,
        List.append_assoc, ← hrest]
      simp

/-- The declaration of a root is its name and what `root?` reads. -/
theorem rootDeclaration_text (l : Letters) (root : RootDeclaration) :
    ∃ rest, root.text.toList = "var ".toList ++ (root.name.toList ++ rest) ∧
      (∀ s, (rest ++ s).head?.any l.isPart = false) ∧
      ∀ s, root? root.name (rest ++ s) = some (root, s) := by
  cases root with
  | fragment name =>
    have htext : (RootDeclaration.fragment name).text =
        "var " ++ name ++ " = document.createDocumentFragment();" := rfl
    refine ⟨" = document.createDocumentFragment();".toList, ?_, fun _ => rfl, ?_⟩
    · simp [htext, RootDeclaration.name]
    · intro s
      rw [root?, word_append]
      rfl
  | element name tag =>
    have htext : (RootDeclaration.element name tag).text =
        "var " ++ name ++ " = document.createElement(" ++ Escape.stringLiteral tag ++ ");" := rfl
    refine ⟨" = document.createElement(".toList ++ ((Escape.stringLiteral tag).toList ++
      ");".toList), ?_, fun _ => rfl, ?_⟩
    · simp [htext, RootDeclaration.name]
    · intro s
      have hword : ∀ t, word " = document.createDocumentFragment();"
          (" = document.createElement(".toList ++ t) = none := fun _ => rfl
      rw [root?, List.append_assoc, hword, List.append_assoc, creation?_append]
      rfl

/-- **Generated code reads back as its root and its statements.** -/
theorem read?_codeText {root : RootDeclaration} (hroot : l.IsName root.name) {sts : List Statement}
    (h : ∀ st ∈ sts, st.Legible l) : read? l (codeText root sts) = some (root, sts) := by
  obtain ⟨rest, htext, hhead, hread⟩ := rootDeclaration_text l root
  unfold codeText
  by_cases hempty : sts = []
  · subst hempty
    have hhead' := hhead []
    have hread' := hread []
    rw [List.append_nil] at hhead' hread'
    rw [List.isEmpty_nil, if_pos rfl, read?, htext, word_append]
    simp only [Option.bind_eq_bind, Option.bind_some]
    rw [name?_append hroot hhead']
    simp only [Option.bind_some]
    rw [hread']
    rfl
  · have hlist : (root.text ++ "\n\x7b\n" ++ String.intercalate "\n" (sts.map (·.text)) ++
        "\n\x7d").toList = "var ".toList ++ (root.name.toList ++ (rest ++ ("\n\x7b\n".toList ++
          (sts.flatMap (fun st => st.text.toList ++ "\n".toList) ++ ['\x7d'])))) := by
      rw [← toList_intercalate_lines hempty]
      simp [htext]
    have hlength : sts.length ≤
        (sts.flatMap (fun st => st.text.toList ++ "\n".toList)).length :=
      length_le_flatMap (fun st => by rw [List.length_append]; simp) sts
    rw [if_neg (by simpa using hempty), read?, hlist, word_append]
    simp only [Option.bind_eq_bind, Option.bind_some]
    rw [name?_append hroot (hhead _)]
    simp only [Option.bind_some]
    rw [hread]
    simp only [Option.bind_some, word_append]
    rw [statements?_lines h]
    · rfl
    · rw [List.length_append, List.length_singleton]
      omega

/-- No code is read whose root has a name that scripts cannot declare. -/
theorem read?_codeText_of_word {root : RootDeclaration} (hroot : l.IsIdentifier root.name)
    (hword : root.name ∈ "document" :: reservedWords) (sts : List Statement) :
    read? l (codeText root sts) = none := by
  obtain ⟨rest, htext, hhead, -⟩ := rootDeclaration_text l root
  have hlist : ∃ s, (codeText root sts).toList =
      "var ".toList ++ (root.name.toList ++ (rest ++ s)) := by
    unfold codeText
    split
    · exact ⟨[], by rw [htext, List.append_nil]⟩
    · exact ⟨_, by simp only [String.toList_append, htext, List.append_assoc]; rfl⟩
  obtain ⟨s, hlist⟩ := hlist
  have hnone : name? l (root.name.toList ++ (rest ++ s)) = none := by
    unfold name?
    dsimp only
    rw [hroot.identifier_append (hhead s), String.ofList_toList, if_pos]
    rcases List.mem_cons.1 hword with hdocument | hreserved
    · simp [hdocument]
    · simp [hreserved]
  rw [read?, hlist, word_append]
  simp only [Option.bind_eq_bind, Option.bind_some, hnone, Option.bind_none]

end CodeReader

/-! ### The statements of a tree -/

section

variable {l : Letters}

theorem Letters.isPart_of_isDigit {c : Char} (h : c.isDigit = true) : l.isPart c = true := by
  have low : c.toNat < 128 := by
    have bounds : 48 ≤ c.toNat ∧ c.toNat ≤ 57 := by
      simpa [Char.isDigit, UInt32.le_iff_toNat_le] using h
    omega
  simp [isPart, low, h]

/-- A digit at the end keeps a name apart from the document and from the words of the
    language. -/
theorem Letters.IsIdentifier.isName_append {stem : String} (h : l.IsIdentifier stem) (n : Nat) :
    l.IsName (stem ++ toString n) := by
  have hdigits : (toString n).toList = Nat.toDigits 10 n := by
    simp [Nat.toString_eq_repr]
  have hisDigit : ∀ c ∈ (toString n).toList, c.isDigit = true := by
    intro c hc
    rw [hdigits] at hc
    exact Nat.isDigit_of_mem_toDigits (by decide) (by decide) hc
  have hne : (toString n).toList ≠ [] := by
    rw [hdigits]
    exact Nat.toDigits_ne_nil
  have hlast : (stem ++ toString n).toList.getLast?.any Char.isDigit = true := by
    rw [String.toList_append, List.getLast?_append, List.getLast?_eq_some_getLast hne]
    exact hisDigit _ (List.getLast_mem hne)
  have hwords : ∀ w ∈ "document" :: reservedWords,
      w.toList.getLast?.any Char.isDigit = false := by decide
  have hapart : stem ++ toString n ∉ "document" :: reservedWords := by
    intro hmem
    rw [hwords _ hmem] at hlast
    exact Bool.noConfusion hlast
  rw [List.mem_cons, not_or] at hapart
  refine ⟨⟨?_, ?_⟩, hapart.2, hapart.1⟩
  · obtain ⟨c, cs, hlist, hstart⟩ := h.head
    exact ⟨c, cs ++ (toString n).toList, by rw [String.toList_append, hlist, List.cons_append],
      hstart⟩
  · intro c hc
    rw [String.toList_append, List.mem_append] at hc
    rcases hc with hc | hc
    · exact h.parts c hc
    · exact isPart_of_isDigit (hisDigit c hc)

theorem legible_attributeStatements {var : String} (h : l.IsName var) (key : String)
    (v : AttrValue) : ∀ st ∈ attributeStatements var key v, st.Legible l := by
  intro st hst
  unfold attributeStatements defaultStatement at hst
  split at hst
  · split at hst
    · exact absurd hst List.not_mem_nil
    · rw [List.mem_singleton.1 hst]
      exact h
  · split at hst
    · rw [List.mem_singleton.1 hst]
      exact h
    · split at hst
      · exact absurd hst List.not_mem_nil
      · rw [List.mem_singleton.1 hst]
        exact h

namespace CodeWriter

variable {rules : NameRules} {w : CodeWriter} {parent : String}

theorem legible_code {var : String} (h : l.IsName var) {attrs : Attributes}
    (hattrs : attrs.Shared rules) (fresh : String) :
    ∀ st ∈ (Registry.standard.code fresh var attrs).statements, st.Legible l := by
  intro st hst
  rw [(Registry.code_plain hattrs.legible.toPlain fresh var).1] at hst
  obtain ⟨key, -, hst⟩ := List.mem_flatMap.1 hst
  unfold Attributes.statementsAt at hst
  cases hv : attrs.awaited? key with
  | none =>
    rw [hv] at hst
    exact absurd hst List.not_mem_nil
  | some v =>
    rw [hv] at hst
    exact legible_attributeStatements h key v st hst

theorem legible_textStatements (h : l.IsName parent) (s : String) :
    ∀ st ∈ textStatements parent s, st.Legible l := by
  intro st hst
  unfold textStatements at hst
  split at hst
  · exact absurd hst List.not_mem_nil
  · rw [List.mem_singleton.1 hst]
    exact h

theorem legible_walkList {ns : List Node}
    (h : ∀ n ∈ ns, ∀ k, ∀ st ∈ (w.walk parent n k).1, st.Legible l) (k : CodeCount) :
    ∀ st ∈ (w.walkList parent ns k).1, st.Legible l := by
  induction ns generalizing k with
  | nil => exact fun st hst => absurd hst List.not_mem_nil
  | cons n ns ih =>
    intro st hst
    rw [walkList] at hst
    rcases List.mem_append.1 hst with hst | hst
    · exact h n List.mem_cons_self k st hst
    · exact ih (fun m hm => h m (List.mem_cons_of_mem n hm)) _ st hst

/-- The statements of a shared tree are legible. -/
theorem legible_walk (hw : w.registry = .standard) (hvar : ∀ i, l.IsName (w.variableName i))
    {n : Node} (h : n.Shared rules) (hparent : l.IsName parent) (k : CodeCount) :
    ∀ st ∈ (w.walk parent n k).1, st.Legible l := by
  induction h generalizing parent k with
  | @text s _ => exact legible_textStatements hparent s
  | number x => exact legible_textStatements hparent _
  | bool b =>
    intro st hst
    rw [List.mem_singleton.1 hst]
    exact hparent
  | null => exact fun st hst => absurd hst List.not_mem_nil
  | undefined => exact fun st hst => absurd hst List.not_mem_nil
  | @element tag attrs children _ hattrs _ ih =>
    intro st hst
    rw [walk, hw] at hst
    dsimp only at hst
    rcases List.mem_cons.1 hst with rfl | hst
    · exact hvar k.vars
    rcases List.mem_append.1 hst with hst | hst
    · exact legible_code (hvar k.vars) hattrs _ st hst
    rcases List.mem_cons.1 hst with rfl | hst
    · exact ⟨hparent, hvar k.vars⟩
    split at hst
    · exact absurd hst List.not_mem_nil
    · exact legible_walkList (fun n hn => ih n hn (hvar k.vars)) _ st hst
  | component _ ih =>
    rw [walk]
    exact ih hparent k
  | array _ ih =>
    rw [walk]
    exact legible_walkList (fun n hn => ih n hn hparent) k
  | pending _ ih =>
    rw [walk]
    exact ih hparent k

end CodeWriter

end

end PageTree

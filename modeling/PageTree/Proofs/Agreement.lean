/-
  PageTree/Proofs/Agreement.lean
  ==============================
  **Markup and code agree.**

  A shared tree has the same content in both outputs: its markup reads as a
  forest, and the code, run on a page that holds nothing but the root, builds
  the same forest under the root.  A bare attribute of the markup has the empty
  text in the live page, as it has in a document made from markup.

  Code is generated for whatever tags, keys and names are given.  It builds
  nothing where the document accepts a tag or a key for no name, or where the
  script can declare no variable of a name.

    * `outputs_agree`: both outputs of a shared tree denote the same forest;
    * `outputs_disagree`: trees and settings whose code does not run.
-/
import PageTree.Proofs.Script.Source

namespace PageTree

/-- Every statement uses only the root and variables that statements before it
    declare. -/
def DeclaredBefore (root : String) (ss : List Statement) : Prop :=
  ∀ before s after, ss = before ++ s :: after → ∀ var ∈ s.uses,
    var = root ∨ ∃ tag, .create var tag ∈ before

namespace LivePage

theorem address?_ofRoot_self (root : RootDeclaration) :
    (ofRoot root).address? root.name = some 0 := by
  cases root with
  | fragment name => simp [ofRoot, address?, RootDeclaration.name]
  | element name tag => simp [ofRoot, address?, RootDeclaration.name]

theorem address?_ofRoot_of_ne {root : RootDeclaration} {var : String} (h : var ≠ root.name) :
    (ofRoot root).address? var = none := by
  have hne : (var == root.name) = false := by simpa using h
  cases root with
  | fragment name =>
    simp only [ofRoot, address?, List.lookup, RootDeclaration.name] at hne ⊢
    rw [hne]
  | element name tag =>
    simp only [ofRoot, address?, List.lookup, RootDeclaration.name] at hne ⊢
    rw [hne]

theorem getElem?_ofRoot (root : RootDeclaration) :
    ∃ e, (ofRoot root).elements = [e] ∧ e.children = [] := by
  cases root with
  | fragment name => exact ⟨_, rfl, rfl⟩
  | element name tag => exact ⟨_, rfl, rfl⟩

theorem declaredBefore_of_run {rules : NameRules} {root : RootDeclaration} {q : LivePage}
    {ss : List Statement} (h : (ofRoot root).run rules ss = some q) :
    DeclaredBefore root.name ss := by
  rintro before s after rfl var hvar
  rcases declared_of_run h hvar with hsome | hcreate
  · left
    by_contra hne
    rw [address?_ofRoot_of_ne hne] at hsome
    exact Bool.noConfusion hsome
  · exact .inr hcreate

end LivePage

open LivePage

theorem CodeSettings.name_root (s : CodeSettings) : s.root.name = s.rootName := by
  unfold CodeSettings.root
  split
  · rfl
  · rfl

theorem CodeSettings.start?_root {rules : NameRules} {s : CodeSettings}
    (htag : s.asFragment = false → rules.isTag s.rootTag = true) :
    start? rules s.root = some (ofRoot s.root) := by
  unfold CodeSettings.root
  split
  · rfl
  · next hfragment => exact if_pos (htag (by simpa using hfragment))

variable {l : Letters} {rules : NameRules}

/-- The statements of a shared tree, run from the root, display its content. -/
theorem displays_statementsOf {n : Node} (h : n.Shared rules) {s : CodeSettings}
    (hroot : ∀ i : Nat, s.rootName ≠ s.stem ++ toString i) (ids : Nat → String) (k : Nat) :
    ∃ page, (ofRoot s.root).run rules (statementsOf ⟨.standard, ids, s.stem⟩ s.rootName n k).1 =
        some page ∧ page.Displays (Content.filledAll (Content.tidy n.content)) := by
  obtain ⟨e, helements, hchildren⟩ := getElem?_ofRoot s.root
  have hfree : (ofRoot s.root).FreeFrom ⟨.standard, ids, s.stem⟩ 0 := by
    intro i _
    refine address?_ofRoot_of_ne ?_
    rw [s.name_root]
    exact Ne.symm (hroot i)
  have haddress : (ofRoot s.root).address? s.rootName = some 0 := by
    rw [← s.name_root]
    exact address?_ofRoot_self s.root
  obtain ⟨page, hrun, hadds⟩ := CodeWriter.run_walk (w := ⟨.standard, ids, s.stem⟩) rfl h
    (k := { ids := k }) (by simp [helements]) haddress hfree
  obtain ⟨kids, shown, hkids, hshows, hsame⟩ := hadds.grown
  refine ⟨page, hrun, e.add kids, shown, ?_, ?_, ?_⟩
  · rw [hkids, helements]
    rfl
  · rw [LiveElement.add, hchildren, List.nil_append]
    exact hshows.mono (Nat.zero_le _)
  · rw [hsame.tidy_eq, Content.tidy_filledAll]

theorem codeOf_eq {s : CodeSettings} (hminify : s.minify = false) (hcompact : s.compact = false)
    (registry : Registry) (ids : Nat → String) (n : Node) (k : Nat) :
    (codeOf registry ids s n k).1 =
      codeText s.root (statementsOf ⟨registry, ids, s.stem⟩ s.rootName n k).1 := by
  unfold codeOf CodeSettings.finish
  dsimp only
  rw [hminify, hcompact]
  rfl

/-- The code of a shared tree reads as its root and its statements. -/
theorem read?_codeOf {n : Node} (h : n.Shared rules) {s : CodeSettings} (hminify : s.minify = false)
    (hcompact : s.compact = false) (hname : l.IsName s.rootName) (hstem : l.IsIdentifier s.stem)
    (ids : Nat → String) (k : Nat) :
    CodeReader.read? l (codeOf .standard ids s n k).1 =
      some (s.root, (statementsOf ⟨.standard, ids, s.stem⟩ s.rootName n k).1) := by
  rw [codeOf_eq hminify hcompact]
  refine CodeReader.read?_codeText ?_ ?_
  · rwa [s.name_root]
  · exact CodeWriter.legible_walk (w := ⟨.standard, ids, s.stem⟩) rfl
      (fun i => hstem.isName_append i) h hname _

/-- **Both outputs of a shared tree denote the same forest.**  The markup reads as it, and
    the code reads as statements that build it, and nothing else, under the root. -/
theorem outputs_agree {n : Node} (h : n.Shared rules) {ms : MarkupSettings}
    (hms : ms.minify = false) {cs : CodeSettings} (hminify : cs.minify = false)
    (hcompact : cs.compact = false) (hname : l.IsName cs.rootName) (hstem : l.IsIdentifier cs.stem)
    (hroot : ∀ i : Nat, cs.rootName ≠ cs.stem ++ toString i)
    (htag : cs.asFragment = false → rules.isTag cs.rootTag = true) (ids ids' : Nat → String)
    (k k' : Nat) :
    ∃ forest ss page,
      readMarkup (markupOf ⟨.standard, ids⟩ ms n k).1 = some forest ∧
      (∀ c ∈ forest, c.Proper) ∧
      ss = (statementsOf ⟨.standard, ids', cs.stem⟩ cs.rootName n k').1 ∧
      CodeReader.read? l (codeOf .standard ids' cs n k').1 = some (cs.root, ss) ∧
      build? rules cs.root ss = some page ∧
      (∀ shown, page.Displays shown ↔ shown = Content.filledAll forest) ∧
      DeclaredBefore cs.rootName ss := by
  obtain ⟨page, hrun, hdisplays⟩ := displays_statementsOf h hroot ids' k'
  refine ⟨Content.tidy n.content, _, page, readMarkup_markupOf h.legible hms ids k,
    Content.proper_of_mem_tidy n.proper_content, rfl,
    read?_codeOf h hminify hcompact hname hstem ids' k', ?_, ?_, ?_⟩
  · rw [build?, CodeSettings.start?_root htag, Option.bind_some, hrun]
  · refine fun shown => ⟨fun hshown => hshown.unique hdisplays, ?_⟩
    rintro rfl
    exact hdisplays
  · have hdeclared := declaredBefore_of_run hrun
    rwa [cs.name_root] at hdeclared

/-- A tree with components, arrays, pending parts, a void element, and attributes
    of every kind. -/
def sharedSample : Node :=
  .component "Card" ∅ []
    (.element "section"
      ⟨[("className", .pending (.string "wide \"x\"")), ("hidden", .bool true), ("lang", .null),
        ("title", .string "a</b")]⟩
      [.text "a", .array [.pending (.text "b"), .bool true],
        .element "br" ∅ [.text "dropped"], .undefined, .element "p" ∅ [.text "c"]])

theorem shared_sharedSample : sharedSample.Shared rules := by
  have hword : ∀ key ∈ ["hidden", "lang", "title"], IsSharedKey rules key := by
    intro key hkey
    have hplain : IsPlainName key :=
      ⟨forall_mem_of_all (p := fun key => key.toList.head?.any Char.isAlpha = true) (by decide)
        key hkey, forall_mem_toList_of_all (by decide) key hkey⟩
    have hunhandled : ∀ h ∈ Registry.standard, h.key.applies key = false :=
      forall_mem_of_all (p := fun key => ∀ h ∈ Registry.standard, h.key.applies key = false)
        (by decide) key hkey
    exact ⟨rules.plainAttribute hplain, forall_mem_toList_of_all (by decide) key hkey, hunhandled⟩
  have hempty : (∅ : Attributes).Shared rules :=
    ⟨by decide, by decide, fun key hkey => absurd hkey List.not_mem_nil⟩
  refine .component (.element ⟨by decide, forall_mem_of_all (by decide), by decide⟩
    ⟨by decide, by decide, fun key hkey => ?_⟩ fun n hn => ?_)
  · rcases List.mem_cons.1 hkey with rfl | hkey
    · exact .inl rfl
    · exact .inr (hword key hkey)
  · simp only [List.mem_cons, List.not_mem_nil, or_false] at hn
    rcases hn with rfl | rfl | rfl | rfl | rfl
    · exact .text (forall_mem_of_all (by decide))
    · refine .array fun n hn => ?_
      simp only [List.mem_cons, List.not_mem_nil, or_false] at hn
      rcases hn with rfl | rfl
      · exact .pending (.text (forall_mem_of_all (by decide)))
      · exact .bool true
    · refine .element ⟨by decide, forall_mem_of_all (by decide), by decide⟩ hempty fun n hn => ?_
      rw [List.mem_singleton.1 hn]
      exact .text (forall_mem_of_all (by decide))
    · exact .undefined
    · refine .element ⟨by decide, forall_mem_of_all (by decide), by decide⟩ hempty fun n hn => ?_
      rw [List.mem_singleton.1 hn]
      exact .text (forall_mem_of_all (by decide))

theorem ne_variable_root (i : Nat) : "root" ≠ "e" ++ toString i := by
  intro h
  have hlist := congrArg String.toList h
  rw [String.toList_append] at hlist
  exact absurd (List.cons.inj hlist).1 (by decide)

/-- What the sample shows in markup. -/
def sharedSampleForest : List Content :=
  [.element "section" [("class", some "wide \"x\""), ("hidden", none), ("title", some "a</b")]
    [.text "abtrue", .element "br" [] [], .element "p" [] [.text "c"]]]

theorem tidy_content_sharedSample : Content.tidy sharedSample.content = sharedSampleForest := by
  cbv

/-- Identifiers of ASCII characters only. -/
def Letters.ascii : Letters := ⟨fun _ => false, fun _ => false⟩

theorem Letters.isIdentifier_ascii {name : String}
    (head : name.toList.head?.any Letters.ascii.isStart = true)
    (parts : name.toList.all Letters.ascii.isPart = true) : Letters.ascii.IsIdentifier name where
  head := by
    cases spelled : name.toList with
    | nil => simp [spelled] at head
    | cons c cs => exact ⟨c, cs, rfl, by simpa [spelled] using head⟩
  parts := List.all_eq_true.1 parts

theorem sharedSample_outputs_agree :
    sharedSample.Shared .standard ∧ Letters.ascii.IsName "root" ∧ Letters.ascii.IsIdentifier "e" ∧
      (∀ i : Nat, "root" ≠ "e" ++ toString i) ∧ NameRules.standard.isTag "div" = true ∧
      ∃ ss page,
        readMarkup (markupOf ⟨.standard, ElementId.supply .alphanumeric⟩ {} sharedSample 0).1 =
          some sharedSampleForest ∧
        CodeReader.read? .ascii
            (codeOf .standard (ElementId.supply .alphanumeric) {} sharedSample 0).1 =
          some (.element "root" "div", ss) ∧
        build? .standard (.element "root" "div") ss = some page ∧
        page.Displays (Content.filledAll sharedSampleForest) := by
  have hname : Letters.ascii.IsName "root" :=
    ⟨Letters.isIdentifier_ascii (by decide) (by decide), by decide, by decide⟩
  have hstem : Letters.ascii.IsIdentifier "e" :=
    Letters.isIdentifier_ascii (by decide) (by decide)
  have htag : NameRules.standard.isTag "div" = true := by decide
  have hshared : sharedSample.Shared .standard := shared_sharedSample
  obtain ⟨forest, ss, page, hread, -, -, hcode, hbuild, hdisplays, -⟩ :=
    outputs_agree hshared (rfl : ({} : MarkupSettings).minify = false)
      (rfl : ({} : CodeSettings).minify = false) rfl hname hstem ne_variable_root (fun _ => htag)
      (ElementId.supply .alphanumeric) (ElementId.supply .alphanumeric) 0 0
  have hforest : forest = sharedSampleForest := by
    rw [readMarkup_markupOf hshared.legible rfl, tidy_content_sharedSample] at hread
    exact (Option.some.inj hread).symm
  subst hforest
  exact ⟨hshared, hname, hstem, ne_variable_root, htag, ss, page, hread, hcode, hbuild,
    (hdisplays _).2 rfl⟩

/-! ### Code that does not run -/

/-- An element without children. -/
def bareElement (tag : String) (attrs : Attributes) : Node := .element tag attrs []

theorem statementsOf_bareElement (w : CodeWriter) (root tag : String) (attrs : Attributes)
    (k : Nat) :
    (statementsOf w root (bareElement tag attrs) k).1 =
      .create (w.variableName 0) tag ::
        ((w.registry.code (w.ids k) (w.variableName 0) attrs).statements ++
          [.append root (w.variableName 0)]) := by
  rw [statementsOf, bareElement, CodeWriter.walk]
  dsimp only
  split <;> rfl

/-- An element without attributes is created and appended. -/
theorem codeOf_bareElement {s : CodeSettings} (hminify : s.minify = false)
    (hcompact : s.compact = false) (ids : Nat → String) (tag : String) :
    (codeOf .standard ids s (bareElement tag ∅) 0).1 =
      codeText s.root [.create (s.stem ++ "0") tag, .append s.rootName (s.stem ++ "0")] := by
  rw [codeOf_eq hminify hcompact, statementsOf_bareElement]
  rfl

theorem code_plain_key (fresh var : String) :
    (Registry.standard.code fresh var ⟨[("a b", .string "x")]⟩).statements =
      [.setAttribute var "a b" "x"] := rfl

theorem legible_digit_tag : (bareElement "1a" ∅).Legible := by
  have hlower : "1a".map Char.toLower ∉ documentTags := by decide +kernel
  have hempty : (∅ : Attributes).Legible :=
    ⟨⟨by decide, fun _ hkey => absurd hkey List.not_mem_nil⟩,
      fun _ hkey => absurd hkey List.not_mem_nil, fun _ hkey => absurd hkey List.not_mem_nil⟩
  exact .element ⟨by decide, forall_mem_of_all (by decide), hlower⟩ hempty
    fun _ hn => absurd hn List.not_mem_nil

/-- Code is generated that no document runs or that is no script: for an element whose tag
    begins with a digit, though its markup shows it, for a root of such a tag, for a
    key with a blank, for a root called `document` or by a word of the language, and
    for variables that are numbers. -/
theorem outputs_disagree :
    ((∀ c ∈ "1a".toList, c.isLower = true ∨ c.isDigit = true) ∧ "1a" ∉ "script" :: documentTags ∧
        readMarkup (markupOf ⟨.standard, ElementId.supply .alphanumeric⟩ {}
          (bareElement "1a" ∅) 0).1 = some [.element "1a" [] []] ∧
        ∃ ss, CodeReader.read? .ascii (codeOf .standard (ElementId.supply .alphanumeric) {}
            (bareElement "1a" ∅) 0).1 = some (.element "root" "div", ss) ∧
          ∀ rules, build? rules (.element "root" "div") ss = none) ∧
      (∀ rules, build? rules (CodeSettings.root { rootTag := "1a" }) [] = none) ∧
      (∃ ss, CodeReader.read? .ascii (codeOf .standard (ElementId.supply .alphanumeric) {}
            (bareElement "p" ⟨[("a b", .string "x")]⟩) 0).1 = some (.element "root" "div", ss) ∧
          ∀ rules, build? rules (.element "root" "div") ss = none) ∧
      (∀ root ∈ ["document", "class"], CodeReader.read? .ascii (codeOf .standard
        (ElementId.supply .alphanumeric) { rootName := root } (bareElement "p" ∅) 0).1 = none) ∧
      CodeReader.read? .ascii (codeOf .standard (ElementId.supply .alphanumeric) { stem := "" }
        (bareElement "p" ∅) 0).1 = none := by
  have hdigit (rules : NameRules) : rules.isTag "1a" = false := rules.digitTag (by decide)
  have hblank (rules : NameRules) : rules.isAttribute "a b" = false := by
    by_contra haccepted
    have hchars := (rules.attributeName (Bool.eq_true_of_not_eq_false haccepted)).2 ' ' (by decide)
    exact absurd hchars (by decide)
  have he : Letters.ascii.IsName "e0" :=
    ⟨Letters.isIdentifier_ascii (by decide) (by decide), by decide, by decide⟩
  have hroot : Letters.ascii.IsName "root" :=
    ⟨Letters.isIdentifier_ascii (by decide) (by decide), by decide, by decide⟩
  refine ⟨⟨forall_mem_of_all (by decide), by decide, ?_,
    [.create "e0" "1a", .append "root" "e0"], ?_, fun rules => ?_⟩, fun rules => ?_,
    ⟨[.create "e0" "p", .setAttribute "e0" "a b" "x", .append "root" "e0"], ?_,
      fun rules => ?_⟩, fun name hname => ?_, ?_⟩
  · rw [readMarkup_markupOf legible_digit_tag rfl]
    cbv
  · rw [codeOf_bareElement rfl rfl]
    refine CodeReader.read?_codeText hroot fun st hst => ?_
    rcases List.mem_cons.1 hst with rfl | hst
    · exact he
    · rw [List.mem_singleton.1 hst]
      exact ⟨hroot, he⟩
  · refine build?_eq_none_of_mem (s := .create "e0" "1a") (fun p => ?_) List.mem_cons_self _
    rw [execute, hdigit]
    rfl
  · have hstart : start? rules (.element "root" "1a") = none :=
      if_neg (by rw [hdigit]; exact Bool.false_ne_true)
    exact congrArg (Option.bind · (run rules · [])) hstart
  · rw [codeOf_eq rfl rfl, statementsOf_bareElement, code_plain_key]
    refine CodeReader.read?_codeText hroot fun st hst => ?_
    simp only [List.singleton_append, List.mem_cons, List.not_mem_nil, or_false] at hst
    rcases hst with rfl | rfl | rfl
    · exact he
    · exact he
    · exact ⟨hroot, he⟩
  · refine build?_eq_none_of_mem (s := .setAttribute "e0" "a b" "x") (fun p => ?_) (by simp) _
    rw [execute, hblank]
    rfl
  · rw [codeOf_bareElement rfl rfl]
    simp only [List.mem_cons, List.not_mem_nil, or_false] at hname
    rcases hname with rfl | rfl
    · have hdocument : Letters.ascii.IsIdentifier "document" :=
        Letters.isIdentifier_ascii (by decide) (by decide)
      exact CodeReader.read?_codeText_of_word hdocument (by decide) _
    · have hclass : Letters.ascii.IsIdentifier "class" :=
        Letters.isIdentifier_ascii (by decide) (by decide)
      exact CodeReader.read?_codeText_of_word hclass (by decide) _
  · rw [codeOf_bareElement rfl rfl]
    show CodeReader.read? .ascii
      (codeText (.element "root" "div") [.create "0" "p", .append "root" "0"]) = none
    decide +kernel

end PageTree

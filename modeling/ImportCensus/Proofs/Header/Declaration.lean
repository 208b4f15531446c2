import ImportCensus.Header.Package
import ImportCensus.Proofs.Text.Cut
import ImportCensus.Proofs.Text.Search

/-!
# `ImportCensus.Proofs.Header.Declaration`: the package of a text by one search

`packageOf` cuts a text into lines and searches each of them for the keyword. One search of the
whole text does the same, because a keyword without line breaks lies within a line, and its first
occurrence is in the first line that has one.

* `findSome?_after?_eq`: what the first line with a keyword has behind it, by a search of the text.
* `isDeclared_iff`: the declared part of a text, which is said without searching, is what is found.
* `packageOf_eq_declared`: what the package is, and what it does not depend on.
-/

set_option autoImplicit false

namespace ImportCensus

open TerminatedLine (AreCut concat exists_areCut concat_cons)

namespace Text

/-- What the first line with a keyword has behind it, by a search of the whole text. The induction
is on the lines of the text. No occurrence of the keyword goes over the end of a line, so the search
finds it in the first line or in those behind it. -/
theorem findSome?_after?_eq {key : Text} (hne : key ≠ [])
    (hkey : ∀ c ∈ key, isLineBreak c = false) {written : List TerminatedLine}
    (h : AreCut written) :
    (written.map TerminatedLine.content).findSome? (after? key) =
      (after? key (concat written)).map upToBreak := by
  have hfresh {c : Char} (hc : isLineBreak c = true) : c ∉ key := fun hmem =>
    nomatch hc.symm.trans (hkey c hmem)
  induction written with
  | nil => rw [concat, List.flatMap_nil, after?_nil hne]; rfl
  | cons line rest ih =>
    have htail := h.1.break_endingText
    have hending := fun c hc => hfresh (isLineBreak_of_mem_ending line.ending c hc)
    rw [List.map_cons, List.findSome?_cons, concat_cons,
      after?_append_eq_or hne (fun c hc => hfresh (htail c hc)), TerminatedLine.endingText,
      after?_append_of_not_mem hne hending]
    cases hfound : after? key line.content with
    | none => rw [ih h.2]; rfl
    | some found =>
      -- Behind the keyword the line goes on up to its own end.
      obtain ⟨front, hfront, -⟩ := after?_eq_some_iff.1 hfound
      have hplain : ∀ c ∈ found, isLineBreak c = false := fun c hc =>
        h.1.no_break c (by rw [hfront]; exact List.mem_append_right _ hc)
      exact congrArg some (upToBreak_append hplain htail).symm

end Text

namespace Header

/-- What stands behind the first package keyword of a text, up to the end of the line. -/
def IsDeclared (source declared : Text) : Prop :=
  ∃ behind, Text.IsAfterFirst packageKeyword source (declared ++ behind) ∧
    (∀ c ∈ declared, Text.isLineBreak c = false) ∧ ∀ c ∈ behind.head?, Text.isLineBreak c = true

/-- What is declared is found by a search and a cut. On the left nothing is searched or cut: there
is a first occurrence, no break behind it, and then a break or the end. -/
theorem isDeclared_iff {source declared : Text} :
    IsDeclared source declared ↔
      (Text.after? packageKeyword source).map Text.upToBreak = some declared := by
  rw [Option.map_eq_some_iff]
  constructor
  · rintro ⟨behind, hfirst, hdeclared, hbehind⟩
    exact ⟨_, Text.after?_eq_some_iff.2 hfirst, Text.upToBreak_append hdeclared hbehind⟩
  · rintro ⟨rest, hrest, rfl⟩
    obtain ⟨behind, hsplit, hdeclared, hbehind⟩ := Text.exists_upToBreak_append rest
    exact ⟨behind, by rw [← hsplit]; exact Text.after?_eq_some_iff.1 hrest, hdeclared, hbehind⟩

/-- A text has a declared part exactly if it has the keyword. -/
theorem exists_isDeclared_iff {source : Text} :
    (∃ declared, IsDeclared source declared) ↔ packageKeyword <:+: source := by
  rw [← Text.mentions_iff, Text.mentions]
  simp only [isDeclared_iff]
  cases Text.after? packageKeyword source <;> simp

/-- The package of a text by one search. Every text is made of cut lines, and `packageOf` looks
through these in order. -/
theorem packageOf_eq_search (source : Text) :
    packageOf source = (((Text.after? packageKeyword source).map Text.upToBreak).map
      (·.filter isNameChar)).getD [] := by
  obtain ⟨written, hcut, rfl⟩ := exists_areCut source
  have hsearch := Text.findSome?_after?_eq (by decide)
    (Text.no_break_of_any (t := packageKeyword) (by decide)) hcut
  rw [packageOf, hcut.lines_concat, ← hsearch, List.map_findSome?]
  rfl

/-- The package is what is declared, without the characters that are no part of a name. -/
theorem IsDeclared.packageOf_eq {source declared : Text} (h : IsDeclared source declared) :
    packageOf source = declared.filter isNameChar := by
  rw [packageOf_eq_search, isDeclared_iff.1 h]
  rfl

/-- A text without the keyword has the empty package. -/
theorem packageOf_eq_nil {source : Text} (h : ¬ packageKeyword <:+: source) :
    packageOf source = [] := by
  rw [packageOf_eq_search, Text.after?_eq_none_iff.2 h]
  rfl

/-- The package of a text, by its declared part if it has one. The two cases exclude one another, so
this determines the package. -/
theorem packageOf_eq_iff {source package : Text} : packageOf source = package ↔
    (¬ packageKeyword <:+: source ∧ package = []) ∨
      ∃ declared, IsDeclared source declared ∧ package = declared.filter isNameChar := by
  constructor
  · rintro rfl
    by_cases hkeyword : packageKeyword <:+: source
    · obtain ⟨declared, h⟩ := exists_isDeclared_iff.2 hkeyword
      exact .inr ⟨declared, h, h.packageOf_eq⟩
    · exact .inl ⟨hkeyword, packageOf_eq_nil hkeyword⟩
  · rintro (⟨hkeyword, rfl⟩ | ⟨declared, h, rfl⟩)
    · exact packageOf_eq_nil hkeyword
    · exact h.packageOf_eq

/-- Semicolons and white space are no part of a name, and all other characters are. -/
theorem isNameChar_iff {c : Char} : isNameChar c = true ↔ c ≠ ';' ∧ Text.isBlankChar c = false := by
  simp [isNameChar, terminator]

/-- So none of them is left in a package, wherever it was declared. -/
theorem isNameChar_of_mem_packageOf {source : Text} {c : Char} (hc : c ∈ packageOf source) :
    isNameChar c = true := by
  rw [packageOf_eq_search] at hc
  cases hfound : (Text.after? packageKeyword source).map Text.upToBreak with
  | none => simp [hfound] at hc
  | some declared =>
    rw [hfound] at hc
    exact (List.mem_filter.1 hc).2

/-- **The package of a text is found by one search of the whole text.**

1. Without the keyword it is empty. Otherwise it is what stands behind the first occurrence of the
   keyword up to the end of that line, without semicolons and white space.
2. So it depends on nothing in front of that occurrence and on nothing behind that line.
3. It holds no semicolon, no white space and no line break.
4. It is empty if nothing else is declared on that line, whatever later lines declare. -/
theorem packageOf_eq_declared (source : Text) :
    (∀ package, packageOf source = package ↔
      (¬ packageKeyword <:+: source ∧ package = []) ∨
        ∃ declared, IsDeclared source declared ∧ package = declared.filter isNameChar) ∧
    (∀ declared other, IsDeclared source declared → IsDeclared other declared →
      packageOf other = packageOf source) ∧
    (∀ c ∈ packageOf source, c ≠ ';' ∧ Text.isBlankChar c = false ∧ c ≠ '\r' ∧ c ≠ '\n') ∧
    ∀ declared, IsDeclared source declared →
      (∀ c ∈ declared, c = ';' ∨ Text.isBlankChar c = true) → packageOf source = [] := by
  refine ⟨fun package => packageOf_eq_iff, fun declared other h hother => ?_, fun c hc => ?_,
    fun declared h hnone => ?_⟩
  · rw [hother.packageOf_eq, h.packageOf_eq]
  · obtain ⟨hterm, hblank⟩ := isNameChar_iff.1 (isNameChar_of_mem_packageOf hc)
    refine ⟨hterm, hblank, ?_, ?_⟩ <;>
      · rintro rfl
        exact absurd hblank (by decide)
  · rw [h.packageOf_eq, List.filter_eq_nil_iff]
    intro c hc hname
    obtain ⟨hterm, hblank⟩ := isNameChar_iff.1 hname
    rcases hnone c hc with heq | hwhite
    · exact hterm heq
    · exact nomatch hwhite.symm.trans hblank

-- A later declaration does not count, since the first line with the keyword decides.
example : packageOf "// package ;\rpackage a.b;\n".toList = [] := by decide

end Header

end ImportCensus

import ImportCensus.Text.Line

/-!
# `ImportCensus.Proofs.Text.Line`: written lines are read back

A line that is written with its ending in front of a text is the first of the lines that are read
back, and the others are those of the text. There is one exception: a lone CR in front of an LF
makes one ending with it, and then the blank line between them is lost.

* `lines_append`: characters that are no line breaks go to the first line of what follows them.
* `lines_content_ending`: a line with its ending, in front of a text that does not change it.
* `lines_terminated`: the same in front of any text.
-/

set_option autoImplicit false

namespace ImportCensus

namespace Text

/-- The two characters that break lines. -/
theorem isLineBreak_iff {c : Char} : isLineBreak c = true ↔ c = '\n' ∨ c = '\r' := by
  simp [isLineBreak]

/-- Any other character does not break a line. The form with two inequalities is the one in which
the cases of `lines` give it. -/
theorem isLineBreak_eq_false {c : Char} (hlf : c ≠ '\n') (hcr : c ≠ '\r') :
    isLineBreak c = false := by
  simp [isLineBreak, hlf, hcr]

/-- The test of a whole text, as a statement about each of its characters. Written pieces of text
are checked by the test, and the lemmas below ask for the statement. -/
theorem no_break_of_any {t : Text} (h : t.any isLineBreak = false) :
    ∀ c ∈ t, isLineBreak c = false := by
  simpa using h

/-- A character that is no line break goes to the first line of what follows it. Whether the reader
looks one character ahead for a CRLF plays no role, since this character is no CR. -/
theorem lines_cons {c : Char} (hc : isLineBreak c = false) {t line : Text} {more : List Text}
    (ht : lines t = line :: more) : lines (c :: t) = (c :: line) :: more := by
  have hlf : c ≠ '\n' := by
    rintro rfl
    cases hc
  have hcr : c ≠ '\r' := by
    rintro rfl
    cases hc
  rw [lines] <;> simp_all

/-- Characters that are no line breaks go to the first line of what follows them. The induction is
on these characters and uses `lines_cons` at each of them. -/
theorem lines_append {content t line : Text} {more : List Text}
    (hcontent : ∀ c ∈ content, isLineBreak c = false) (ht : lines t = line :: more) :
    lines (content ++ t) = (content ++ line) :: more := by
  induction content with
  | nil => exact ht
  | cons c content ih =>
    obtain ⟨hc, hrest⟩ := List.forall_mem_cons.1 hcontent
    exact lines_cons hc (ih hrest)

/-- A text without line breaks is one line, unless it is empty. The last character makes a line by
itself, and the others go in front of it. -/
theorem lines_of_no_break {content : Text} (hcontent : ∀ c ∈ content, isLineBreak c = false)
    (hne : content ≠ []) : lines content = [content] := by
  obtain ⟨front, c, rfl⟩ := List.eq_nil_or_concat content |>.resolve_left hne
  rw [List.concat_eq_append] at hcontent ⊢
  obtain ⟨hfront, hc⟩ := List.forall_mem_append.1 hcontent
  have hlast : lines [c] = [[c]] := by
    have hbreak := List.forall_mem_singleton.1 hc
    rw [lines] <;> simp_all [lines, isLineBreak]
  exact lines_append hfront hlast

/-- An ending consists of line breaks, whichever of the three it is. A line without ending has none,
and there the statement is empty. -/
theorem isLineBreak_of_mem_ending (ending : Option LineEnding) :
    ∀ c ∈ (ending.map LineEnding.text).getD [], isLineBreak c = true := by
  rcases ending with _ | _ | _ | _ <;> exact List.all_eq_true.1 (by decide)

/-- A line with its ending in front of a text is its first line, and the others are those of the
text. A lone CR must not stand in front of an LF, which would be taken as one ending with it. -/
theorem lines_content_ending {content : Text} (hcontent : ∀ c ∈ content, isLineBreak c = false)
    (ending : LineEnding) {t : Text} (hcr : ending = .cr → t.head? ≠ some '\n') :
    lines (content ++ ending.text ++ t) = content :: lines t := by
  have hbreak : lines (ending.text ++ t) = [] :: lines t := by
    cases ending with
    | lf => rw [LineEnding.text, List.singleton_append, lines]
    | crlf => simp [LineEnding.text, lines]
    | cr =>
      rw [LineEnding.text, List.singleton_append, lines]
      rintro rest rfl
      exact hcr rfl rfl
  rw [List.append_assoc, lines_append hcontent hbreak, List.append_nil]

/-- A line with its ending in front of a text is its first line. The others are those of the text,
but a blank line at its beginning is lost where a lone CR meets the LF that was to end it. -/
theorem lines_terminated {content : Text} (hcontent : ∀ c ∈ content, isLineBreak c = false)
    (ending : LineEnding) (t : Text) :
    lines (content ++ ending.text ++ t) = content :: lines t ∨
      ∃ more, lines t = [] :: more ∧ lines (content ++ ending.text ++ t) = content :: more := by
  by_cases hcr : ending = .cr ∧ t.head? = some '\n'
  · -- The CR is taken together with the LF that was to end a blank line.
    obtain ⟨rfl, hlf⟩ := hcr
    obtain ⟨rest, rfl⟩ := List.head?_eq_some_iff.1 hlf
    refine .inr ⟨lines rest, by rw [lines], ?_⟩
    have hmerged := lines_content_ending hcontent .crlf (t := rest) nofun
    simpa [LineEnding.text] using hmerged
  · exact .inl (lines_content_ending hcontent ending fun heq hlf => hcr ⟨heq, hlf⟩)

/-- Characters up to the end or up to a line break are the first line of a text. Nothing is said of
the other lines, so the way in which the break is written does not matter. -/
theorem lines_eq_cons {content rest : Text} (hcontent : ∀ c ∈ content, isLineBreak c = false)
    (hne : content ≠ []) (hrest : ∀ c ∈ rest.head?, isLineBreak c = true) :
    ∃ more, lines (content ++ rest) = content :: more := by
  cases rest with
  | nil => exact ⟨[], by rw [List.append_nil, lines_of_no_break hcontent hne]⟩
  | cons c rest =>
    have hread (ending : LineEnding) (t : Text) :
        ∃ more, lines (content ++ (ending.text ++ t)) = content :: more := by
      rw [← List.append_assoc]
      rcases lines_terminated hcontent ending t with h | ⟨more, -, h⟩
      · exact ⟨_, h⟩
      · exact ⟨more, h⟩
    rcases isLineBreak_iff.1 (hrest c rfl) with rfl | rfl
    · exact hread .lf rest
    · exact hread .cr rest

end Text

end ImportCensus

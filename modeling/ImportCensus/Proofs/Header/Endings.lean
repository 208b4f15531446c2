import ImportCensus.Proofs.Header.Written

/-!
# `ImportCensus.Proofs.Header.Endings`: the endings of lines do not matter

The readers of headers meet the endings of lines in three ways. A text is cut into lines without
them; a scan of lines may be given lines that still have theirs; and a CR and the LF of a blank line
behind it make one ending, so that a text can have fewer lines than were written. None of this
changes what is read.

* `packageIn?_append`, `importedName?_append`: what a line declares and imports, with its ending and
  without.
* `usagesFrom_text`: so a scan finds the same in lines with endings, in whatever state it comes to
  them.
* `endings_irrelevant`: text, lines and lines with endings, for every choice of endings.
-/

set_option autoImplicit false

namespace ImportCensus

namespace Header

/-! ### One line and its ending -/

section

variable {ending : Text} (hending : ∀ c ∈ ending, Text.isLineBreak c = true)

include hending

/-- An ending has no character in common with a text that has no line breaks, such as a keyword. -/
theorem not_mem_of_no_break {t : Text} (ht : t.any Text.isLineBreak = false) :
    ∀ c ∈ ending, c ∉ t := by
  intro c hc hmem
  cases (hending c hc).symm.trans (Text.no_break_of_any ht c hmem)

/-- An ending is white space, so a line with its ending is blank exactly if the line is. -/
theorem isBlank_append (content : Text) :
    Text.isBlank (content ++ ending) = Text.isBlank content := by
  have hblank : ending.all Text.isBlankChar = true := by
    refine List.all_eq_true.2 fun c hc => ?_
    rcases Text.isLineBreak_iff.1 (hending c hc) with rfl | rfl <;> decide
  rw [Text.isBlank, List.all_append, hblank, Bool.and_true]
  rfl

/-- What a line declares does not depend on its ending, which is no part of a name. The keyword is
found in the line itself, and the ending comes to stand behind what is found. -/
theorem packageIn?_append (content : Text) :
    packageIn? (content ++ ending) = packageIn? content := by
  have hname : ending.filter isNameChar = [] := by
    refine List.filter_eq_nil_iff.2 fun c hc => ?_
    rcases Text.isLineBreak_iff.1 (hending c hc) with rfl | rfl <;> decide
  rw [packageIn?, Text.after?_append (by decide) (not_mem_of_no_break hending (by decide)),
    Option.map_map, packageIn?]
  congr 1
  funext rest
  rw [Function.comp_apply, List.filter_append, hname, List.append_nil]

/-- What a line imports does not depend on its ending: it ends in front of a terminator, and where
there is none the ending is cut off. -/
theorem importedName?_append {content : Text}
    (hcontent : ∀ c ∈ content, Text.isLineBreak c = false) :
    importedName? (content ++ ending) = importedName? content := by
  rw [importedName?, importedName?,
    Text.after?_append (by decide) (not_mem_of_no_break hending (by decide)), Option.map_map]
  -- The keyword is found at the same place, so only what follows it is longer.
  refine Option.map_congr fun rest hrest => ?_
  obtain ⟨front, hfront, -⟩ := Text.after?_eq_some_iff.1 hrest
  have hplain : ∀ c ∈ rest, Text.isLineBreak c = false := fun c hc =>
    hcontent c (by rw [hfront]; exact List.mem_append_right _ hc)
  have hterm : terminator ∉ ending := fun hmem => absurd (hending _ hmem) (by decide)
  dsimp only [Function.comp_apply]
  by_cases hmem : terminator ∈ rest
  · -- The name ends at the first terminator, which is in front of the ending.
    obtain ⟨back, hback, hfresh⟩ := (Text.takeWhile_ne_eq_iff hmem).1 rfl
    rw [if_pos (by simp [hmem]), if_pos (by simp [hmem]),
      Text.takeWhile_ne_eq_iff (List.mem_append_left _ hmem)]
    exact ⟨back ++ ending, by rw [← List.cons_append, ← List.append_assoc, ← hback], hfresh⟩
  · -- Neither has a terminator, so both lose the breaks at their end, of which `rest` has none.
    have hcut {tail : Text} (htail : ∀ c ∈ tail, Text.isLineBreak c = true) :
        Text.dropEndWhile Text.isLineBreak (rest ++ tail) = rest :=
      Text.dropEndWhile_eq_iff.2 ⟨tail, rfl, htail, fun c hc =>
        hplain c (List.mem_of_getLast? hc)⟩
    have hnil := @hcut [] nofun
    rw [List.append_nil] at hnil
    rw [if_neg (by simp [hmem, hterm]), if_neg (by simp [hmem]), hcut hending, hnil]

end

/-! ### All lines -/

variable {unitName : Text} {known : ClassSet}

/-- A scan finds the same in lines that still have their endings. The loop asks three questions
about a line, and the ending has no influence on any of the answers. -/
theorem usagesFrom_text {written : List TerminatedLine}
    (h : ∀ line ∈ written, ∀ c ∈ line.content, Text.isLineBreak c = false) (package : Text)
    (inBlock : Bool) :
    usagesFrom unitName known package inBlock (written.map TerminatedLine.text) =
      usagesFrom unitName known package inBlock (written.map TerminatedLine.content) := by
  induction written generalizing package inBlock with
  | nil => rfl
  | cons line written ih =>
    obtain ⟨hline, hwritten⟩ := List.forall_mem_cons.1 h
    have hending := Text.isLineBreak_of_mem_ending line.ending
    rw [List.map_cons, List.map_cons, usagesFrom, usagesFrom]
    simp only [TerminatedLine.text, isBlank_append hending, packageIn?_append hending,
      importedName?_append hending hline, ih hwritten]

/-- No line that can stand in front of a text has a break in it. -/
theorem Precede.no_break {written : List TerminatedLine} {tail : Text} (h : Precede written tail) :
    ∀ line ∈ written, ∀ c ∈ line.content, Text.isLineBreak c = false := by
  induction written with
  | nil => exact nofun
  | cons line written ih => exact List.forall_mem_cons.2 ⟨h.1, ih h.2.2⟩

/-- Apart from blank lines, a text that is written line by line has these lines. Nothing follows
them here, so the last one may lack its ending. -/
theorem codeLines_lines_of_precede {written : List TerminatedLine} (h : Precede written []) :
    codeLines (TerminatedLine.concat written).lines =
      codeLines (written.map TerminatedLine.content) := by
  have hlines := codeLines_lines_concat h
  rwa [List.append_nil, show codeLines (Text.lines []) = [] from rfl, List.append_nil] at hlines

/-- **The endings of lines do not matter.** Take lines without breaks and give each of them any
ending, the last one perhaps none. The text, the lines as they are and the lines with their endings
have the same usages, and the package of the text is that of the first line that declares one. -/
theorem endings_irrelevant {written : List TerminatedLine} (h : Precede written [])
    (unitName : Text) (known : ClassSet) :
    usagesIn unitName (TerminatedLine.concat written) known =
        usagesInLines unitName known (written.map TerminatedLine.content) ∧
      usagesInLines unitName known (written.map TerminatedLine.text) =
        usagesInLines unitName known (written.map TerminatedLine.content) ∧
      packageOf (TerminatedLine.concat written) =
        ((written.map TerminatedLine.content).findSome? packageIn?).getD [] := by
  refine ⟨?_, usagesFrom_text h.no_break [] false, ?_⟩
  · rw [usagesIn, usagesInLines, usagesInLines, ← usagesFrom_codeLines,
      codeLines_lines_of_precede h, usagesFrom_codeLines]
  · rw [packageOf_eq, codeLines_lines_of_precede h, findSome?_packageIn?_codeLines]

/-- Lines with all endings. The CR of the declaration and the LF of the blank line make one ending,
and the last line, whose import has no terminator, has none. -/
def sampleLines : List TerminatedLine :=
  [⟨"package p;".toList, some .cr⟩, ⟨[], some .lf⟩, ⟨"import a.B".toList, some .crlf⟩,
    ⟨"import c.D".toList, none⟩]

/-- Four lines are written and three are read, since the blank one is lost. The usage and the
package are those of the written lines, and `c.D` is imported without being known. -/
theorem usagesIn_sampleLines :
    (TerminatedLine.concat sampleLines).lines.length = 3 ∧
      usagesIn "E".toList (TerminatedLine.concat sampleLines) (ClassSet.ofList ["a.B".toList]) =
        [⟨"a.B".toList, "p.E".toList⟩] ∧
      packageOf (TerminatedLine.concat sampleLines) = "p".toList := by
  have hprecede : Precede sampleLines [] := by
    refine ⟨?_, by simp, ?_, by simp, ?_, by simp, ?_, fun _ => ⟨rfl, rfl⟩, trivial⟩ <;>
      exact Text.no_break_of_any (by decide)
  obtain ⟨husages, -, hpackage⟩ :=
    endings_irrelevant hprecede "E".toList (ClassSet.ofList ["a.B".toList])
  exact ⟨by decide, husages.trans (by decide), hpackage.trans (by decide)⟩

end Header

end ImportCensus

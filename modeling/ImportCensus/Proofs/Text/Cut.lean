import Mathlib.Data.List.TakeWhile
import ImportCensus.Proofs.Text.Line

/-!
# `ImportCensus.Proofs.Text.Cut`: a text is cut into lines in one way

`Text.lines` throws the endings away, so it does not say by itself that nothing else was lost. Here
the endings are put back. `TerminatedLine.AreCut` says how lines with their endings have to look if
they come from a text, and nothing about how the text is read.

* `CutOff.ext_text`: the first line, its ending and what is behind it are known from the text. A
  line goes on up to the first line break, and one more character tells CR from CRLF.
* `AreCut.lines_concat`: lines that are cut are read back from the text that they make.
* `exists_areCut`: every text is made of such lines.
* `lines_unambiguous`: so there is one way to cut a text, and `Text.lines` gives these lines.
-/

set_option autoImplicit false

namespace ImportCensus

namespace Text

/-- The characters of a text up to its first line break. -/
def upToBreak (t : Text) : Text := t.takeWhile (!isLineBreak ·)

/-- Characters without line breaks, in front of a line break or of nothing, are what stands up to
the first break. So the content of a line that is cut off is known from the text. -/
theorem upToBreak_append {content tail : Text} (hcontent : ∀ c ∈ content, isLineBreak c = false)
    (htail : ∀ c ∈ tail.head?, isLineBreak c = true) : upToBreak (content ++ tail) = content := by
  have hstop : tail.takeWhile (!isLineBreak ·) = [] := by
    cases tail with
    | nil => rfl
    | cons c tail => exact List.takeWhile_cons_of_neg (by simp [htail c rfl])
  rw [upToBreak, List.takeWhile_append_of_pos fun c hc => by simp [hcontent c hc], hstop,
    List.append_nil]

/-- What is behind the characters up to a break begins with it. Every text splits in this way, which
is how a text that was not written by anybody is brought into the form of the lemma above. -/
theorem exists_upToBreak_append (t : Text) : ∃ behind, t = upToBreak t ++ behind ∧
    (∀ c ∈ upToBreak t, isLineBreak c = false) ∧ ∀ c ∈ behind.head?, isLineBreak c = true := by
  refine ⟨t.dropWhile (!isLineBreak ·), (List.takeWhile_append_dropWhile).symm, fun c hc => ?_,
    fun c hc => ?_⟩
  · simpa using List.mem_takeWhile_imp hc
  · have hhead := List.head?_dropWhile_not (!isLineBreak ·) t
    rw [Option.mem_def.1 hc] at hhead
    simpa using hhead

end Text

namespace TerminatedLine

/-- The ending of a line, as far as it has one. -/
def endingText (line : TerminatedLine) : Text := (line.ending.map LineEnding.text).getD []

/-- A line that is cut off in front of the rest of a text. -/
structure CutOff (line : TerminatedLine) (behind : Text) : Prop where
  no_break : ∀ c ∈ line.content, Text.isLineBreak c = false
  /-- Only what is left at the end of a text is a line without ending. -/
  last : line.ending = none → line.content ≠ [] ∧ behind = []
  /-- A CR and the LF behind it are never cut apart. -/
  cr : line.ending = some .cr → behind.head? ≠ some '\n'

/-- Lines as a text is cut into them: each one is cut off in front of those that follow it. -/
def AreCut : List TerminatedLine → Prop
  | [] => True
  | line :: rest => line.CutOff (concat rest) ∧ AreCut rest

/-- The text of lines begins with the content of the first one, then comes its ending and then the
text of the others. The brackets are such that a line and what is behind it can be looked at
apart. -/
theorem concat_cons (line : TerminatedLine) (rest : List TerminatedLine) :
    concat (line :: rest) = line.content ++ (line.endingText ++ concat rest) := by
  rw [concat, List.flatMap_cons, text, List.append_assoc]
  rfl

/-! ### One line -/

section

variable {line other : TerminatedLine} {behind otherBehind : Text} (h : line.CutOff behind)

include h

/-- A line is followed by a line break, or it is the end of the text. A line with an ending has its
own break there, and one without is the last. -/
theorem CutOff.break_endingText :
    ∀ c ∈ (line.endingText ++ behind).head?, Text.isLineBreak c = true := by
  obtain ⟨content, ending⟩ := line
  cases ending with
  | none =>
    obtain rfl := (h.last rfl).2
    exact nofun
  | some ending =>
    intro c hc
    cases ending <;> cases hc <;> rfl

/-- A line that is cut off is the first line of the text. The condition on a CR is what the reader
needs, which would take an LF behind it as part of the same ending. -/
theorem CutOff.lines_eq : Text.lines (line.content ++ (line.endingText ++ behind)) =
    line.content :: Text.lines behind := by
  obtain ⟨content, ending⟩ := line
  cases ending with
  | none =>
    obtain ⟨hne, rfl⟩ := h.last rfl
    have hcontent : content ++ (endingText ⟨content, none⟩ ++ []) = content :=
      List.append_nil content
    rw [hcontent, Text.lines_of_no_break h.no_break hne]
    rfl
  | some ending =>
    rw [← List.append_assoc]
    exact Text.lines_content_ending h.no_break ending fun hcr => h.cr (congrArg some hcr)

/-- What ends a line is known from the text behind its content. The first character tells the
endings apart, except for CR and CRLF; there the second one does, since no LF follows a CR that is
cut off. -/
theorem CutOff.ending_eq (hother : other.CutOff otherBehind)
    (heq : line.endingText ++ behind = other.endingText ++ otherBehind) :
    line.ending = other.ending ∧ behind = otherBehind := by
  obtain ⟨content, ending⟩ := line
  obtain ⟨otherContent, otherEnding⟩ := other
  have hlast := h.last
  have hotherLast := hother.last
  have hcr := h.cr
  have hotherCr := hother.cr
  -- Two endings can agree on their first character only if one is CR and the other one CRLF, and
  -- then an LF comes behind the CR.
  rcases ending with _ | _ | _ | _ <;> rcases otherEnding with _ | _ | _ | _ <;>
    grind [endingText, LineEnding.text]

/-- **The first line of a text is known from the text**, together with its ending and with what is
behind it. -/
theorem CutOff.ext_text (hother : other.CutOff otherBehind)
    (heq : line.content ++ (line.endingText ++ behind) =
      other.content ++ (other.endingText ++ otherBehind)) :
    line = other ∧ behind = otherBehind := by
  -- Both contents are what stands in front of the first line break.
  have hcontent : line.content = other.content := by
    rw [← Text.upToBreak_append h.no_break h.break_endingText, heq,
      Text.upToBreak_append hother.no_break hother.break_endingText]
  rw [hcontent] at heq
  obtain ⟨hending, hbehind⟩ := h.ending_eq hother (List.append_cancel_left heq)
  obtain ⟨content, ending⟩ := line
  cases hcontent
  cases hending
  exact ⟨rfl, hbehind⟩

end

/-! ### All lines -/

/-- **Cut lines are read back** from the text that they make. -/
theorem AreCut.lines_concat {written : List TerminatedLine} (h : AreCut written) :
    Text.lines (concat written) = written.map content := by
  induction written with
  | nil => rfl
  | cons line rest ih => rw [concat_cons, h.1.lines_eq, ih h.2, List.map_cons]

/-- Lines that are cut make a text that is not empty. Otherwise reading it back would give no lines,
and `AreCut.lines_concat` says that it gives them all. -/
theorem AreCut.concat_ne_nil {line : TerminatedLine} {rest : List TerminatedLine}
    (h : AreCut (line :: rest)) : concat (line :: rest) ≠ [] := by
  intro hnil
  have hlines := h.lines_concat
  rw [hnil] at hlines
  cases hlines

/-- Different cuts make different texts. The induction takes both lists apart together, with
`CutOff.ext_text` for their first lines. -/
theorem AreCut.concat_injective {written other : List TerminatedLine} (h : AreCut written)
    (hother : AreCut other) (heq : concat written = concat other) : written = other := by
  -- Both lists are taken apart together: their first lines agree, and so do the texts behind them.
  induction written generalizing other with
  | nil =>
    cases other with
    | nil => rfl
    | cons line rest => exact absurd heq.symm hother.concat_ne_nil
  | cons line rest ih =>
    cases other with
    | nil => exact absurd heq h.concat_ne_nil
    | cons otherLine otherRest =>
      rw [concat_cons, concat_cons] at heq
      obtain ⟨rfl, hrest⟩ := h.1.ext_text hother.1 heq
      rw [ih h.2 hother.2 hrest]

/-- A character that is no line break is cut off with the line behind it, or makes a line of its own
if no line is behind it. The line keeps its ending, so the lines behind it stay cut. -/
theorem AreCut.exists_cons {written : List TerminatedLine} (h : AreCut written) {c : Char}
    (hc : Text.isLineBreak c = false) :
    ∃ longer, AreCut longer ∧ concat longer = c :: concat written := by
  cases written with
  | nil =>
    have hcut : CutOff ⟨[c], none⟩ [] :=
      ⟨List.forall_mem_singleton.2 hc, fun _ => ⟨List.cons_ne_nil c [], rfl⟩, nofun⟩
    exact ⟨[⟨[c], none⟩], ⟨hcut, trivial⟩, rfl⟩
  | cons line rest =>
    have hcut : CutOff ⟨c :: line.content, line.ending⟩ (concat rest) :=
      ⟨List.forall_mem_cons.2 ⟨hc, h.1.no_break⟩,
        fun hnone => ⟨List.cons_ne_nil c _, (h.1.last hnone).2⟩, h.1.cr⟩
    exact ⟨⟨c :: line.content, line.ending⟩ :: rest, ⟨hcut, h.2⟩, rfl⟩

/-- **Every text is made of cut lines.** The cases are those in which `Text.lines` goes along the
text. -/
theorem exists_areCut (t : Text) : ∃ written, AreCut written ∧ concat written = t := by
  -- The last two cases differ only in whether anything is behind the character.
  have hother {c : Char} {rest : Text} (hlf : c ≠ '\n') (hcr : c ≠ '\r')
      (ih : ∃ written, AreCut written ∧ concat written = rest) :
      ∃ written, AreCut written ∧ concat written = c :: rest := by
    obtain ⟨written, hcut, rfl⟩ := ih
    exact hcut.exists_cons (Text.isLineBreak_eq_false hlf hcr)
  induction t using Text.lines.induct with
  | case1 => exact ⟨[], trivial, rfl⟩
  | case2 rest ih =>
    obtain ⟨written, hcut, rfl⟩ := ih
    exact ⟨⟨[], some .lf⟩ :: written, ⟨⟨nofun, nofun, nofun⟩, hcut⟩, rfl⟩
  | case3 rest ih =>
    obtain ⟨written, hcut, rfl⟩ := ih
    exact ⟨⟨[], some .crlf⟩ :: written, ⟨⟨nofun, nofun, nofun⟩, hcut⟩, rfl⟩
  | case4 rest hlf ih =>
    obtain ⟨written, hcut, rfl⟩ := ih
    refine ⟨⟨[], some .cr⟩ :: written, ⟨⟨nofun, nofun, fun _ hhead => ?_⟩, hcut⟩, rfl⟩
    obtain ⟨behind, hbehind⟩ := List.head?_eq_some_iff.1 hhead
    exact hlf behind hbehind
  | case5 c rest hlf _ hcr _ ih => exact hother hlf hcr ih
  | case6 c rest hlf _ hcr _ _ _ ih => exact hother hlf hcr ih

/-! ### Cuts and lines -/

/-- Only the empty text has no lines. For a text in general this is not easy to see from
`Text.lines`, and for cut lines it is their number. -/
theorem lines_eq_nil_iff {t : Text} : Text.lines t = [] ↔ t = [] := by
  obtain ⟨written, hcut, rfl⟩ := exists_areCut t
  rw [hcut.lines_concat, List.map_eq_nil_iff]
  constructor
  · rintro rfl
    rfl
  · intro hnil
    cases written with
    | nil => rfl
    | cons line rest => exact absurd hnil hcut.concat_ne_nil

/-- An ending at the end of a text ends its last line and opens no other one. The cases are those of
`Text.lines`. The text must not end in a line break, since the ending would then end a blank line,
or complete a CR that was there. -/
theorem lines_append_ending {t : Text} (hne : t ≠ [])
    (hlast : ∀ c ∈ t.getLast?, Text.isLineBreak c = false) (ending : LineEnding) :
    Text.lines (t ++ ending.text) = Text.lines t := by
  -- A break in front cannot be the last character, so there is more of the text behind it.
  have hbehind {c : Char} {rest : Text} (hc : Text.isLineBreak c = true)
      (hend : ∀ d ∈ (c :: rest).getLast?, Text.isLineBreak d = false) :
      rest ≠ [] ∧ ∀ d ∈ rest.getLast?, Text.isLineBreak d = false := by
    cases rest with
    | nil => cases hc.symm.trans (hend c rfl)
    | cons d rest => exact ⟨List.cons_ne_nil d rest, by rwa [List.getLast?_cons_cons] at hend⟩
  induction t using Text.lines.induct with
  | case1 => exact absurd rfl hne
  | case2 rest ih =>
    obtain ⟨hrest, hend⟩ := hbehind (by decide) hlast
    rw [List.cons_append, Text.lines, Text.lines, ih hrest hend]
  | case3 rest ih =>
    obtain ⟨-, hlf⟩ := hbehind (by decide) hlast
    obtain ⟨hrest, hend⟩ := hbehind (by decide) hlf
    rw [List.cons_append, List.cons_append, Text.lines, Text.lines, ih hrest hend]
  | case4 rest hlf ih =>
    obtain ⟨hrest, hend⟩ := hbehind (by decide) hlast
    obtain ⟨d, rest, rfl⟩ := List.exists_cons_of_ne_nil hrest
    -- The CR stays a CR, since the text goes on behind it and not with an LF.
    have hd : d ≠ '\n' := fun heq => hlf rest (by rw [heq])
    rw [List.cons_append, Text.lines, Text.lines, ih hrest hend] <;> simp_all
  | case5 c rest hlf _ hcr hnone =>
    -- This character is the whole text, and the ending comes right behind it.
    obtain rfl := lines_eq_nil_iff.1 hnone
    have hline : ∀ d ∈ [c], Text.isLineBreak d = false :=
      List.forall_mem_singleton.2 (Text.isLineBreak_eq_false hlf hcr)
    have hended := Text.lines_content_ending hline ending (t := []) (by simp)
    rw [List.append_nil] at hended
    rw [hended, Text.lines_of_no_break hline hne]
    rfl
  | case6 c rest hlf _ hcr line more hlines ih =>
    have hc := Text.isLineBreak_eq_false hlf hcr
    have hrest : rest ≠ [] := fun hnil => by simp [lines_eq_nil_iff.2 hnil] at hlines
    have hend : ∀ d ∈ rest.getLast?, Text.isLineBreak d = false := by
      rwa [List.getLast?_cons_of_ne_nil hrest] at hlast
    rw [List.cons_append, Text.lines_cons hc hlines,
      Text.lines_cons hc ((ih hrest hend).trans hlines)]

/-- **Cutting a text into lines loses nothing and can be done in one way only.**

1. For each text there are lines with endings that are cut as they should be and make the text. They
   are the only ones, and their contents are what `Text.lines` gives.
2. Whatever lines are cut as they should be, they are read back from the text that they make.
3. Only the empty text has no lines.
4. An ending behind the last line of a text adds no line. -/
theorem lines_unambiguous :
    (∀ t, ∃ written, AreCut written ∧ concat written = t ∧ Text.lines t = written.map content ∧
      ∀ other, AreCut other → concat other = t → other = written) ∧
    (∀ written, AreCut written → Text.lines (concat written) = written.map content) ∧
    (∀ t, Text.lines t = [] ↔ t = []) ∧
    ∀ t (ending : LineEnding), t ≠ [] → (∀ c ∈ t.getLast?, Text.isLineBreak c = false) →
      Text.lines (t ++ ending.text) = Text.lines t := by
  refine ⟨fun t => ?_, fun _ => AreCut.lines_concat, fun _ => lines_eq_nil_iff,
    fun _ ending hne hlast => lines_append_ending hne hlast ending⟩
  obtain ⟨written, hcut, rfl⟩ := exists_areCut t
  exact ⟨written, hcut, rfl, hcut.lines_concat, fun other hother => hother.concat_injective hcut⟩

end TerminatedLine

end ImportCensus

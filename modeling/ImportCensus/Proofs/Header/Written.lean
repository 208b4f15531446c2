import Mathlib.Data.List.Basic
import ImportCensus.Proofs.Census.Modes
import ImportCensus.Proofs.Census.Units
import ImportCensus.Proofs.Header.Block
import ImportCensus.Proofs.Text.Line

/-!
# `ImportCensus.Proofs.Header.Written`: scanning inverts writing

A `WrittenHeader` is a header put together from lines: a package declaration and a block of imports,
with other lines in front of either, and what follows the block. The two readers of headers work in
different ways. `packageOf` takes the first line of the whole text that mentions the keyword, while
the scan of the imports keeps the package that was declared last. On a written header they agree.

* `codeLines_lines_concat`: apart from blank lines, written lines are read back, whatever their
  endings are.
* `WrittenHeader.splits`: the imports are the import block, and what is above them is the preamble.
* `usagesIn_written`: the usages of a written header are its imports, and their consumer is the
  class that the same file adds to the classes of a tree.
-/

set_option autoImplicit false

namespace ImportCensus

namespace Header

/-! ### Written lines -/

/-- Lines that can stand in front of a text: no line has a break in it, and only the last line of
all may lack its ending. -/
def Precede : List TerminatedLine → Text → Prop
  | [], _ => True
  | line :: rest, tail =>
    (∀ c ∈ line.content, Text.isLineBreak c = false) ∧
      (line.ending = none → rest = [] ∧ tail = []) ∧ Precede rest tail

/-- Blank lines are dropped from two sequences of lines one by one. -/
theorem codeLines_append (a b : List Text) : codeLines (a ++ b) = codeLines a ++ codeLines b :=
  List.filter_append a b

/-- The first line is dropped or kept by itself. The form with a sequence of one line lets both
cases be treated as one. -/
theorem codeLines_cons (line : Text) (lines : List Text) :
    codeLines (line :: lines) = codeLines [line] ++ codeLines lines :=
  codeLines_append [line] lines

/-- A line with its ending in front of a text is read back, apart from a blank line that may be
lost. That happens where a CR meets an LF, and here it makes no difference, since blank lines are
dropped anyway. -/
theorem codeLines_lines_terminated {content : Text}
    (hcontent : ∀ c ∈ content, Text.isLineBreak c = false) (ending : LineEnding) (t : Text) :
    codeLines (Text.lines (content ++ ending.text ++ t)) =
      codeLines [content] ++ codeLines (Text.lines t) := by
  rcases Text.lines_terminated hcontent ending t with h | ⟨more, hmore, h⟩
  · rw [h, codeLines_cons]
  · rw [h, hmore, codeLines_cons, @codeLines_cons_of_isBlank [] rfl]

/-- Apart from blank lines, written lines are read back. The induction is on the written lines. Only
the last one can be without ending, and if it is empty as well it is no line. -/
theorem codeLines_lines_concat {written : List TerminatedLine} {tail : Text}
    (h : Precede written tail) :
    codeLines (Text.lines (TerminatedLine.concat written ++ tail)) =
      codeLines (written.map TerminatedLine.content) ++ codeLines (Text.lines tail) := by
  induction written with
  | nil => rfl
  | cons line rest ih =>
    obtain ⟨hcontent, hlast, hrest⟩ := h
    obtain ⟨content, ending⟩ := line
    rw [List.map_cons, codeLines_cons, List.append_assoc, ← ih hrest]
    cases ending with
    | some ending =>
      have hconcat : TerminatedLine.concat (⟨content, some ending⟩ :: rest) ++ tail =
          content ++ ending.text ++ (TerminatedLine.concat rest ++ tail) := List.append_assoc _ _ _
      rw [hconcat, codeLines_lines_terminated hcontent]
    | none =>
      -- A line without ending is the last one, and it is a line only if it is not empty.
      obtain ⟨rfl, rfl⟩ := hlast rfl
      have hconcat : TerminatedLine.concat [⟨content, none⟩] ++ [] = content := by
        simp [TerminatedLine.concat, TerminatedLine.text]
      rw [hconcat]
      by_cases hne : content = []
      · subst hne
        rfl
      · rw [Text.lines_of_no_break hcontent hne]
        exact (List.append_nil _).symm

/-! ### Keywords in written lines -/

/-- The line that declares a package. -/
def packageLine (package : Text) : Text := packageKeyword ++ ' ' :: (package ++ [terminator])

/-- The line that imports a name. -/
def importLine (name : Text) : Text := importKeyword ++ (name ++ [terminator])

/-- A word without some character stands on one side of it. So a keyword can be looked for in the
parts of a line that is put together from parts. -/
theorem infix_append_cons {key a b : Text} {c : Char} (hc : c ∉ key) (h : key <:+: a ++ c :: b) :
    key <:+: a ∨ key <:+: b := by
  obtain ⟨s, t, hst⟩ := h
  -- The key ends in `a`, or begins behind its end, or holds the character between the two.
  rcases List.append_eq_append_iff.1 hst with ⟨u, hu, -⟩ | ⟨u, hu, hct⟩
  · exact .inl ⟨s, u, hu.symm⟩
  · cases u with
    | nil => exact .inl ⟨s, [], by rw [List.append_nil, hu, List.append_nil]⟩
    | cons d u =>
      obtain ⟨rfl, rfl⟩ := List.cons.inj hct
      rcases List.append_eq_append_iff.1 hu with ⟨v, -, hv⟩ | ⟨v, -, hv⟩
      · exact absurd (hv ▸ by simp) hc
      · cases v with
        | nil => exact absurd (by rw [List.nil_append] at hv; simp [← hv]) hc
        | cons d v =>
          obtain ⟨-, rfl⟩ := List.cons.inj hv
          exact .inr ⟨v, t, rfl⟩

/-- An import of a name without the package keyword has no such keyword. In front of the name stands
the import keyword, which is another word, and its blank keeps the two apart. -/
theorem packageKeyword_not_infix_importLine {name : Text} (hname : ¬ packageKeyword <:+: name) :
    ¬ packageKeyword <:+: importLine name := by
  intro h
  have hline : importLine name = "import".toList ++ ' ' :: (name ++ terminator :: []) := rfl
  rw [hline] at h
  rcases infix_append_cons (by decide) h with h | h
  · exact absurd h (by decide)
  · rcases infix_append_cons (by decide) h with h | h
    · exact hname h
    · exact absurd h (by decide)

/-- The blank of the import keyword is not that behind the package keyword. A package has no blank,
so there is only one in the line, and the word in front of it does not end in `import`. -/
theorem importKeyword_not_infix_packageLine {package : Text} (hblank : ' ' ∉ package) :
    ¬ importKeyword <:+: packageLine package := by
  rintro ⟨s, t, h⟩
  have hline : (s ++ "import".toList) ++ ' ' :: t =
      packageKeyword ++ ' ' :: (package ++ [terminator]) := by
    have hkeyword : importKeyword = "import".toList ++ [' '] := rfl
    rw [← packageLine, ← h, hkeyword, List.append_assoc, List.append_assoc, List.append_assoc,
      List.singleton_append]
  have hrest : ' ' ∉ package ++ [terminator] := by
    simpa [terminator] using hblank
  have hfront := ((List.append_cons_inj_of_notMem (by decide) hrest).1 hline.symm).1
  have hsuffix : "import".toList <:+ packageKeyword := ⟨s, hfront.symm⟩
  exact absurd hsuffix (by decide)

/-- The package that a written declaration declares. The blank and the terminator around it are no
characters of names, so they are dropped. -/
theorem packageIn?_packageLine {package : Text} (h : ∀ c ∈ package, isNameChar c = true) :
    packageIn? (packageLine package) = some package := by
  have hafter : Text.after? packageKeyword (packageLine package) =
      some (' ' :: (package ++ [terminator])) :=
    Text.after?_eq_some_iff.2 ((Text.isAfterFirst_of_leading rfl).2 rfl)
  have hblank : isNameChar ' ' = false := by decide
  have hterm : isNameChar terminator = false := by decide
  rw [packageIn?, hafter, Option.map_some, List.filter_cons_of_neg (by simp [hblank]),
    List.filter_append, List.filter_eq_self.2 h, List.filter_cons_of_neg (by simp [hterm]),
    List.filter_nil, List.append_nil]

/-- The name that a written import imports, up to the terminator that is written behind it. -/
theorem importedName?_importLine {name : Text} (h : terminator ∉ name) :
    importedName? (importLine name) = some name :=
  importedName?_eq_some_iff.2 (.terminated ((Text.isAfterFirst_of_leading rfl).2 rfl) h)

/-! ### The package -/

/-- Blank lines do not mention the package keyword, since it has letters in it. -/
theorem packageIn?_of_isBlank {line : Text} (h : Text.isBlank line = true) :
    packageIn? line = none := by
  refine packageIn?_eq_none_iff.2 fun hmem => ?_
  have hblank := List.all_eq_true.1 h 'p' (hmem.subset (by decide))
  exact absurd hblank (by decide)

/-- The first package is declared by a line that is not blank, so blank lines can be dropped before
it is looked for. -/
theorem findSome?_packageIn?_codeLines (lines : List Text) :
    (codeLines lines).findSome? packageIn? = lines.findSome? packageIn? := by
  induction lines with
  | nil => rfl
  | cons line lines ih =>
    cases hblank : Text.isBlank line with
    | true =>
      rw [codeLines_cons_of_isBlank hblank, ih, List.findSome?_cons, packageIn?_of_isBlank hblank]
    | false =>
      rw [codeLines_cons_of_not_isBlank hblank, List.findSome?_cons, List.findSome?_cons, ih]

/-- The package of a text is found among the lines that are not blank. This brings both readers to
the same lines. -/
theorem packageOf_eq (source : Text) :
    packageOf source = ((codeLines source.lines).findSome? packageIn?).getD [] := by
  rw [packageOf, findSome?_packageIn?_codeLines]

/-- Lines without the keyword leave the package as it was. -/
theorem lastPackage_append {above below : List Text}
    (h : ∀ line ∈ below, ¬ packageKeyword <:+: line) :
    lastPackage (above ++ below) = lastPackage above := by
  induction below using List.reverseRecOn with
  | nil => rw [List.append_nil]
  | append_singleton below line ih =>
    obtain ⟨hbelow, hline⟩ := List.forall_mem_append.1 h
    rw [← List.append_assoc, lastPackage_concat,
      packageIn?_eq_none_iff.2 (hline line List.mem_cons_self), ih hbelow]
    rfl

/-! ### The imports -/

/-- Written imports make their usages for the package that is declared above them. No import
mentions the package keyword, so the package stays the same from line to line, and each known name
makes one usage. -/
theorem usagesBelow_importLines {unitName : Text} {known : ClassSet} {names : List Text}
    (hterm : ∀ name ∈ names, terminator ∉ name)
    (hkeyword : ∀ name ∈ names, ¬ packageKeyword <:+: name) (above : List Text) :
    usagesBelow unitName known above (names.map importLine) =
      (names.filter known.contains).map fun name =>
        ⟨name, CompilationUnit.qualifiedName ⟨lastPackage above, unitName⟩⟩ := by
  induction names generalizing above with
  | nil => rfl
  | cons name names ih =>
    obtain ⟨hname, hterm⟩ := List.forall_mem_cons.1 hterm
    obtain ⟨hplain, hkeyword⟩ := List.forall_mem_cons.1 hkeyword
    -- The line itself declares no package, so the one above stays in effect.
    have habove : lastPackage (above ++ [importLine name]) = lastPackage above :=
      lastPackage_append (List.forall_mem_singleton.2 (packageKeyword_not_infix_importLine hplain))
    have husage : lineUsage? unitName known (above ++ [importLine name]) (importLine name) =
        if known.contains name then
          some ⟨name, CompilationUnit.qualifiedName ⟨lastPackage above, unitName⟩⟩
        else none := by
      rw [lineUsage?, importedName?_importLine hname, habove]
    rw [List.map_cons, usagesBelow_cons, ih hterm hkeyword, husage, habove]
    by_cases hknown : known.contains name = true
    · rw [if_pos hknown, List.filter_cons_of_pos hknown]
      rfl
    · rw [if_neg hknown, List.filter_cons_of_neg hknown]
      rfl

/-! ### Written headers -/

/-- A line without keywords. -/
def IsPlain (line : Text) : Prop := ¬ packageKeyword <:+: line ∧ ¬ importKeyword <:+: line

/-- What can follow the imports: nothing, or a line that is neither blank nor an import, and
whatever stands behind it. -/
def Closes (tail : Text) : Prop :=
  tail = [] ∨ ∃ line rest, tail = line ++ rest ∧ (∀ c ∈ line, Text.isLineBreak c = false) ∧
    Text.isBlank line = false ∧ ¬ importKeyword <:+: line ∧
    ∀ c ∈ rest.head?, Text.isLineBreak c = true

/-- A header as it is written, and what follows it. -/
structure WrittenHeader where
  /-- The package, if one is declared. -/
  package? : Option Text
  /-- The imported names. -/
  names : List Text
  /-- The lines in front of the declaration. -/
  front : List TerminatedLine
  /-- The line with the declaration, if there is one. -/
  declaration : List TerminatedLine
  /-- The lines between the declaration and the imports. -/
  middle : List TerminatedLine
  /-- The imports, with blank lines anywhere between them. -/
  block : List TerminatedLine
  tail : Text
  package_ne_nil : ∀ package ∈ package?, package ≠ []
  isNameChar_package : ∀ package ∈ package?, ∀ c ∈ package, isNameChar c = true
  names_ne_nil : names ≠ []
  terminator_not_mem : ∀ name ∈ names, terminator ∉ name
  keyword_not_infix : ∀ name ∈ names, ¬ packageKeyword <:+: name
  plain : ∀ line ∈ front ++ middle, IsPlain line.content
  declaration_eq : declaration.map TerminatedLine.content = package?.toList.map packageLine
  block_eq : codeLines (block.map TerminatedLine.content) = names.map importLine
  precede : Precede (front ++ declaration ++ middle ++ block) tail
  closes : Closes tail

namespace WrittenHeader

/-- The text of a written header and of what follows it. -/
def text (header : WrittenHeader) : Text :=
  TerminatedLine.concat (header.front ++ header.declaration ++ header.middle ++ header.block) ++
    header.tail

variable (header : WrittenHeader)

/-- The lines in front of the imports, without the blank ones. -/
def linesAbove : List Text :=
  codeLines (header.front.map TerminatedLine.content) ++ header.package?.toList.map packageLine ++
    codeLines (header.middle.map TerminatedLine.content)

/-- A declaration is not blank. -/
theorem codeLines_packageLines (package? : Option Text) :
    codeLines (package?.toList.map packageLine) = package?.toList.map packageLine := by
  refine List.filter_eq_self.2 fun line hline => ?_
  obtain ⟨package, -, rfl⟩ := List.mem_map.1 hline
  rfl

/-- What is read back of a written header: the lines in front of its imports, the imports, and the
lines that follow them. Blank lines between the imports are gone. -/
theorem codeLines_lines_text : codeLines header.text.lines =
    header.linesAbove ++ header.names.map importLine ++ codeLines header.tail.lines := by
  unfold text linesAbove
  rw [codeLines_lines_concat header.precede]
  simp only [List.map_append, codeLines_append, header.declaration_eq, header.block_eq,
    codeLines_packageLines]

/-- The line that closes the block is no import. It is the first line of what follows, since it has
no break in it and goes up to one. -/
theorem not_import_next (line : Text) (hline : line ∈ (codeLines header.tail.lines).head?) :
    ¬ importKeyword <:+: line := by
  rcases header.closes with hnil | ⟨closing, rest, htail, hbreak, hblank, hplain, hrest⟩
  · rw [hnil] at hline
    cases hline
  · have hne : closing ≠ [] := by
      rintro rfl
      cases hblank
    obtain ⟨more, hmore⟩ := Text.lines_eq_cons hbreak hne hrest
    rw [htail, hmore, codeLines_cons_of_not_isBlank hblank] at hline
    cases hline
    exact hplain

/-- Lines without keywords that are left when the blank ones are dropped have no keywords either. -/
theorem plain_of_mem_codeLines {written : List TerminatedLine}
    (h : ∀ line ∈ written, IsPlain line.content) :
    ∀ line ∈ codeLines (written.map TerminatedLine.content), IsPlain line := by
  intro line hline
  obtain ⟨other, hother, rfl⟩ := List.mem_map.1 (List.mem_filter.1 hline).1
  exact h other hother

/-- In particular those in front of the declaration. -/
theorem plain_front :
    ∀ line ∈ codeLines (header.front.map TerminatedLine.content), IsPlain line :=
  plain_of_mem_codeLines (List.forall_mem_append.1 header.plain).1

/-- And those between the declaration and the imports. -/
theorem plain_middle :
    ∀ line ∈ codeLines (header.middle.map TerminatedLine.content), IsPlain line :=
  plain_of_mem_codeLines (List.forall_mem_append.1 header.plain).2

/-- The imports of a written header are its import block. By `Splits.unique` they are then what the
loop takes for the block. -/
theorem splits : Splits header.text.lines header.linesAbove (header.names.map importLine)
    (codeLines header.tail.lines) where
  codeLines_eq := header.codeLines_lines_text
  not_import_before := by
    unfold linesAbove
    refine List.forall_mem_append.2 ⟨List.forall_mem_append.2 ⟨?_, ?_⟩, ?_⟩
    · exact fun line hline => (header.plain_front line hline).2
    · -- A line with a package would need a blank in the name to be taken for an import.
      intro line hline
      obtain ⟨package, hpackage, rfl⟩ := List.mem_map.1 hline
      refine importKeyword_not_infix_packageLine fun hblank => ?_
      have hname := header.isNameChar_package package (Option.mem_toList.1 hpackage) ' ' hblank
      exact absurd hname (by decide)
    · exact fun line hline => (header.plain_middle line hline).2
  import_block line hline := by
    obtain ⟨name, -, rfl⟩ := List.mem_map.1 hline
    exact (List.prefix_append importKeyword _).isInfix
  not_import_next := header.not_import_next
  after_eq_nil hnil := absurd (List.map_eq_nil_iff.1 hnil) header.names_ne_nil

/-- The package in force below the lines in front of the imports is the one that is declared. The
lines behind the declaration have no keyword, so nothing is declared after it. -/
theorem lastPackage_linesAbove :
    lastPackage header.linesAbove = header.package?.getD [] := by
  unfold linesAbove
  rw [lastPackage_append fun line hline => (header.plain_middle line hline).1]
  cases hpackage : header.package? with
  | none =>
    rw [Option.toList_none, List.map_nil, List.append_nil]
    exact @lastPackage_append [] _ fun line hline => (header.plain_front line hline).1
  | some package =>
    rw [Option.toList_some, List.map_singleton, lastPackage_concat,
      packageIn?_packageLine (header.isNameChar_package package hpackage)]
    rfl

/-- The first declaration in the text of a written header is its own. The lines in front of it have
no keyword, so nothing is declared before it. -/
theorem packageOf_text {package : Text} (hpackage : header.package? = some package) :
    packageOf header.text = package := by
  have hfront : (codeLines (header.front.map TerminatedLine.content)).findSome? packageIn? = none :=
    List.findSome?_eq_none_iff.2 fun line hline =>
      packageIn?_eq_none_iff.2 (header.plain_front line hline).1
  have hline := packageIn?_packageLine (header.isNameChar_package package hpackage)
  rw [packageOf_eq, codeLines_lines_text, linesAbove, hpackage]
  simp [List.findSome?_append, hfront, hline]

/-- The unit that a written header declares in its file. The bytes of the file are those of the
text, and the name of the unit is that of the file without the suffix. -/
theorem declaredUnit_text {package : Text} (hpackage : header.package? = some package)
    (path unitName : Text) :
    SourceFile.declaredUnit
      ⟨path, unitName ++ CompilationUnit.fileSuffix, .ok header.text.encode⟩ =
      ⟨package, unitName⟩ := by
  have hsuffix := List.suffix_append unitName CompilationUnit.fileSuffix
  have hname := (CompilationUnit.nameOfFile_eq_iff hsuffix).2 rfl
  simp only [SourceFile.declaredUnit, SourceFile.source?, Text.decode?_encode, Option.map_some,
    Option.getD_some, header.packageOf_text hpackage, SourceFile.unitName, hname]

end WrittenHeader

/-- **Scanning inverts writing.** The usages of a written header are its imports of known classes,
in their order. Their consumer is the class that the file adds to the classes of a tree; without a
declaration it is the unit with a dot in front. -/
theorem usagesIn_written (header : WrittenHeader) (unitName : Text) (known : ClassSet) :
    usagesIn unitName header.text known =
        (header.names.filter known.contains).map (fun name =>
          ⟨name, CompilationUnit.qualifiedName ⟨header.package?.getD [], unitName⟩⟩) ∧
      ∀ package, header.package? = some package → packageOf header.text = package ∧
        ∀ path set,
          (ClassSet.addFile set ⟨path, unitName ++ CompilationUnit.fileSuffix,
            .ok header.text.encode⟩).result =
            .ok (set.insert (CompilationUnit.qualifiedName ⟨package, unitName⟩)) := by
  refine ⟨?_, fun package hpackage => ⟨header.packageOf_text hpackage, fun path set => ?_⟩⟩
  · rw [usagesIn, usagesInLines_eq_blockUsages, blockUsages_eq, header.splits.unique.1,
      header.splits.unique.2, usagesBelow_importLines header.terminator_not_mem
      header.keyword_not_infix, header.lastPackage_linesAbove]
  · have hhas : CompilationUnit.hasPackage ⟨package, unitName⟩ = true := by
      simp [CompilationUnit.hasPackage, header.package_ne_nil package hpackage]
    rw [FileSystem.result_addFile, header.declaredUnit_text hpackage, ClassSet.insertUnit,
      if_pos hhas]
    rfl

/-- A header with all three endings. The CR behind its declaration and the LF of the blank line
below make one ending. -/
def sampleHeader : WrittenHeader where
  package? := some "p".toList
  names := ["a.B".toList, "c.D".toList]
  front := [⟨"// E".toList, some .crlf⟩]
  declaration := [⟨"package p;".toList, some .cr⟩]
  middle := [⟨[], some .lf⟩]
  block := [⟨"import a.B;".toList, some .lf⟩, ⟨[' '], some .cr⟩, ⟨"import c.D;".toList, some .crlf⟩]
  tail := "class E".toList
  package_ne_nil := by decide
  isNameChar_package := by
    rintro package ⟨⟩
    exact List.all_eq_true.1 (by decide)
  names_ne_nil := by decide
  terminator_not_mem := by decide
  keyword_not_infix := by decide
  plain := by
    refine List.forall_mem_cons.2 ⟨⟨by decide, by decide⟩, List.forall_mem_singleton.2 ?_⟩
    exact ⟨by decide, by decide⟩
  declaration_eq := by decide
  block_eq := by decide
  precede := by
    refine ⟨?_, nofun, ?_, nofun, ?_, nofun, ?_, nofun, ?_, nofun, ?_, nofun, trivial⟩ <;>
      exact Text.no_break_of_any (by decide)
  closes := .inr ⟨"class E".toList, [], rfl, Text.no_break_of_any (by decide), by decide,
    by decide, nofun⟩

/-- Of the two imports of the sample only the second one is known. The line that is lost between the
declaration and the imports was blank, so nothing else is lost. -/
theorem usagesIn_sampleHeader :
    usagesIn "E".toList sampleHeader.text (ClassSet.ofList ["c.D".toList]) =
        [⟨"c.D".toList, "p.E".toList⟩] ∧ packageOf sampleHeader.text = "p".toList := by
  obtain ⟨husages, hpackage⟩ :=
    usagesIn_written sampleHeader "E".toList (ClassSet.ofList ["c.D".toList])
  exact ⟨husages, (hpackage _ rfl).1⟩

end Header

end ImportCensus

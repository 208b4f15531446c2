import ImportCensus.Header.Block
import ImportCensus.Proofs.Text.Search

/-!
# `ImportCensus.Proofs.Header.Block`: the scan of a header reads its import block

`usagesInLines` is a loop with three pieces of state: the package declared so far, whether the block
of imports has begun, and what it has found. `blockUsages` has no state: it finds the import block
first, and looks at each of its lines with the lines above. The two agree on all lines.

The invariant of the loop is that the package declared so far is `lastPackage above`, where `above`
are the lines that were passed. With it the loop inside the block is `usagesBelow above`
(`usagesFrom_inBlock`), and in front of the block it moves lines from what is left to what is above
(`usagesFrom_beforeBlock`).

* `importedName?_eq_some_iff`: the name that a line imports, by what stands around it.
* `isLastPackage_lastPackage`: the package in force below some lines.
* `Splits.unique`: preamble and block are determined by what they are.
* `usages_of_import_block`: all of this together, for every sequence of lines.
-/

set_option autoImplicit false

namespace ImportCensus

namespace Header

/-! ### What a line imports -/

/-- A line imports a name: the name stands behind the first keyword, up to the first terminator, or
up to the ending of a line without terminator. -/
inductive Imports (line name : Text) : Prop
  | terminated {rest : Text} :
      Text.IsAfterFirst importKeyword line (name ++ terminator :: rest) → terminator ∉ name →
      Imports line name
  | unterminated {ending : Text} :
      Text.IsAfterFirst importKeyword line (name ++ ending) → terminator ∉ name ++ ending →
      (∀ c ∈ ending, Text.isLineBreak c = true) →
      (∀ c ∈ name.getLast?, Text.isLineBreak c = false) → Imports line name

/-- What a line imports, without searching and cutting. The two rules of `Imports` are the two ways
in which the program ends a name, and a line that has a terminator is never cut at its ending. -/
theorem importedName?_eq_some_iff {line name : Text} :
    importedName? line = some name ↔ Imports line name := by
  unfold importedName?
  rw [Option.map_eq_some_iff]
  constructor
  · rintro ⟨rest, hrest, hname⟩
    rw [Text.after?_eq_some_iff] at hrest
    by_cases hterm : terminator ∈ rest
    · -- The name ends at the first terminator.
      rw [if_pos (by simpa using hterm), Text.takeWhile_ne_eq_iff hterm] at hname
      obtain ⟨tail, rfl, hfresh⟩ := hname
      exact .terminated hrest hfresh
    · -- Without one, only the ending of the line is cut off.
      rw [if_neg (by simpa using hterm), Text.dropEndWhile_eq_iff] at hname
      obtain ⟨ending, rfl, hending, hlast⟩ := hname
      exact .unterminated hrest hterm hending hlast
  · rintro (⟨hrest, hfresh⟩ | ⟨hrest, hterm, hending, hlast⟩)
    · refine ⟨_, Text.after?_eq_some_iff.2 hrest, ?_⟩
      rw [if_pos (by simp), Text.takeWhile_ne_eq_iff (by simp)]
      exact ⟨_, rfl, hfresh⟩
    · refine ⟨_, Text.after?_eq_some_iff.2 hrest, ?_⟩
      rw [if_neg (by simpa using hterm), Text.dropEndWhile_eq_iff]
      exact ⟨_, rfl, hending, hlast⟩

/-- A line imports something exactly when it has the keyword, even if nothing stands behind it. So
the same test decides where the block of imports begins and ends. -/
theorem importedName?_eq_none_iff {line : Text} :
    importedName? line = none ↔ isImport line = false := by
  unfold importedName? isImport Text.mentions
  cases Text.after? importKeyword line <;> simp

/-! ### The package in force -/

/-- The package in force below some lines: that of the last one with the keyword, and the empty one
if no line has it. -/
inductive IsLastPackage : List Text → Text → Prop
  | declared {above below : List Text} {line package : Text} :
      packageIn? line = some package → (∀ other ∈ below, ¬ packageKeyword <:+: other) →
      IsLastPackage (above ++ line :: below) package
  | undeclared {lines : List Text} :
      (∀ line ∈ lines, ¬ packageKeyword <:+: line) → IsLastPackage lines []

/-- A line without the keyword declares no package. One with the keyword always declares one, though
it may be empty. -/
theorem packageIn?_eq_none_iff {line : Text} :
    packageIn? line = none ↔ ¬ packageKeyword <:+: line :=
  Option.map_eq_none_iff.trans Text.after?_eq_none_iff

/-- One more line sets the package if it declares one. This is what the loop does with its state at
each line, so `lastPackage` of the lines above is the state of the loop. -/
theorem lastPackage_concat (above : List Text) (line : Text) :
    lastPackage (above ++ [line]) = (packageIn? line).getD (lastPackage above) := by
  unfold lastPackage
  rw [List.reverse_append, List.reverse_singleton, List.singleton_append, List.findSome?_cons]
  cases packageIn? line <;> rfl

/-- The package that the loop keeps is the one in force, by the last line that declares one. The
induction adds a line below, which either declares the package anew or has no keyword. -/
theorem isLastPackage_lastPackage (lines : List Text) :
    IsLastPackage lines (lastPackage lines) := by
  induction lines using List.reverseRecOn with
  | nil => exact .undeclared (by simp)
  | append_singleton lines line ih =>
    rw [lastPackage_concat]
    cases hline : packageIn? line with
    | some package => exact .declared hline (by simp)
    | none =>
      have hnot := packageIn?_eq_none_iff.1 hline
      rw [Option.getD_none]
      -- A line without the keyword changes nothing, whichever way the package above came about.
      generalize lastPackage lines = package at ih
      cases ih with
      | declared hdeclared hbelow =>
        rw [List.append_assoc, List.cons_append]
        exact .declared hdeclared
          (List.forall_mem_append.2 ⟨hbelow, List.forall_mem_singleton.2 hnot⟩)
      | undeclared hnone =>
        exact .undeclared (List.forall_mem_append.2 ⟨hnone, List.forall_mem_singleton.2 hnot⟩)

/-! ### The block, line by line -/

/-- The usage that a line makes below the lines `above`, which end with the line itself. -/
def lineUsage? (unitName : Text) (known : ClassSet) (above : List Text) (line : Text) :
    Option Usage :=
  match importedName? line with
  | some name =>
    if known.contains name then
      some ⟨name, CompilationUnit.qualifiedName ⟨lastPackage above, unitName⟩⟩
    else none
  | none => none

/-- The usages that lines make below the lines `above`. -/
def usagesBelow (unitName : Text) (known : ClassSet) (above lines : List Text) : List Usage :=
  lines.zipIdx.filterMap fun (line, index) =>
    lineUsage? unitName known (above ++ lines.take (index + 1)) line

/-- The usages of a block, with the position of each line left out: they are those of the lines of
the block below the preamble. -/
theorem blockUsages_eq (unitName : Text) (known : ClassSet) (lines : List Text) :
    blockUsages unitName known lines =
      usagesBelow unitName known (preamble lines) (importBlock lines) := rfl

variable {unitName : Text} {known : ClassSet}

/-- The usages of several lines: that of the first one, and those of the others below it. The
definition numbers the lines, and this equation lets proofs go from line to line. -/
theorem usagesBelow_cons (above : List Text) (line : Text) (rest : List Text) :
    usagesBelow unitName known above (line :: rest) =
      (lineUsage? unitName known (above ++ [line]) line).toList ++
        usagesBelow unitName known (above ++ [line]) rest := by
  have hrest : ((line :: rest).zipIdx.tail).filterMap (fun (other, index) =>
        lineUsage? unitName known (above ++ (line :: rest).take (index + 1)) other) =
      usagesBelow unitName known (above ++ [line]) rest := by
    -- The line is part of what is above the lines behind it.
    unfold usagesBelow
    rw [List.zipIdx_cons, List.tail_cons, List.zipIdx_succ, List.filterMap_map]
    congr 1
    funext ⟨other, index⟩
    simp
  rw [← hrest]
  unfold usagesBelow
  rw [List.zipIdx_cons, List.tail_cons, List.filterMap_cons]
  simp only [Nat.zero_add, List.take_succ_cons, List.take_zero]
  cases lineUsage? unitName known (above ++ [line]) line <;> rfl

/-! ### The loop -/

/-- A blank line is dropped. -/
theorem codeLines_cons_of_isBlank {line : Text} (h : Text.isBlank line = true)
    (lines : List Text) : codeLines (line :: lines) = codeLines lines :=
  List.filter_cons_of_neg (by simp [h])

/-- Any other line is kept. -/
theorem codeLines_cons_of_not_isBlank {line : Text} (h : Text.isBlank line = false)
    (lines : List Text) : codeLines (line :: lines) = line :: codeLines lines :=
  List.filter_cons_of_pos (by simp [h])

/-- Blank lines do not matter: the loop passes over them in every state. So the block can be looked
for among the lines that are left when they are dropped. -/
theorem usagesFrom_codeLines (package : Text) (inBlock : Bool) (lines : List Text) :
    usagesFrom unitName known package inBlock (codeLines lines) =
      usagesFrom unitName known package inBlock lines := by
  induction lines generalizing package inBlock with
  | nil => rfl
  | cons line lines ih =>
    cases hblank : Text.isBlank line with
    | true =>
      -- The filter drops the line, and the loop passes over it.
      rw [codeLines_cons_of_isBlank hblank, ih, usagesFrom, if_pos hblank]
    | false =>
      -- Both keep the line. What the loop goes on with does not depend on the lines below.
      have hnot : ¬ Text.isBlank line = true := by simp [hblank]
      rw [codeLines_cons_of_not_isBlank hblank, usagesFrom, usagesFrom, if_neg hnot, if_neg hnot]
      cases importedName? line with
      | some name => simp only [ih]
      | none => cases inBlock <;> simp [ih]

/-- One line that is not blank, below the lines `above`. An import makes its usage and leads on in
the block. Any other line closes the block, or is passed in front of it. The state of the loop is
written as `lastPackage above` on both sides, which is the invariant. -/
theorem usagesFrom_cons {above rest : List Text} {line : Text} (inBlock : Bool)
    (hline : Text.isBlank line = false) :
    usagesFrom unitName known (lastPackage above) inBlock (line :: rest) =
      if isImport line then
        (lineUsage? unitName known (above ++ [line]) line).toList ++
          usagesFrom unitName known (lastPackage (above ++ [line])) true rest
      else if inBlock then []
      else usagesFrom unitName known (lastPackage (above ++ [line])) false rest := by
  rw [usagesFrom, if_neg (by simp [hline]), ← lastPackage_concat]
  unfold lineUsage?
  cases himport : importedName? line with
  | some name =>
    have hkeyword : isImport line = true := by
      by_contra hnot
      rw [importedName?_eq_none_iff.2 (by simpa using hnot)] at himport
      cases himport
    rw [if_pos hkeyword]
    by_cases hknown : known.contains name = true <;> simp [hknown]
  | none =>
    rw [if_neg (by simp [importedName?_eq_none_iff.1 himport])]

/-- In the block the loop goes on as long as lines are imports, and what is behind the first other
line does not count. -/
theorem usagesFrom_inBlock {lines : List Text} (hlines : ∀ line ∈ lines, Text.isBlank line = false)
    (above : List Text) :
    usagesFrom unitName known (lastPackage above) true lines =
      usagesBelow unitName known above (lines.takeWhile isImport) := by
  induction lines generalizing above with
  | nil => rfl
  | cons line rest ih =>
    obtain ⟨hline, hrest⟩ := List.forall_mem_cons.1 hlines
    rw [usagesFrom_cons true hline]
    by_cases himport : isImport line = true
    · rw [if_pos himport, ih hrest, List.takeWhile_cons_of_pos himport, usagesBelow_cons]
    · rw [if_neg himport, if_pos rfl, List.takeWhile_cons_of_neg himport]
      rfl

/-- In front of the block, and through it. Lines that are no imports move from what is left to what
is above, so that the package which they declare is in force in the block. -/
theorem usagesFrom_beforeBlock {lines : List Text}
    (hlines : ∀ line ∈ lines, Text.isBlank line = false) (above : List Text) :
    usagesFrom unitName known (lastPackage above) false lines =
      usagesBelow unitName known (above ++ lines.takeWhile (!isImport ·))
        ((lines.dropWhile (!isImport ·)).takeWhile isImport) := by
  induction lines generalizing above with
  | nil => rfl
  | cons line rest ih =>
    obtain ⟨hline, hrest⟩ := List.forall_mem_cons.1 hlines
    rw [usagesFrom_cons false hline]
    by_cases himport : isImport line = true
    · -- The block begins here, and all lines in front of it are in `above`.
      have hfront : (line :: rest).takeWhile (!isImport ·) = [] := by simp [himport]
      have hback : (line :: rest).dropWhile (!isImport ·) = line :: rest := by simp [himport]
      rw [if_pos himport, usagesFrom_inBlock hrest, hfront, hback, List.append_nil,
        List.takeWhile_cons_of_pos himport, usagesBelow_cons]
    · -- The line moves from what is left to what is above.
      have hfront : (line :: rest).takeWhile (!isImport ·) =
          line :: rest.takeWhile (!isImport ·) := by simp [himport]
      have hback : (line :: rest).dropWhile (!isImport ·) = rest.dropWhile (!isImport ·) := by
        simp [himport]
      rw [if_neg himport, if_neg Bool.false_ne_true, ih hrest, hfront, hback, List.append_assoc,
        List.singleton_append]

/-- The loop reads the import block: what it finds with its state is found without any. -/
theorem usagesInLines_eq_blockUsages (lines : List Text) :
    usagesInLines unitName known lines = blockUsages unitName known lines := by
  have hcode : ∀ line ∈ codeLines lines, Text.isBlank line = false := fun line hline => by
    simpa using (List.mem_filter.1 hline).2
  rw [blockUsages_eq, usagesInLines, ← usagesFrom_codeLines]
  exact usagesFrom_beforeBlock hcode []

/-! ### What the block is -/

/-- The lines of a unit that are not blank, cut into three: no import stands in front of the block,
the block consists of imports, and no import follows it at once. Without a block nothing is left for
the third part. -/
structure Splits (lines before block after : List Text) : Prop where
  codeLines_eq : codeLines lines = before ++ block ++ after
  not_import_before : ∀ line ∈ before, ¬ importKeyword <:+: line
  import_block : ∀ line ∈ block, importKeyword <:+: line
  not_import_next : ∀ line ∈ after.head?, ¬ importKeyword <:+: line
  after_eq_nil : block = [] → after = []

/-- A line is an import if the keyword occurs anywhere in it, also in a comment or within a word. -/
theorem isImport_iff {line : Text} : isImport line = true ↔ importKeyword <:+: line :=
  Text.mentions_iff

/-- Preamble and import block are such parts. They are cut off where the lines begin to be imports
and where they cease to be. -/
theorem splits_preamble_importBlock (lines : List Text) :
    ∃ after, Splits lines (preamble lines) (importBlock lines) after := by
  have himports : codeLines lines =
      preamble lines ++ (codeLines lines).dropWhile (!isImport ·) :=
    List.takeWhile_append_dropWhile.symm
  refine ⟨((codeLines lines).dropWhile (!isImport ·)).dropWhile isImport, ?_, ?_, ?_, ?_, ?_⟩
  · unfold importBlock
    rw [List.append_assoc, List.takeWhile_append_dropWhile]
    exact himports
  · intro line hline himport
    have hnot := List.mem_takeWhile_imp hline
    rw [isImport_iff.2 himport] at hnot
    cases hnot
  · intro line hline
    exact isImport_iff.1 (List.mem_takeWhile_imp hline)
  · intro line hline himport
    have hhead := List.head?_dropWhile_not isImport ((codeLines lines).dropWhile (!isImport ·))
    rw [Option.mem_def.1 hline] at hhead
    simp [isImport_iff.2 himport] at hhead
  · unfold importBlock
    intro hnil
    cases hdrop : (codeLines lines).dropWhile (!isImport ·) with
    | nil => rfl
    | cons line rest =>
      -- The line at which the search for an import stops is one, so the block would begin there.
      have hhead := List.head?_dropWhile_not (!isImport ·) (codeLines lines)
      rw [hdrop] at hhead hnil
      have himport : isImport line = true := by simpa using hhead
      rw [List.takeWhile_cons_of_pos himport] at hnil
      cases hnil

/-- There is one way only to cut lines in this way. The preamble has no imports, so the block begins
at the first one, and it ends where the next line is none. -/
theorem Splits.unique {lines before block after : List Text} (h : Splits lines before block after) :
    preamble lines = before ∧ importBlock lines = block := by
  have hbefore : ∀ line ∈ before, (!isImport line) = true := by
    intro line hline
    simpa [← isImport_iff] using h.not_import_before line hline
  have hblock : ∀ line ∈ block, isImport line = true := fun line hline =>
    isImport_iff.2 (h.import_block line hline)
  -- Behind `before` the lines go on with an import, or there are no more.
  have hfront : (block ++ after).takeWhile (!isImport ·) = [] ∧
      (block ++ after).dropWhile (!isImport ·) = block ++ after := by
    cases block with
    | nil => simp [h.after_eq_nil rfl]
    | cons line rest => simp [hblock line List.mem_cons_self]
  -- Behind the block they go on with a line that is none.
  have hback : after.takeWhile isImport = [] := by
    cases after with
    | nil => rfl
    | cons line rest =>
      have hnot := h.not_import_next line rfl
      rw [← isImport_iff] at hnot
      exact List.takeWhile_cons_of_neg hnot
  unfold importBlock preamble
  rw [h.codeLines_eq, List.append_assoc, List.takeWhile_append_of_pos hbefore,
    List.dropWhile_append_of_pos hbefore, hfront.1, hfront.2, List.append_nil,
    List.takeWhile_append_of_pos hblock, hback, List.append_nil]
  exact ⟨rfl, rfl⟩

/-- **The usages of a unit are those of its import block.** For every sequence of lines, of which
those that are not blank are cut into preamble, import block and the rest:

1. the import block is the first run of lines with the keyword;
2. if no line has the keyword there are no usages;
3. else each line of the block whose name is known makes one, in order, for the package in force
   below that line, the line itself included;
4. the name of a line is what `Imports` says, and the package in force what `IsLastPackage` says;
5. other lines with the same preamble and the same block have the same usages, whatever follows the
   block. -/
theorem usages_of_import_block (unitName : Text) (known : ClassSet) (lines : List Text) :
    (∃ after, Splits lines (preamble lines) (importBlock lines) after) ∧
      ((∀ line ∈ codeLines lines, ¬ importKeyword <:+: line) →
        usagesInLines unitName known lines = []) ∧
      usagesInLines unitName known lines = blockUsages unitName known lines ∧
      (∀ line name, importedName? line = some name ↔ Imports line name) ∧
      (∀ above, IsLastPackage above (lastPackage above)) ∧
      ∀ other after, Splits other (preamble lines) (importBlock lines) after →
        usagesInLines unitName known other = usagesInLines unitName known lines := by
  refine ⟨splits_preamble_importBlock lines, fun hnone => ?_, usagesInLines_eq_blockUsages lines,
    fun _ _ => importedName?_eq_some_iff, isLastPackage_lastPackage, fun other after hother => ?_⟩
  · -- Without imports all lines are in front of a block that is empty.
    have hsplits : Splits lines (codeLines lines) [] [] :=
      ⟨by simp, hnone, by simp, by simp, fun _ => rfl⟩
    rw [usagesInLines_eq_blockUsages, blockUsages_eq, hsplits.unique.2]
    rfl
  · rw [usagesInLines_eq_blockUsages, usagesInLines_eq_blockUsages, blockUsages_eq, blockUsages_eq,
      hother.unique.1, hother.unique.2]

end Header

end ImportCensus

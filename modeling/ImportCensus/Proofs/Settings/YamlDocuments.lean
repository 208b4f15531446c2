import ImportCensus.Proofs.Settings.Documents
import ImportCensus.Settings.Yaml.Reading

/-!
# `ImportCensus.Proofs.Settings.YamlDocuments`: assignments are read back from YAML

In YAML a line break ends a plain scalar only if the next line is not indented, and a blank belongs
to a quoted scalar only if something else follows on its line. So what a reader does at the end of
its part depends on the next line. That begins with a key in the first column, or there is none:
`AtLine` says so of the cursor, and the induction over the lines hands it on.

* `Yaml.readQuoted?_escaped`, `Yaml.readPlain?_append`: the two kinds of scalars in a document.
* `Yaml.readEntry?_append`: what stands on one line.
* `Yaml.read?_isDocument`: all the assignments of a document are read back.
-/

set_option autoImplicit false

namespace ImportCensus

/-- The scalar as which a value is read. Whether it was quoted is kept, since a plain word may be a
truth value. -/
def Literal.scalar : Literal → Yaml.Scalar
  | string content => ⟨content, .quoted, none⟩
  | boolean truth => ⟨(Literal.boolean truth).text, .plain, none⟩

/-- The entry as which an assignment is read. -/
def Assignment.entry (assignment : Assignment) : Yaml.Entry :=
  (⟨assignment.key, .plain, none⟩, assignment.value.scalar)

namespace Yaml

/-! ### Tokens -/

/-- Tests for a character that is not passed over in front of a token: it is no blank or break, and
begins neither a comment nor a byte order mark. -/
def beginsToken (c : Char) : Bool := !isBreak c && !isSpace c && c != '#' && c != '\ufeff'

/-- No printable character of ASCII breaks a line. -/
theorem isBreak_of_isPrintableAscii {c : Char} (h : isPrintableAscii c = true) :
    isBreak c = false := by
  have hne (other : Char) (hother : isPrintableAscii other = false) : c ≠ other :=
    ne_of_test h hother
  simp [isBreak, hne '\n' rfl, hne '\u2028' rfl, hne '\u2029' rfl]

/-- The characters of keys are no white space. -/
theorem isSpace_of_isBareChar {c : Char} (h : isBareChar c = true) : isSpace c = false := by
  have hne (other : Char) (hother : isBareChar other = false) : c ≠ other := ne_of_test h hother
  simp [isSpace, hne ' ' rfl, hne '\t' rfl]

/-- Nor do they break a line. -/
theorem isBreak_of_isBareChar {c : Char} (h : isBareChar c = true) : isBreak c = false :=
  isBreak_of_isPrintableAscii (isPrintableAscii_of_isBareChar h)

/-- So a key, or a truth value, begins a token with its first character. -/
theorem beginsToken_of_isBareChar {c : Char} (h : isBareChar c = true) : beginsToken c = true := by
  have hcomment : c ≠ '#' := ne_of_test h rfl
  have hmark : c ≠ '\ufeff' := ne_of_test h rfl
  simp [beginsToken, isBreak_of_isBareChar h, isSpace_of_isBareChar h, hcomment, hmark]

/-- Nothing is passed over in front of a token, in whichever column the cursor is. -/
theorem skip_cons {c : Char} (h : beginsToken c = true) (column : Nat) (fresh : Bool) (t : Text) :
    skip false ⟨column, fresh, c :: t⟩ = ⟨column, fresh, c :: t⟩ := by
  simp only [beginsToken, Bool.and_eq_true, Bool.not_eq_true', bne_iff_ne] at h
  obtain ⟨⟨⟨hbreak, hspace⟩, hcomment⟩, hmark⟩ := h
  simp only [isSpace, Bool.or_eq_false_iff] at hspace
  simp [skip, skipFrom, hbreak, hspace, hcomment, hmark]

/-- No line of a document begins with the characters of a marker, which are dashes or dots. -/
theorem atMarker_of_isBareChar {c : Char} (h : isBareChar c = true) (column : Nat) (fresh : Bool)
    (t : Text) : Cursor.atMarker ⟨column, fresh, c :: t⟩ = false := by
  have hdash : c ≠ '-' := ne_of_test h rfl
  have hdot : c ≠ '.' := ne_of_test h rfl
  simp [Cursor.atMarker, Cursor.atDocumentStart, Cursor.atDocumentEnd, startsWithMarker, hdash,
    hdot]

/-- Behind the first column there is no marker, so a string may hold what would be one. -/
theorem atMarker_of_pos {column : Nat} (h : 0 < column) (fresh : Bool) (t : Text) :
    Cursor.atMarker ⟨column, fresh, t⟩ = false := by
  have hne : (column == 0) = false := beq_false_of_ne (Nat.pos_iff_ne_zero.1 h)
  simp [Cursor.atMarker, Cursor.atDocumentStart, Cursor.atDocumentEnd, hne]

/-! ### Scalars -/

/-- An escape is read back as the character it stands for. YAML has many more escapes than the
notation makes use of. -/
theorem readEscape?_append {c : Char} {escape : Text} (h : IsEscape c escape) (rest : Text) :
    readEscape? (escape ++ rest) = some (c, rest) := by
  rcases h with (rfl | rfl) | ⟨hlength, hvalue⟩ | ⟨hlength, hvalue⟩
  · rfl
  · rfl
  · exact Text.readHex?_eq_some_iff.2 ⟨_, hlength, hvalue, rfl⟩
  · exact Text.readHex?_eq_some_iff.2 ⟨_, hlength, hvalue, rfl⟩

/-- Behind a backslash an escape is read, and the cursor gets on by its length and the backslash. No
escape begins with a line break, which would join two lines. -/
theorem nextPiece?_backslash {c : Char} {escape : Text} (h : IsEscape c escape) (rest : Text) :
    nextPiece? doubleQuote ('\x5c' :: (escape ++ rest)) = some (.char c, 1 + escape.length) := by
  have hbreak : ¬ (escape ++ rest).head?.any isBreak = true := by
    rcases h with (rfl | rfl) | _ | _ <;> simp [isBreak]
  rw [nextPiece?, if_neg (by decide), if_pos ⟨rfl, rfl⟩, if_neg hbreak, readEscape?_append h]
  simp

/-- One step of reading a quoted scalar: a character, however it is written. A blank is kept back in
the gap until the next other character. -/
theorem readQuoted?_piece {c : Char} {piece : Text} (h : IsPiece c piece) {column : Nat}
    (hcolumn : 0 < column) (gap rest : Text) :
    ∃ front gap' column', front ++ gap' = gap ++ [c] ∧ 0 < column' ∧
      readQuoted? doubleQuote (.blanks gap) column (piece ++ rest) =
        (readQuoted? doubleQuote (.blanks gap') column' rest).map
          fun (more, after) => (front ++ more, after) := by
  have hmarker := atMarker_of_pos hcolumn true
  rcases h with ⟨hprintable, hquote, hbackslash⟩ | @⟨escape, hescape⟩
  · rw [List.singleton_append, readQuoted?, if_neg (by simp [hmarker]),
      if_neg (by simp [isBreak_of_isPrintableAscii hprintable])]
    by_cases hblank : c = ' '
    · -- The blank goes into the gap, and nothing is content yet.
      subst hblank
      refine ⟨[], gap ++ [' '], column + 1, rfl, by omega, ?_⟩
      rw [if_pos (by decide), Gap.addBlank]
      simp
    · -- Any other character brings the gap in front of it into the content.
      refine ⟨gap ++ [c], [], column + 1, List.append_nil _, by omega, ?_⟩
      have htab : c ≠ '\t' := ne_of_test hprintable rfl
      have hspace : isSpace c = false := by simp [isSpace, hblank, htab]
      rw [if_neg (by simp [hspace])]
      have hpiece : nextPiece? doubleQuote (c :: rest) = some (.char c, 1) := by
        rw [nextPiece?, if_neg (show c ≠ doubleQuote from hquote), if_neg (by simp [hbackslash])]
      rw [hpiece]
      simp only [List.append_assoc, List.singleton_append]
      rfl
  · -- So does an escape, whatever it stands for.
    refine ⟨gap ++ [c], [], column + (1 + escape.length), List.append_nil _, by omega, ?_⟩
    rw [List.cons_append, readQuoted?, if_neg (by simp [hmarker]), if_neg (by decide),
      if_neg (by decide), nextPiece?_backslash hescape]
    simp only [Nat.add_sub_cancel_left, List.drop_left, List.append_assoc, List.singleton_append]
    rfl

/-- A quoted scalar is read up to the quote behind it. What was kept back in the gap comes in front
of the content, so the induction can hand it on. -/
theorem readQuoted?_escaped {content written : Text} (h : Escaped content written) {column : Nat}
    (hcolumn : 0 < column) (gap rest : Text) :
    ∃ column', readQuoted? doubleQuote (.blanks gap) column (written ++ '\x22' :: rest) =
      some (gap ++ content, ⟨column', false, rest⟩) := by
  induction h generalizing gap column with
  | nil =>
    refine ⟨column + 1, ?_⟩
    rw [List.nil_append, readQuoted?, if_neg (by simp [atMarker_of_pos hcolumn]),
      if_neg (by decide), if_neg (by decide)]
    simp [nextPiece?, doubleQuote, singleQuote, Gap.text]
  | cons hpiece _ ih =>
    obtain ⟨front, gap', next, hcontent, hnext, hstep⟩ := readQuoted?_piece hpiece hcolumn gap _
    obtain ⟨last, hrest⟩ := ih hnext gap'
    refine ⟨last, ?_⟩
    rw [List.append_assoc, hstep, hrest, Option.map_some, ← List.singleton_append,
      ← List.append_assoc, ← hcontent, List.append_assoc]

/-- A character of a bare word never ends a plain scalar: it is no colon, no white space and no
break. -/
theorem readPlain?_cons {c : Char} (h : isBareChar c = true) (indent column : Nat) (rest : Text) :
    readPlain? false indent Gap.none column (c :: rest) =
      (readPlain? false indent Gap.none (column + 1) rest).map
        fun (content, after) => (c :: content, after) := by
  have hcolon : c ≠ ':' := ne_of_test h rfl
  have hends : endsPlain false indent column Gap.none c rest = false := by
    simp [endsPlain, hcolon, Gap.none, Gap.hasBreak]
  rw [readPlain?, if_neg (by simp [isBreak_of_isBareChar h]),
    if_neg (by simp [isSpace_of_isBareChar h]), if_neg (by simp [hends]), if_neg (by simp)]
  rfl

/-- So a plain scalar has the whole word, and goes on with what follows it. -/
theorem readPlain?_append {word : Text} (h : ∀ c ∈ word, isBareChar c = true)
    (indent column : Nat) (rest : Text) :
    readPlain? false indent Gap.none column (word ++ rest) =
      (readPlain? false indent Gap.none (column + word.length) rest).map
        fun (content, after) => (word ++ content, after) := by
  induction word generalizing column with
  | nil => simp
  | cons c word ih =>
    obtain ⟨hc, hword⟩ := List.forall_mem_cons.1 h
    rw [List.cons_append, readPlain?_cons hc, ih hword, Option.map_map, List.length_cons,
      Nat.add_right_comm, Nat.add_assoc]
    rfl

/-! ### Lines -/

/-- The cursor stands at the beginning of a line, or at the end of the text. At the end the column
is not known, and it does not matter. -/
def AtLine (text : Text) (c : Cursor) : Prop :=
  c = Cursor.start text ∨ (text = [] ∧ c.rest = [])

/-- In both cases the text is what is left to be read. -/
theorem AtLine.rest_eq {text : Text} {c : Cursor} (h : AtLine text c) : c.rest = text := by
  rcases h with rfl | ⟨rfl, hrest⟩
  · rfl
  · exact hrest

/-- If something is left, the cursor stands in the first column. -/
theorem AtLine.eq_start {text : Text} {c : Cursor} (h : AtLine text c) (hne : text ≠ []) :
    c = Cursor.start text :=
  h.resolve_right fun hend => hne hend.1

/-- The text is empty or begins with a key. It is what a scalar has to know of the line behind
it. -/
def BeginsWithKey (text : Text) : Prop := ∀ c ∈ text.head?, isBareChar c = true

/-- Every document begins with a key, unless it is empty, and so does each rest of it. -/
theorem beginsWithKey_of_isDocument {sign text : Text} {assignments : List Assignment}
    (h : IsDocument sign assignments text) : BeginsWithKey text := by
  cases h with
  | nil => nofun
  | cons hkey =>
    obtain ⟨c, key, hcons, hbare⟩ := exists_eq_cons_of_isBareKey hkey
    rw [hcons]
    intro d hd
    cases hd
    exact hbare

variable {tail next : Text}

/-- Between the value at the end of a line and the key at the beginning of the next one nothing but
the line break is passed over. -/
theorem atLine_skip (htail : EndsLine tail next) (hnext : BeginsWithKey next) (column : Nat)
    (fresh : Bool) : AtLine next (skip false ⟨column, fresh, tail⟩) := by
  cases htail with
  | last => exact .inr ⟨rfl, rfl⟩
  | more =>
    cases next with
    | nil => exact .inr ⟨rfl, rfl⟩
    | cons c next =>
      exact .inl (skip_cons (beginsToken_of_isBareChar (hnext c rfl)) 0 true next)

/-! ### Nodes -/

/-- A word that begins like a key is read as a plain scalar. None of the signs that introduce
something else is a letter or an underscore. -/
theorem readScalar?_word {c : Char} (h : isBareChar c = true) (parent column : Nat) (fresh : Bool)
    (t : Text) :
    readScalar? false parent ⟨column, fresh, c :: t⟩ =
      (readPlain? false (parent + 1) Gap.none column (c :: t)).map
        fun (content, after) => ((content, .plain), after) := by
  have hne (other : Char) (hother : isBareChar other = false) : c ≠ other := ne_of_test h hother
  -- No indicator is a letter or an underscore.
  have hplain : startsPlain false (c :: t) = true := by
    have hnone : indicators.any isBareChar = false := by decide
    have hindicator : c ∉ indicators := fun hmem => List.any_eq_false.1 hnone c hmem h
    rw [startsPlain, if_neg (hne '-' rfl), if_neg (not_or.2 ⟨hne '?' rfl, hne ':' rfl⟩)]
    simp [isBreak_of_isBareChar h, isSpace_of_isBareChar h, hindicator]
  simp only [readScalar?]
  rw [if_neg (by simp [atMarker_of_isBareChar h]),
    if_neg (not_or.2 ⟨hne doubleQuote rfl, hne singleQuote rfl⟩), if_neg (by simp [hne '|' rfl]),
    if_neg (by simp [hne '>' rfl]), if_pos hplain]
  rfl

/-- A quote opens a quoted scalar. It stands behind the first column, where no marker can be. -/
theorem readScalar?_quote (parent : Nat) {column : Nat} (h : 0 < column) (fresh : Bool) (t : Text) :
    readScalar? false parent ⟨column, fresh, '\x22' :: t⟩ =
      (readQuoted? doubleQuote Gap.none (column + 1) t).map
        fun (content, after) => ((content, .quoted), after) := by
  simp only [readScalar?]
  rw [if_neg (by simp [atMarker_of_pos h]), if_pos (.inl rfl)]
  rfl

/-- Nothing but an indicator introduces the properties of a node, so the reader goes on where it
is. -/
theorem readProperty?_cons {x : Char} (hanchor : x ≠ '&') (htag : x ≠ '!') (properties : Properties)
    (column : Nat) (fresh : Bool) (t : Text) :
    readProperty? false properties ⟨column, fresh, x :: t⟩ =
      some (properties, ⟨column, fresh, x :: t⟩) := by
  simp [readProperty?, Cursor.atChar, hanchor, htag]

/-- A node that is no alias and has no properties is a scalar. -/
theorem readNode?_cons {x : Char} (halias : x ≠ '*') (hanchor : x ≠ '&') (htag : x ≠ '!')
    (parent : Nat) (anchors : Anchors) (column : Nat) (fresh : Bool) (t : Text) :
    readNode? false parent anchors ⟨column, fresh, x :: t⟩ =
      (readScalar? false parent ⟨column, fresh, x :: t⟩).map
        fun ((content, style), after) => (⟨content, style, none⟩, anchors, after) := by
  simp only [readNode?]
  rw [if_neg (by simp [Cursor.atChar, halias]), readProperty?_cons hanchor htag]
  simp only [Option.bind_eq_bind, Option.bind_some]
  rw [readProperty?_cons hanchor htag]
  simp only [Option.bind_some, ne_eq, not_true_eq_false, false_and, if_false]
  cases readScalar? false parent ⟨column, fresh, x :: t⟩ <;> rfl

/-- So a node that begins with a word is a plain scalar, which has the word in front of whatever
else it holds. -/
theorem readNode?_word {word : Text} (h : Assignment.isBareKey word = true) (parent : Nat)
    (anchors : Anchors) (column : Nat) (fresh : Bool) (rest : Text) :
    readNode? false parent anchors ⟨column, fresh, word ++ rest⟩ =
      (readPlain? false (parent + 1) Gap.none (column + word.length) rest).map
        fun (content, after) => (⟨word ++ content, .plain, none⟩, anchors, after) := by
  have hplain := readPlain?_append (isBareKey_iff.1 h).2 (parent + 1) column rest
  obtain ⟨c, front, rfl, hc⟩ := exists_eq_cons_of_isBareKey h
  rw [List.cons_append, readNode?_cons (ne_of_test hc rfl) (ne_of_test hc rfl)
    (ne_of_test hc rfl), readScalar?_word hc, ← List.cons_append, hplain, Option.map_map,
    Option.map_map]
  rfl

/-! ### Entries -/

/-- A key lies on one line, and it is within the limit if it has no more characters. -/
theorem isKeySpan_append {key : Text} (h : ∀ c ∈ key, isBareChar c = true) (rest : Text)
    (column : Nat) :
    isKeySpan (Cursor.start (key ++ rest)) ⟨column, false, rest⟩ =
      decide (key.length ≤ keyLimit) := by
  have hbreak : key.any isBreak = false :=
    List.any_eq_false.2 fun c hc => by simp [isBreak_of_isBareChar (h c hc)]
  have hpassed : (key ++ rest).take ((key ++ rest).length - rest.length) = key := by
    rw [List.length_append, Nat.add_sub_cancel, List.take_left]
  simp only [isKeySpan, Cursor.start, hpassed, hbreak, Bool.not_false, Bool.and_true]

/-- A key is read with the colon behind it, unless it is too long. The colon ends the plain scalar
because a blank follows. -/
theorem readKey?_append {key : Text} (h : Assignment.isBareKey key = true) (anchors : Anchors)
    (t : Text) :
    readKey? false 0 anchors (Cursor.start (key ++ ':' :: ' ' :: t)) =
      if key.length ≤ keyLimit then
        some (⟨key, .plain, none⟩, anchors, ⟨key.length + 1, false, ' ' :: t⟩)
      else none := by
  have hbare := (isBareKey_iff.1 h).2
  have hnode : readNode? false 0 anchors (Cursor.start (key ++ ':' :: ' ' :: t)) =
      some (⟨key, .plain, none⟩, anchors, ⟨key.length, false, ':' :: ' ' :: t⟩) := by
    rw [Cursor.start, readNode?_word h, readPlain?, if_neg (by decide), if_neg (by decide),
      if_pos (by rfl)]
    simp [Gap.none, Gap.hasBreak]
  have hcolon : atColon false ⟨key.length, false, ':' :: ' ' :: t⟩ = true := rfl
  simp only [readKey?, hnode, Option.bind_eq_bind, Option.bind_some]
  rw [skip_cons (by decide), hcolon, Bool.true_and, isKeySpan_append hbare]
  simp only [decide_eq_true_eq]
  rfl

/-- A plain scalar ends where its line does, since the next line is not indented. Within the entry a
scalar that goes on has to be. -/
theorem readPlain?_endsLine (htail : EndsLine tail next) (hnext : BeginsWithKey next)
    (column : Nat) :
    ∃ after, readPlain? false 1 Gap.none column tail = some ([], after) ∧
      AtLine next (skip false after) := by
  cases htail with
  | last => exact ⟨_, rfl, .inr ⟨rfl, rfl⟩⟩
  | more =>
    cases next with
    | nil => exact ⟨_, rfl, .inr ⟨rfl, rfl⟩⟩
    | cons c next =>
      have hc := hnext c rfl
      refine ⟨Cursor.start (c :: next), ?_,
        .inl (skip_cons (beginsToken_of_isBareChar hc) 0 true next)⟩
      rw [readPlain?, if_pos (by decide), readPlain?, if_neg (by simp [isBreak_of_isBareChar hc]),
        if_neg (by simp [isSpace_of_isBareChar hc]), if_pos]
      · rfl
      · simp [endsPlain, Gap.addBreak, Gap.none, Gap.hasBreak]

/-- A value is read up to the end of its line, and then the cursor is at the next one. A string
stops at its quote, and a word has to look at the next line first. -/
theorem readValue?_append {literal : Literal} {written : Text} (h : literal.IsWritten written)
    (htail : EndsLine tail next) (hnext : BeginsWithKey next) (anchors : Anchors) (column : Nat) :
    ∃ after, readValue? false 0 anchors ⟨column, false, ' ' :: (written ++ tail)⟩ =
        some (literal.scalar, anchors, after) ∧
      AtLine next (skip false after) := by
  obtain ⟨c, rest, hcons, hc⟩ := h.exists_eq_cons
  have hskip : skip false ⟨column, false, ' ' :: (written ++ tail)⟩ =
      ⟨column + 1, false, written ++ tail⟩ := by
    have htoken : beginsToken c = true := by rcases hc with rfl | rfl | rfl <;> rfl
    rw [hcons]
    exact skip_cons htoken (column + 1) false (rest ++ tail)
  have hpresent : isAbsent false 0 ⟨column + 1, false, written ++ tail⟩ = false := by
    rw [hcons]
    simp [isAbsent, Cursor.atEnd, atMarker_of_pos]
  simp only [readValue?, hskip, hpresent]
  -- A string stops at its quote, and the break is passed over; a word stops at the next key.
  rcases h with @⟨content, written, hescaped⟩ | truth
  · obtain ⟨last, hread⟩ :=
      readQuoted?_escaped hescaped (Nat.succ_pos (column + 1)) [] tail
    refine ⟨⟨last, false, tail⟩, ?_, atLine_skip htail hnext last false⟩
    rw [List.cons_append, List.append_assoc, List.singleton_append,
      readNode?_cons (by decide) (by decide) (by decide),
      readScalar?_quote 0 (Nat.succ_pos column), Gap.none, hread]
    rfl
  · have hword : Assignment.isBareKey (Literal.boolean truth).text = true := by
      cases truth <;> decide
    obtain ⟨after, hread, hline⟩ := readPlain?_endsLine htail hnext
      (column + 1 + (Literal.boolean truth).text.length)
    refine ⟨after, ?_, hline⟩
    rw [readNode?_word hword, hread]
    simp [Literal.scalar]

/-- An entry is read up to the next line, unless its key is too long. Then the document is refused,
whatever its value is. -/
theorem readEntry?_append {assignment : Assignment} {written : Text}
    (hkey : Assignment.isBareKey assignment.key = true)
    (hwritten : assignment.value.IsWritten written) (htail : EndsLine tail next)
    (hnext : BeginsWithKey next) (anchors : Anchors) :
    ∃ after, AtLine next after ∧
      readEntry? false 0 anchors
          (Cursor.start (assignment.key ++ (": ".toList ++ (written ++ tail)))) =
        if assignment.key.length ≤ keyLimit then some (assignment.entry, anchors, after)
        else none := by
  obtain ⟨after, hvalue, hline⟩ :=
    readValue?_append hwritten htail hnext anchors (assignment.key.length + 1)
  refine ⟨_, hline, ?_⟩
  -- The entry begins with its key, and not with the sign for a key on lines of its own.
  have hquestion : atQuestion false
      (Cursor.start (assignment.key ++ ':' :: ' ' :: (written ++ tail))) = false := by
    obtain ⟨c, key, hcons, hbare⟩ := exists_eq_cons_of_isBareKey hkey
    have hne : c ≠ '?' := ne_of_test hbare rfl
    simp [hcons, atQuestion, Cursor.start, Cursor.atWord, Cursor.atChar, hne]
  show readEntry? false 0 anchors (Cursor.start (_ ++ ':' :: ' ' :: (written ++ tail))) = _
  rw [ readEntry?, hquestion, readKey?_append hkey]
  by_cases hfits : assignment.key.length ≤ keyLimit
  · simp only [if_pos hfits, hvalue]
    rfl
  · simp only [if_neg hfits]
    rfl

/-! ### Documents -/

/-- The keys are not too long to be read. -/
def KeysFit (assignments : List Assignment) : Prop :=
  ∀ assignment ∈ assignments, assignment.key.length ≤ keyLimit

instance (assignments : List Assignment) : Decidable (KeysFit assignments) :=
  inferInstanceAs (Decidable (∀ assignment ∈ assignments, assignment.key.length ≤ keyLimit))

/-- All the lines of a document are read, unless one has a key that is too long. Behind the last
line the cursor is at the end of the text, which ends the block. -/
theorem readBlockEntries?_isDocument {assignments : List Assignment} {text : Text}
    (h : IsDocument ": ".toList assignments text) {c : Cursor} (hc : AtLine text c) :
    ∃ after, after.rest = [] ∧
      readBlockEntries? 0 [] c =
        if KeysFit assignments then some (assignments.map Assignment.entry, after) else none := by
  induction h generalizing c with
  | nil =>
    refine ⟨c, hc.rest_eq, ?_⟩
    have hend : c.atEnd = true := by rw [Cursor.atEnd, hc.rest_eq]; rfl
    rw [readBlockEntries?, hend, Bool.true_or, if_pos rfl,
      if_pos (show KeysFit [] from List.forall_mem_nil _)]
    rfl
  | @cons assignment rest written tail next hkey hwritten htail hrest ih =>
    obtain ⟨stop, hline, hentry⟩ :=
      readEntry?_append hkey hwritten htail (beginsWithKey_of_isDocument hrest) []
    obtain ⟨after, hafter, hentries⟩ := ih hline
    refine ⟨after, hafter, ?_⟩
    -- The cursor stands at the key, with which the entry begins, and stops behind the entry.
    obtain ⟨d, key, hcons, hbare⟩ := exists_eq_cons_of_isBareKey hkey
    have hstart := hc.eq_start (by simp [hcons])
    have hpresent : (c.atEnd || c.atMarker) = false := by
      rw [hstart, hcons, Cursor.start, List.cons_append, atMarker_of_isBareChar hbare]
      rfl
    have hplace : ¬ (c.column ≠ 0 ∨ (!c.fresh) = true) := by simp [hstart, Cursor.start]
    have hshorter : stop.rest.length < c.rest.length := by
      rw [hline.rest_eq, hc.rest_eq]
      exact htail.length_lt hkey ": ".toList written
    rw [readBlockEntries?, hpresent, if_neg Bool.false_ne_true, if_neg hplace, hstart, hentry,
      ← hstart]
    by_cases hfits : assignment.key.length ≤ keyLimit
    · rw [if_pos hfits]
      dsimp only
      have hall : KeysFit (assignment :: rest) ↔ KeysFit rest :=
        List.forall_mem_cons.trans (and_iff_right hfits)
      simp only [if_pos hshorter, hentries, hall]
      split <;> rfl
    · have hnot : ¬ KeysFit (assignment :: rest) := fun hall =>
        hfits (hall assignment List.mem_cons_self)
      rw [if_neg hfits, if_neg hnot]

/-- A document has the line breaks that the readers see: it holds none of the other ones, so nothing
is replaced. -/
theorem unifyBreaks_eq_self {text : Text}
    (h : ∀ c ∈ text, isPrintableAscii c = true ∨ c = '\n') : unifyBreaks text = text := by
  induction text with
  | nil => rfl
  | cons c text ih =>
    obtain ⟨hc, htext⟩ := List.forall_mem_cons.1 h
    have hcr : c ≠ '\r' := by rintro rfl; simp [isPrintableAscii] at hc
    have hnel : c ≠ '\u0085' := by rintro rfl; simp [isPrintableAscii] at hc
    rw [unifyBreaks, if_neg (not_or.2 ⟨hcr, hnel⟩), ih htext]
    exact fun _ heq _ => hcr heq

/-- All characters of a document are allowed in YAML. -/
theorem isAllowed_of_printable {c : Char} (h : isPrintableAscii c = true ∨ c = '\n') :
    isAllowed c = true := by
  rcases h with h | rfl
  · rw [isPrintableAscii] at h
    simp only [isAllowed, h]
    simp
  · decide

/-- A document that begins with a key is a block of entries in the first column. It is no flow
mapping, directive or marker, and nothing comes before it. -/
theorem readBody?_start {c : Char} (h : isBareChar c = true) (t : Text) :
    readBody? (Cursor.start (c :: t)) = readBlockEntries? 0 [] (Cursor.start (c :: t)) := by
  have hne (other : Char) (hother : isBareChar other = false) : c ≠ other := ne_of_test h hother
  have hmarker : (Cursor.start (c :: t)).atMarker = false := atMarker_of_isBareChar h 0 true t
  obtain ⟨hopens, hcloses⟩ := Bool.or_eq_false_iff.1 hmarker
  have hmapping : readMapping? (Cursor.start (c :: t)) =
      readBlockEntries? 0 [] (Cursor.start (c :: t)) := by
    rw [readMapping?, if_neg (by simp [Cursor.start, Cursor.atChar, hne '\x7b' rfl]),
      if_pos (by rfl)]
    rfl
  have hproperty (properties : Properties) :
      readProperty? false properties (Cursor.start (c :: t)) =
        some (properties, Cursor.start (c :: t)) :=
    readProperty?_cons (hne '&' rfl) (hne '!' rfl) properties 0 true t
  have hpresent : ((Cursor.start (c :: t)).atEnd || (Cursor.start (c :: t)).atMarker) = false := by
    rw [hmarker]
    rfl
  rw [readBody?, hopens, hcloses, if_neg Bool.false_ne_true,
    if_neg (by simp [Cursor.start, Cursor.atChar, hne '%' rfl]), if_neg Bool.false_ne_true]
  -- What stands in the first column has no properties that could belong to the mapping.
  simp only [readRoot?, hpresent, hmapping, hproperty, Option.bind_eq_bind, Option.bind_some]
  cases readBlockEntries? 0 [] (Cursor.start (c :: t)) <;> rfl

/-- **The assignments of a document in YAML are read back**, unless a key is too long to be read.
The empty document is left out: it has no mapping at all, and is not handed to the reader. -/
theorem read?_isDocument {assignments : List Assignment} {text : Text}
    (h : IsDocument ": ".toList assignments text) (hne : text ≠ []) :
    read? text = if KeysFit assignments then some (assignments.map Assignment.entry) else none := by
  have hchars := h.forall_mem (List.all_eq_true.1 (by decide))
  have hallowed : text.all isAllowed = true :=
    List.all_eq_true.2 fun c hc => isAllowed_of_printable (hchars c hc)
  obtain ⟨after, hafter, hentries⟩ := readBlockEntries?_isDocument h (.inl rfl)
  obtain ⟨c, t, rfl⟩ := List.exists_cons_of_ne_nil hne
  have hbare : isBareChar c = true := beginsWithKey_of_isDocument h c rfl
  -- Nothing is to be replaced in the text and nothing is passed over before it.
  have hread : readBody? (skip false (Cursor.start (unifyBreaks (c :: t)))) =
      if KeysFit assignments then some (assignments.map Assignment.entry, after) else none := by
    rw [unifyBreaks_eq_self hchars, Cursor.start, skip_cons (beginsToken_of_isBareChar hbare),
      ← Cursor.start, readBody?_start hbare, hentries]
  have hfinished : isFinished after = true := by
    rw [isFinished, if_pos (by rw [Cursor.atEnd, hafter]; rfl)]
  unfold read?
  simp only [if_pos hallowed, hread]
  split
  · simp only [Option.bind_eq_bind, Option.bind_some, if_pos hfinished]
  · rfl

end Yaml

end ImportCensus

import Mathlib.Tactic.SplitIfs
import ImportCensus.Proofs.Report.Csv
import ImportCensus.Proofs.Text.Hex
import ImportCensus.Report.JsonReader

/-!
# `ImportCensus.Proofs.Report.Json`: reports are read back from their JSON

The format is given by relations between values and their written forms, one for each rule of the
grammar: `CharForm`, `StringForm`, `MemberForm`, `BracketedForm` for objects and arrays, and
`TextForm`. They leave the choice of escapes and of white space to the writer.

* `Reads`: a reader takes any white space, then a written form of a value, and leaves what follows.
  `reads_readMember?` says so of members, and `Reads.bracketed` of sequences of anything that can be
  read. Objects are sequences of members and arrays are sequences of objects, so it is used twice.
* `decode?_eq_some_iff`: so the reader accepts exactly the texts of the format.
* `textForm_encodeArray`: what the writer writes is of the format.
* `toJson_roundTrip`: every report is read back, with the same fields as from its CSV.
-/

set_option autoImplicit false

namespace ImportCensus

namespace Json

/-! ### The format -/

/-- White space between tokens. -/
def IsSpaces (t : Text) : Prop := ∀ c ∈ t, isSpace c = true

/-- What may stand for a character behind a backslash: the character itself, a letter, or the four
digits of the code point. -/
inductive EscapeForm (c : Char) : Text → Prop
  | sign : c ∈ ['\x22', '\x5c', '/'] → EscapeForm c [c]
  | letter {letter : Char} :
      (letter, c) ∈ [('b', '\x08'), ('f', '\x0c'), ('n', '\x0a'), ('r', '\x0d'), ('t', '\x09')] →
      EscapeForm c [letter]
  | code {digits : Text} :
      digits.length = 4 → Text.hexValue? 0 digits = some c.toNat → EscapeForm c ('u' :: digits)

/-- The written forms of a character in a string. Quotes, backslashes and control characters have to
be escaped, and all others may be. -/
inductive CharForm (c : Char) : Text → Prop
  | plain : c ≠ '\x22' → c ≠ '\x5c' → 0x20 ≤ c.toNat → CharForm c [c]
  | escaped {written : Text} : EscapeForm c written → CharForm c ('\x5c' :: written)

/-- The written forms of what stands between the quotes of a string. -/
inductive ContentForm : Text → Text → Prop
  | nil : ContentForm [] []
  | cons {c : Char} {written rest content : Text} :
      CharForm c written → ContentForm content rest → ContentForm (c :: content) (written ++ rest)

/-- The written forms of a string. -/
inductive StringForm (content : Text) : Text → Prop
  | quoted {written : Text} :
      ContentForm content written → StringForm content ('\x22' :: written ++ ['\x22'])

/-- The written forms of a member of an object: its key, a colon, and its value. -/
inductive MemberForm (member : Text × Text) : Text → Prop
  | pair {key value front behind : Text} :
      StringForm member.1 key → IsSpaces front → IsSpaces behind → StringForm member.2 value →
      MemberForm member (key ++ front ++ ':' :: behind ++ value)

section

variable {α : Type}

/-- The written forms of items with commas between them. -/
inductive ItemsForm (form : α → Text → Prop) : List α → Text → Prop
  | last {item : α} {front written behind : Text} :
      IsSpaces front → form item written → IsSpaces behind →
      ItemsForm form [item] (front ++ written ++ behind)
  | more {item : α} {items : List α} {front written behind rest : Text} :
      IsSpaces front → form item written → IsSpaces behind → ItemsForm form items rest →
      ItemsForm form (item :: items) (front ++ written ++ behind ++ ',' :: rest)

/-- The written forms of a sequence of items in brackets. -/
inductive BracketedForm (form : α → Text → Prop) (opening closing : Char) : List α → Text → Prop
  | empty {spaces : Text} :
      IsSpaces spaces → BracketedForm form opening closing [] (opening :: spaces ++ [closing])
  | items {items : List α} {written : Text} :
      ItemsForm form items written →
      BracketedForm form opening closing items (opening :: written ++ [closing])

end

/-- The written forms of an object with string members. -/
def ObjectForm : List (Text × Text) → Text → Prop := BracketedForm MemberForm '\x7b' '\x7d'

/-- The texts whose value is an array of such objects. -/
inductive TextForm (objects : List (List (Text × Text))) : Text → Prop
  | array {front written behind : Text} :
      IsSpaces front → BracketedForm ObjectForm '[' ']' objects written → IsSpaces behind →
      TextForm objects (front ++ written ++ behind)

/-! ### Tokens -/

/-- No white space is white space, for the places where the writer puts none. -/
theorem isSpaces_nil : IsSpaces [] := by simp [IsSpaces]

/-- White space behind white space is white space. Indentations and line breaks of the writer come
from different places and meet in front of one token. -/
theorem isSpaces_append {s t : Text} (hs : IsSpaces s) (ht : IsSpaces t) : IsSpaces (s ++ t) :=
  fun c hc => (List.mem_append.1 hc).elim (hs c) (ht c)

/-- White space in front of a token does not count, so any amount of it may be added or taken
away. -/
theorem afterToken?_append {spaces : Text} (h : IsSpaces spaces) (token : Char) (t : Text) :
    afterToken? token (spaces ++ t) = afterToken? token t := by
  rw [afterToken?, afterToken?, List.dropWhile_append_of_pos h]

/-- Without white space in front, the first character of a text decides whether the token is met. -/
theorem afterToken?_cons {c : Char} (h : isSpace c = false) (token : Char) (t : Text) :
    afterToken? token (c :: t) = if c = token then some t else none := by
  rw [afterToken?, List.dropWhile_cons_of_neg (by simp [h])]

/-- A token is met behind white space. The token itself must not be white space, or it would be
passed over in the search for it. -/
theorem afterToken?_eq_some_iff {token : Char} (h : isSpace token = false) {t rest : Text} :
    afterToken? token t = some rest ↔
      ∃ spaces, IsSpaces spaces ∧ t = spaces ++ token :: rest := by
  constructor
  · intro hread
    have hsplit := List.takeWhile_append_dropWhile (p := isSpace) (l := t)
    refine ⟨t.takeWhile isSpace, fun c hc => List.mem_takeWhile_imp hc, ?_⟩
    unfold afterToken? at hread
    split at hread
    · cases hread
    · next c after hdrop =>
      obtain ⟨rfl, rfl⟩ : c = token ∧ after = rest := by simpa using hread
      rw [← hdrop, hsplit]
  · rintro ⟨spaces, hspaces, rfl⟩
    rw [afterToken?_append hspaces, afterToken?_cons h, if_pos rfl]

/-! ### Strings -/

/-- No escape is empty. This is why the reader of strings gets on with each escape it has read. -/
theorem EscapeForm.length_pos {c : Char} {written : Text} (h : EscapeForm c written) :
    0 < written.length := by
  cases h <;> exact Nat.succ_pos _

/-- The reader takes the escapes of the format: three signs that stand for themselves, five letters,
and `u` with the four digits of a code point. A code point that is no character is not read. -/
theorem readEscape?_eq_some_iff {t rest : Text} {c : Char} :
    readEscape? t = some (c, rest) ↔ ∃ written, EscapeForm c written ∧ t = written ++ rest := by
  constructor
  · intro h
    unfold readEscape? at h
    split at h
    · cases h
    · next kind after =>
      -- Three signs, five letters, and the letter in front of digits.
      split at h
      case h_1 | h_2 | h_3 =>
        cases h
        exact ⟨[_], .sign (by simp), rfl⟩
      case h_9 =>
        obtain ⟨digits, hlength, hvalue, rfl⟩ := Text.readHex?_eq_some_iff.1 h
        exact ⟨'u' :: digits, .code hlength hvalue, rfl⟩
      case h_10 => cases h
      all_goals
        cases h
        exact ⟨[_], .letter (by simp), rfl⟩
  · rintro ⟨written, hform, rfl⟩
    cases hform with
    | sign hc =>
      simp only [List.mem_cons, List.not_mem_nil, or_false] at hc
      rcases hc with rfl | rfl | rfl <;> rfl
    | letter hc =>
      simp only [List.mem_cons, List.not_mem_nil, or_false, Prod.mk.injEq] at hc
      rcases hc with ⟨rfl, rfl⟩ | ⟨rfl, rfl⟩ | ⟨rfl, rfl⟩ | ⟨rfl, rfl⟩ | ⟨rfl, rfl⟩ <;> rfl
    | code hlength hvalue => exact Text.readHex?_eq_some_iff.2 ⟨_, hlength, hvalue, rfl⟩

/-- A string is read up to its closing quote. No character is written with a quote that is not
behind a backslash, so the first such quote is the closing one. -/
theorem readString?_eq_some_iff {t content rest : Text} :
    readString? t = some (content, rest) ↔
      ∃ written, ContentForm content written ∧ t = written ++ '\x22' :: rest := by
  constructor
  · intro h
    fun_induction readString? t generalizing content with
    | case1 => cases h
    | case2 rest =>
      cases h
      exact ⟨[], .nil, rfl⟩
    | case3 => cases h
    | case4 t escaped after hescape _ _ ih =>
      obtain ⟨⟨inner, behind⟩, hinner, heq⟩ := Option.map_eq_some_iff.1 h
      cases heq
      -- An escape is one character of the content.
      obtain ⟨first, hfirst, rfl⟩ := readEscape?_eq_some_iff.1 hescape
      obtain ⟨written, hwritten, rfl⟩ := ih hinner
      exact ⟨_, .cons (.escaped hfirst) hwritten, by simp⟩
    | case5 => cases h
    | case6 => cases h
    | case7 c t hquote hbackslash hcontrol ih =>
      obtain ⟨⟨inner, behind⟩, hinner, heq⟩ := Option.map_eq_some_iff.1 h
      cases heq
      obtain ⟨written, hwritten, rfl⟩ := ih hinner
      exact ⟨_, .cons (.plain hquote hbackslash (Nat.not_lt.1 hcontrol)) hwritten, by simp⟩
  · rintro ⟨written, hform, rfl⟩
    induction hform with
    | nil =>
      rw [List.nil_append, readString?]
      rfl
    | @cons c written others content hchar _ ih =>
      cases hchar with
      | plain hquote hbackslash hcontrol =>
        rw [List.append_assoc, List.singleton_append, readString?, if_neg hquote,
          if_neg hbackslash, if_neg (Nat.not_lt.2 hcontrol), ih]
        rfl
      | @escaped written hescape =>
        have hread : readEscape? (written ++ (others ++ '\x22' :: rest)) =
            some (c, others ++ '\x22' :: rest) :=
          readEscape?_eq_some_iff.2 ⟨written, hescape, rfl⟩
        -- The reader goes on only if the escape has taken something.
        have hless : (others ++ '\x22' :: rest).length <
            (written ++ (others ++ '\x22' :: rest)).length := by
          have hpos := hescape.length_pos
          rw [List.length_append, List.length_append, List.length_append]
          omega
        rw [List.append_assoc, List.cons_append, readString?, if_neg (by decide), if_pos rfl,
          hread]
        dsimp only
        rw [if_pos hless, ih]
        rfl

/-- A string is met behind white space: the opening quote is a token like the others, and what
follows it is the content. -/
theorem readString?_afterToken? {t content rest : Text} :
    (afterToken? '\x22' t).bind readString? = some (content, rest) ↔
      ∃ spaces written, IsSpaces spaces ∧ StringForm content written ∧
        t = spaces ++ written ++ rest := by
  simp only [Option.bind_eq_some_iff, afterToken?_eq_some_iff (by decide : isSpace '\x22' = false),
    readString?_eq_some_iff]
  constructor
  · rintro ⟨inner, ⟨spaces, hspaces, rfl⟩, written, hwritten, rfl⟩
    exact ⟨spaces, _, hspaces, .quoted hwritten, by simp⟩
  · rintro ⟨spaces, _, hspaces, ⟨hwritten⟩, rfl⟩
    exact ⟨_, ⟨spaces, hspaces, by simp⟩, _, hwritten, rfl⟩

/-! ### Members and sequences -/

/-- A reader takes any white space and then a written form of a value, and leaves what follows. -/
def Reads {α : Type} (read? : Text → Option (α × Text)) (form : α → Text → Prop) : Prop :=
  ∀ t value rest, read? t = some (value, rest) ↔
    ∃ spaces written, IsSpaces spaces ∧ form value written ∧ t = spaces ++ written ++ rest

/-- A member is read from its written forms: a key, a colon and a value, each behind any white
space. First the reader is brought into three steps, then each step is replaced by what it reads. -/
theorem reads_readMember? : Reads readMember? MemberForm := by
  rintro t ⟨key, value⟩ rest
  have hread : readMember? t = some ((key, value), rest) ↔ ∃ behindKey behindColon,
      (afterToken? '\x22' t).bind readString? = some (key, behindKey) ∧
      afterToken? ':' behindKey = some behindColon ∧
      (afterToken? '\x22' behindColon).bind readString? = some (value, rest) := by
    simp only [readMember?, Option.bind_eq_bind, Option.bind_eq_some_iff, Option.pure_def,
      Option.some.injEq, Prod.exists, Prod.mk.injEq]
    constructor
    · rintro ⟨_, hquote, _, behindKey, hkey, behindColon, hcolon, _, hopen, _, _, hvalue,
        ⟨rfl, rfl⟩, rfl⟩
      exact ⟨behindKey, behindColon, ⟨_, hquote, hkey⟩, hcolon, _, hopen, hvalue⟩
    · rintro ⟨behindKey, behindColon, ⟨_, hquote, hkey⟩, hcolon, _, hopen, hvalue⟩
      exact ⟨_, hquote, _, behindKey, hkey, behindColon, hcolon, _, hopen, _, _, hvalue,
        ⟨rfl, rfl⟩, rfl⟩
  -- Each of the three steps passes over white space and then takes its part.
  rw [hread]
  simp only [readString?_afterToken?, afterToken?_eq_some_iff (by decide : isSpace ':' = false)]
  constructor
  · rintro ⟨_, _, ⟨spaces, first, hspaces, hkey, rfl⟩, ⟨front, hfront, rfl⟩, behind, second,
      hbehind, hvalue, rfl⟩
    exact ⟨spaces, _, hspaces, .pair hkey hfront hbehind hvalue, by simp⟩
  · rintro ⟨spaces, _, hspaces, ⟨hkey, hfront, hbehind, hvalue⟩, rfl⟩
    exact ⟨_, _, ⟨spaces, _, hspaces, hkey, by simp; rfl⟩, ⟨_, hfront, by simp; rfl⟩, _, _, hbehind,
      hvalue, by simp⟩

section

variable {α : Type} {read? : Text → Option (α × Text)} {form : α → Text → Prop} {closing : Char}
  (hreads : Reads read? form) (hspace : isSpace closing = false)

include hreads hspace

/-- Items are read up to the closing token. It must differ from the comma, since behind an item the
two are told apart by what comes next. -/
theorem readItems?_eq_some_iff (hcomma : closing ≠ ',') {t rest : Text} {items : List α} :
    readItems? read? closing t = some (items, rest) ↔
      ∃ written, ItemsForm form items written ∧ t = written ++ closing :: rest := by
  constructor
  · intro h
    fun_induction readItems? read? closing t generalizing items with
    | case1 => cases h
    | case2 t item behind hitem after hclose =>
      cases h
      obtain ⟨front, written, hfront, hwritten, rfl⟩ := (hreads _ _ _).1 hitem
      obtain ⟨spaces, hspaces, rfl⟩ := (afterToken?_eq_some_iff hspace).1 hclose
      exact ⟨_, .last hfront hwritten hspaces, by simp⟩
    | case3 => cases h
    | case4 t item behind hitem _ next hnext _ ih =>
      obtain ⟨⟨others, after⟩, hinner, heq⟩ := Option.map_eq_some_iff.1 h
      cases heq
      obtain ⟨front, written, hfront, hwritten, rfl⟩ := (hreads _ _ _).1 hitem
      obtain ⟨spaces, hspaces, rfl⟩ := (afterToken?_eq_some_iff (by decide)).1 hnext
      obtain ⟨more, hmore, rfl⟩ := ih hinner
      exact ⟨_, .more hfront hwritten hspaces hmore, by simp⟩
    | case5 => cases h
  · rintro ⟨written, hform, rfl⟩
    induction hform with
    | @last item front written behind hfront hwritten hbehind =>
      have hitem : read? (front ++ written ++ behind ++ closing :: rest) =
          some (item, behind ++ closing :: rest) :=
        (hreads _ _ _).2 ⟨front, written, hfront, hwritten, by simp⟩
      rw [readItems?, hitem]
      dsimp only
      rw [afterToken?_append hbehind, afterToken?_cons hspace, if_pos rfl]
    | @more item items front written behind others hfront hwritten hbehind _ ih =>
      have hitem : read? (front ++ written ++ behind ++ ',' :: others ++ closing :: rest) =
          some (item, behind ++ ',' :: (others ++ closing :: rest)) :=
        (hreads _ _ _).2 ⟨front, written, hfront, hwritten, by simp⟩
      have hless : (others ++ closing :: rest).length <
          (front ++ written ++ behind ++ ',' :: others ++ closing :: rest).length := by
        simp only [List.length_append, List.length_cons]
        omega
      -- A comma is not the closing token, so the sequence goes on.
      rw [readItems?, hitem]
      dsimp only
      rw [afterToken?_append hbehind, afterToken?_cons (by decide), if_neg hcomma.symm,
        afterToken?_append hbehind, afterToken?_cons (by decide), if_pos rfl]
      dsimp only
      rw [if_pos hless, ih]
      rfl

/-- A sequence in brackets can be read if its items can, and none of them begins like the closing
bracket. Only then does the closing bracket right behind the opening one mean that there are no
items. -/
theorem Reads.bracketed {opening : Char} (hopening : isSpace opening = false)
    (hcomma : closing ≠ ',')
    (hstart : ∀ item written rest, form item written →
      afterToken? closing (written ++ rest) = none) :
    Reads (readBracketed? read? opening closing) (BracketedForm form opening closing) := by
  intro t items rest
  have hread : readBracketed? read? opening closing t = some (items, rest) ↔
      ∃ inner, afterToken? opening t = some inner ∧
        (afterToken? closing inner = some rest ∧ items = [] ∨
          afterToken? closing inner = none ∧
            readItems? read? closing inner = some (items, rest)) := by
    simp only [readBracketed?, Option.bind_eq_bind, Option.bind_eq_some_iff]
    refine exists_congr fun inner => and_congr_right fun _ => ?_
    cases afterToken? closing inner with
    | none => simp
    | some after => simp [eq_comm, and_comm]
  -- The reader looks for the closing bracket first, and for items if it is not there.
  rw [hread]
  simp only [afterToken?_eq_some_iff hopening, readItems?_eq_some_iff hreads hspace hcomma]
  constructor
  · rintro ⟨inner, ⟨spaces, hspaces, rfl⟩, ⟨hclose, rfl⟩ | ⟨-, written, hwritten, rfl⟩⟩
    · obtain ⟨between, hbetween, rfl⟩ := (afterToken?_eq_some_iff hspace).1 hclose
      exact ⟨spaces, _, hspaces, .empty hbetween, by simp⟩
    · exact ⟨spaces, _, hspaces, .items hwritten, by simp⟩
  · rintro ⟨spaces, _, hspaces, hform, rfl⟩
    cases hform with
    | @empty between hbetween =>
      refine ⟨between ++ closing :: rest, ⟨spaces, hspaces, by simp⟩, .inl ⟨?_, rfl⟩⟩
      rw [afterToken?_append hbetween, afterToken?_cons hspace, if_pos rfl]
    | @items _ written hitems =>
      refine ⟨written ++ closing :: rest, ⟨spaces, hspaces, by simp⟩, .inr ⟨?_, written, hitems,
        rfl⟩⟩
      -- There are items, and the first one does not begin like the closing bracket.
      cases hitems with
      | last hfront hwritten _ =>
        rw [List.append_assoc, List.append_assoc, afterToken?_append hfront, hstart _ _ _ hwritten]
      | more hfront hwritten _ _ =>
        rw [List.append_assoc, List.append_assoc, List.append_assoc, afterToken?_append hfront,
          hstart _ _ _ hwritten]

end

/-- A written member begins with a quote, so it is not taken for the end of its object. -/
theorem MemberForm.afterToken?_eq_none {member : Text × Text} {written : Text}
    (h : MemberForm member written) (rest : Text) :
    afterToken? '\x7d' (written ++ rest) = none := by
  obtain ⟨⟨_⟩, _, _, _⟩ := h
  exact afterToken?_cons (by decide) _ _

/-- A written object begins with a brace, so it is not taken for the end of the array. -/
theorem ObjectForm.afterToken?_eq_none {object : List (Text × Text)} {written : Text}
    (h : ObjectForm object written) (rest : Text) : afterToken? ']' (written ++ rest) = none := by
  cases h <;> exact afterToken?_cons (by decide) _ _

/-- Objects are sequences of members in braces, and their reader is the general one for that. -/
theorem reads_object : Reads (readBracketed? readMember? '\x7b' '\x7d') ObjectForm :=
  reads_readMember?.bracketed (by decide) (by decide) (by decide)
    fun _ _ rest h => h.afterToken?_eq_none rest

/-- The array is a sequence of objects in brackets, and the same argument applies a second time. -/
theorem reads_array :
    Reads (readBracketed? (readBracketed? readMember? '\x7b' '\x7d') '[' ']')
      (BracketedForm ObjectForm '[' ']') :=
  reads_object.bracketed (by decide) (by decide) (by decide)
    fun _ _ rest h => h.afterToken?_eq_none rest

/-- **The reader accepts the texts of the format, and nothing else.** What stands behind the array
can only be white space, so a text is read as a whole. -/
theorem decode?_eq_some_iff {t : Text} {objects : List (List (Text × Text))} :
    decode? t = some objects ↔ TextForm objects t := by
  have hread : decode? t = some objects ↔ ∃ rest,
      readBracketed? (readBracketed? readMember? '\x7b' '\x7d') '[' ']' t = some (objects, rest) ∧
        IsSpaces rest := by
    simp only [decode?, Option.bind_eq_bind, Option.bind_eq_some_iff, Prod.exists, IsSpaces,
      ← List.all_eq_true]
    simp only [Option.ite_none_right_eq_some, Option.some.injEq]
    constructor
    · rintro ⟨_, rest, hread, hrest, rfl⟩
      exact ⟨rest, hread, hrest⟩
    · rintro ⟨rest, hread, hrest⟩
      exact ⟨objects, rest, hread, hrest, rfl⟩
  -- Behind the array nothing but white space is left.
  rw [hread]
  constructor
  · rintro ⟨rest, harray, hrest⟩
    obtain ⟨front, written, hfront, hwritten, rfl⟩ := (reads_array _ _ _).1 harray
    exact .array hfront hwritten hrest
  · rintro ⟨hfront, hwritten, hbehind⟩
    exact ⟨_, (reads_array _ _ _).2 ⟨_, _, hfront, hwritten, rfl⟩, hbehind⟩

/-! ### The writer -/

/-- The digits of a control character make four digits of its code point. The writer spells out two
zeros and two digits, and there are thirty two characters to check. -/
theorem hexDigits_of_control {n : Nat} (h : n < 0x20) :
    ['0', '0', hexDigit (n / 16), hexDigit (n % 16)] = Text.hexDigits 4 n := by
  revert n
  decide

/-- The writer escapes a character if it has to, and in one of the allowed ways: by a sign, by a
letter, or by its code point. A character without an escape is none of those that need one. -/
theorem charForm_escapeChar (c : Char) : CharForm c (escapeChar c) := by
  -- The first two cases are signs, the next five are letters.
  unfold escapeChar
  split_ifs with h₁ h₂ h₃ h₄ h₅ h₆ h₇ hcontrol
  · subst h₁
    exact .escaped (.sign (by simp))
  · subst h₂
    exact .escaped (.sign (by simp))
  · exact .escaped (.letter (by simp [h₃]))
  · exact .escaped (.letter (by simp [h₄]))
  · exact .escaped (.letter (by simp [h₅]))
  · exact .escaped (.letter (by simp [h₆]))
  · exact .escaped (.letter (by simp [h₇]))
  · -- The other control characters are written by their code points.
    refine .escaped (.code rfl ?_)
    rw [hexDigits_of_control hcontrol]
    exact Text.hexValue?_hexDigits (Nat.lt_trans hcontrol (by decide))
  · exact .plain h₁ h₂ (Nat.not_lt.1 hcontrol)

/-- The content of a string is written character by character, and no character changes how the next
one is written. -/
theorem contentForm_flatMap (content : Text) :
    ContentForm content (content.flatMap escapeChar) := by
  induction content with
  | nil => exact .nil
  | cons c content ih => exact .cons (charForm_escapeChar c) ih

/-- So every text can be written as a string, whatever characters it holds. -/
theorem stringForm_encodeString (content : Text) : StringForm content (encodeString content) :=
  .quoted (contentForm_flatMap content)

/-- A writer puts white space in front of a written form. It is the counterpart of `Reads`, and as
little is said about how much white space there is. -/
def Writes {α : Type} (write : α → Text) (form : α → Text → Prop) : Prop :=
  ∀ value, ∃ spaces written, IsSpaces spaces ∧ form value written ∧ write value = spaces ++ written

/-- A member is written on an indented line, with a blank behind the colon. -/
theorem writes_encodeMember :
    Writes (fun member => encodeMember member.1 member.2) MemberForm := by
  intro member
  have hindent : IsSpaces "    ".toList := by simp [IsSpaces, isSpace]
  have hblank : IsSpaces [' '] := by simp [IsSpaces, isSpace]
  refine ⟨_, _, hindent, .pair (stringForm_encodeString member.1) isSpaces_nil hblank
    (stringForm_encodeString member.2), ?_⟩
  show "    ".toList ++ encodeString member.1 ++ ": ".toList ++ encodeString member.2 = _
  simp

section

variable {α : Type} {write : α → Text} {form : α → Text → Prop} (hwrites : Writes write form)

include hwrites

/-- Items on lines of their own, with commas between them. A line break behind a comma belongs to
the white space in front of the next item, so the induction is over the items for any white space in
front. -/
theorem Writes.itemsForm {front behind : Text} (hfront : IsSpaces front)
    (hbehind : IsSpaces behind) (item : α) (items : List α) :
    ItemsForm form (item :: items)
      (front ++ Text.join ",\n".toList ((item :: items).map write) ++ behind) := by
  induction items generalizing item front with
  | nil =>
    obtain ⟨spaces, written, hspaces, hwritten, heq⟩ := hwrites item
    have hlast := ItemsForm.last (isSpaces_append hfront hspaces) hwritten hbehind
    simpa [Text.join, heq] using hlast
  | cons next items ih =>
    obtain ⟨spaces, written, hspaces, hwritten, heq⟩ := hwrites item
    have hbreak : IsSpaces ['\n'] := by simp [IsSpaces, isSpace]
    have hmore := ItemsForm.more (isSpaces_append hfront hspaces) hwritten isSpaces_nil
      (ih hbreak next)
    simpa [Text.join, List.intercalate, heq] using hmore

/-- Items in brackets on lines of their own, which leave an empty line if there are none. Both are
of the format, since line breaks are white space. -/
theorem Writes.bracketedForm {behind : Text} (hbehind : IsSpaces behind) (opening closing : Char)
    (items : List α) :
    BracketedForm form opening closing items
      (opening :: '\n' :: Text.join ",\n".toList (items.map write) ++ behind ++ [closing]) := by
  have hbreak : IsSpaces ['\n'] := by simp [IsSpaces, isSpace]
  cases items with
  | nil => exact .empty (isSpaces_append hbreak hbehind)
  | cons item items => exact .items (hwrites.itemsForm hbreak hbehind item items)

end

/-- An object is an indented sequence of members in braces. -/
theorem writes_encodeObject : Writes encodeObject ObjectForm := by
  intro members
  have hindent : IsSpaces "  ".toList := by simp [IsSpaces, isSpace]
  have hbehind : IsSpaces "\n  ".toList := by simp [IsSpaces, isSpace]
  refine ⟨_, _, hindent, writes_encodeMember.bracketedForm hbehind _ _ members, ?_⟩
  show "  \x7b\n".toList ++ Text.join ",\n".toList _ ++ "\n  \x7d".toList = _
  simp

/-- An array is written in the format. The writer takes a shorter way for an array without objects,
and that is of the format as well. -/
theorem textForm_encodeArray (objects : List (List (Text × Text))) :
    TextForm objects (encodeArray objects) := by
  have harray : BracketedForm ObjectForm '[' ']' objects (encodeArray objects) := by
    unfold encodeArray
    split
    · next hempty =>
      rw [List.isEmpty_iff.1 hempty]
      exact .empty isSpaces_nil
    · have hbreak : IsSpaces ['\n'] := by simp [IsSpaces, isSpace]
      simpa using writes_encodeObject.bracketedForm hbreak '[' ']' objects
  simpa using TextForm.array isSpaces_nil harray isSpaces_nil

/-- A report is written in the format: one object for each row below the titles, which are not
data. -/
theorem textForm_toJson (rows : List ReportRow) :
    TextForm ((rows.drop 1).map ReportRow.members) (ReportRow.toJson rows) :=
  textForm_encodeArray _

/-- A report is read back from its JSON, since the reader accepts all texts of the format. -/
theorem decode?_toJson (rows : List ReportRow) :
    decode? (ReportRow.toJson rows) = some ((rows.drop 1).map ReportRow.members) :=
  decode?_eq_some_iff.2 (textForm_toJson rows)

/-- The keys of the object that stands for a row, which are the same for all rows. -/
theorem map_fst_members (row : ReportRow) :
    row.members.map Prod.fst =
      ["source_root".toList, "used_class".toList, "target_root".toList,
        "consuming_class".toList] := rfl

/-- The values of that object are the fields of the row, in the order of the columns of the CSV. -/
theorem map_snd_members (row : ReportRow) : row.members.map Prod.snd = row.fields := rfl

/-- **A report is read back from its JSON.** For all rows, whatever characters their fields hold:

1. the text is of the format, and it stands for one array only, which the reader gives; the reader
   accepts exactly the texts of the format;
2. the array has one object for each row behind the first one, and each object has the same four
   keys in the same order, with the fields of its row as values;
3. without such rows the text is a pair of brackets;
4. if there are rows at all, the values are the records that are read from the CSV behind the first
   one. -/
theorem toJson_roundTrip (rows : List ReportRow) :
    ∃ objects,
      (TextForm objects (ReportRow.toJson rows) ∧
        (∀ others, TextForm others (ReportRow.toJson rows) → others = objects) ∧
        decode? (ReportRow.toJson rows) = some objects ∧
        ∀ t others, decode? t = some others ↔ TextForm others t) ∧
      (objects.map (fun object => object.map Prod.fst) = List.replicate (rows.length - 1)
          ["source_root".toList, "used_class".toList, "target_root".toList,
            "consuming_class".toList] ∧
        objects.map (fun object => object.map Prod.snd) = (rows.drop 1).map ReportRow.fields) ∧
      (rows.length ≤ 1 → ReportRow.toJson rows = "[]".toList) ∧
      (rows ≠ [] → ∃ first, Csv.decode? (ReportRow.toCsv rows) =
        some (first :: objects.map fun object => object.map Prod.snd)) := by
  have hread := decode?_toJson rows
  have hvalues : ((rows.drop 1).map ReportRow.members).map (fun object => object.map Prod.snd) =
      (rows.drop 1).map ReportRow.fields := by
    rw [List.map_map]
    exact List.map_congr_left fun row _ => map_snd_members row
  refine ⟨_, ⟨textForm_toJson rows, fun others h => ?_, hread, fun _ _ => decode?_eq_some_iff⟩,
    ⟨?_, hvalues⟩, fun hshort => ?_, fun hne => ?_⟩
  · exact Option.some.inj ((decode?_eq_some_iff.2 h).symm.trans hread)
  · rw [List.map_map, List.eq_replicate_iff, List.length_map, List.length_drop]
    refine ⟨rfl, fun keys hkeys => ?_⟩
    obtain ⟨row, -, rfl⟩ := List.mem_map.1 hkeys
    exact map_fst_members row
  · -- Behind the first row there is none, and the writer has a form of its own for that.
    rw [ReportRow.toJson, List.drop_eq_nil_of_le hshort]
    rfl
  · obtain ⟨first, others, rfl⟩ := List.exists_cons_of_ne_nil hne
    refine ⟨first.fields, ?_⟩
    rw [hvalues, Csv.decode?_of_textForm (Csv.textForm_toCsv (first :: others))]
    rfl

end Json

end ImportCensus

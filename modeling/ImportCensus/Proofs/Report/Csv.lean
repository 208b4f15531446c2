import Mathlib.Data.List.Basic
import Mathlib.Data.List.TakeWhile
import ImportCensus.Report.CsvReader

/-!
# `ImportCensus.Proofs.Report.Csv`: reports are read back from their CSV

The format is given by three relations between values and their written forms: `FieldForm`,
`RecordForm` and `TextForm`. A field has up to two written forms, one bare and one in quotes, so the
relations leave more freedom than the writer takes.

* `decode?_eq_some_iff`: the reader accepts exactly the texts of the format, and gives what they
  stand for. Each reader is treated in the same way: what it reads from a written form with anything
  behind it (`readField?_append`, `readRecord?_append`), and that it reads nothing else
  (`fieldForm_of_readField?`, `recordForm_of_readRecord?`).
* `textForm_encode`: what the writer writes is of the format.
* `toCsv_roundTrip`: so every report is read back, whatever characters its fields hold.
-/

set_option autoImplicit false

namespace ImportCensus

namespace Csv

/-! ### The format -/

/-- The written forms of a field: as it is if no character of it is special, or between quotes with
each quote written twice. -/
inductive FieldForm (field : Text) : Text → Prop
  | bare : (∀ c ∈ field, isSpecial c = false) → FieldForm field field
  | quoted :
      FieldForm field
        (quote :: field.flatMap (fun c => if c = quote then [quote, quote] else [c]) ++ [quote])

/-- The written forms of a record: those of its fields with commas between them, and CRLF. -/
inductive RecordForm : List Text → Text → Prop
  | last {field written : Text} :
      FieldForm field written → RecordForm [field] (written ++ ['\r', '\n'])
  | more {field written rest : Text} {fields : List Text} :
      FieldForm field written → RecordForm fields rest →
      RecordForm (field :: fields) (written ++ ',' :: rest)

/-- The written forms of a list of records: those of the records, one behind the other. -/
inductive TextForm : List (List Text) → Text → Prop
  | nil : TextForm [] []
  | cons {fields : List Text} {written rest : Text} {records : List (List Text)} :
      RecordForm fields written → TextForm records rest →
      TextForm (fields :: records) (written ++ rest)

/-! ### Fields -/

/-- The writer doubles the quotes of a field by recursion, and the format says it with one map over
the characters. The two agree, so neither has to follow the other's shape. -/
theorem doubleQuotes_eq_flatMap (field : Text) :
    doubleQuotes field = field.flatMap fun c => if c = quote then [quote, quote] else [c] := by
  induction field with
  | nil => rfl
  | cons c field ih =>
    rw [doubleQuotes, List.flatMap_cons, ih]
    split <;> rfl

/-- A quoted field ends at the first quote that is not followed by another one. The condition on
what follows is needed: with a quote behind it, the closing quote would count as half of a doubled
one. -/
theorem readQuoted?_append (field after : Text) (hafter : after.head? ≠ some quote) :
    readQuoted? (doubleQuotes field ++ quote :: after) = some (field, after) := by
  induction field with
  | nil =>
    cases after with
    | nil => simp [doubleQuotes, readQuoted?]
    | cons d more =>
      have hd : d ≠ quote := fun h => hafter (by rw [h, List.head?_cons])
      simp [doubleQuotes, readQuoted?, hd]
  | cons c field ih =>
    by_cases hc : c = quote
    · simp [doubleQuotes, readQuoted?, hc, ih]
    · rw [doubleQuotes, if_neg hc, List.cons_append, readQuoted?.eq_def]
      simp [hc, ih]

/-- Whatever the inner reader takes was a field with its quotes doubled, and a closing quote. The
induction is over its own steps, one for each thing that can stand next in the text. -/
theorem eq_append_of_readQuoted? {t field after : Text} (h : readQuoted? t = some (field, after)) :
    t = doubleQuotes field ++ quote :: after := by
  fun_induction readQuoted? t generalizing field after with
  | case1 => cases h
  | case2 => cases h; rfl
  | case3 more ih =>
    -- Two quotes stand for one in the field.
    obtain ⟨⟨content, rest⟩, hinner, heq⟩ := Option.map_eq_some_iff.1 h
    cases heq
    rw [ih hinner, doubleQuotes, if_pos rfl]
    rfl
  | case4 => cases h; rfl
  | case5 c rest hc ih =>
    -- Any other character stands for itself.
    obtain ⟨⟨content, rest⟩, hinner, heq⟩ := Option.map_eq_some_iff.1 h
    cases heq
    rw [ih hinner, doubleQuotes, if_neg hc]
    rfl

/-- A text goes on behind a field: with a comma or with the end of the record. A bare field stops at
any special character, but a quote would make it malformed, so a quote does not end it. -/
def EndsField (after : Text) : Prop :=
  ∃ c rest, after = c :: rest ∧ isSpecial c = true ∧ c ≠ quote

/-- A written field is read up to its end, in either form. Which form it has is seen from the first
character: a bare field cannot begin with a quote, since a quote is special. -/
theorem readField?_append {field written after : Text} (h : FieldForm field written)
    (hafter : EndsField after) : readField? (written ++ after) = some (field, after) := by
  obtain ⟨d, rest, rfl, hd, hquote⟩ := hafter
  cases h with
  | quoted =>
    have hinner := readQuoted?_append field (d :: rest) (by simpa using hquote)
    rw [← doubleQuotes_eq_flatMap, List.cons_append, List.cons_append, List.append_assoc,
      readField?, List.head?_cons, if_pos rfl]
    exact hinner
  | bare hbare =>
    -- The first character is one of a bare field or the one behind it, and neither is a quote.
    have hhead : (field ++ d :: rest).head? ≠ some quote := by
      cases field with
      | nil => simpa using hquote
      | cons c field =>
        have hc := hbare c List.mem_cons_self
        intro h
        rw [List.cons_append, List.head?_cons, Option.some.injEq] at h
        rw [h] at hc
        cases hc
    have hfield : ∀ c ∈ field, (!isSpecial c) = true := fun c hc => by simp [hbare c hc]
    have hstop : ¬ (!isSpecial d) = true := by simp [hd]
    rw [readField?, if_neg hhead, List.takeWhile_append_of_pos hfield,
      List.dropWhile_append_of_pos hfield, List.takeWhile_cons, List.dropWhile_cons, if_neg hstop,
      if_neg hstop, List.append_nil]

/-- What is read as a field is a written form of it, the quoted one if the text begins with a quote.
Together with `readField?_append`, a field is read from its written forms only. -/
theorem fieldForm_of_readField? {t field after : Text} (h : readField? t = some (field, after)) :
    ∃ written, FieldForm field written ∧ t = written ++ after := by
  unfold readField? at h
  split at h
  · next hquote =>
    -- A quote in front: the field is what the inner reader has taken.
    refine ⟨_, .quoted, ?_⟩
    cases t with
    | nil => cases hquote
    | cons c rest =>
      obtain rfl : c = quote := Option.some.inj hquote
      rw [← doubleQuotes_eq_flatMap, List.cons_append, List.cons_append, List.append_assoc]
      exact congrArg (quote :: ·) (eq_append_of_readQuoted? h)
  · -- No quote in front: the field ends where a special character stands.
    cases h
    refine ⟨_, .bare fun c hc => ?_, List.takeWhile_append_dropWhile.symm⟩
    simpa using List.mem_takeWhile_imp hc

/-! ### Records -/

/-- A field may be followed by the comma in front of the next field. -/
theorem endsField_comma (rest : Text) : EndsField (',' :: rest) :=
  ⟨',', rest, rfl, by decide, by decide⟩

/-- The last field of a record is followed by the end of the record, and its CR already stops a bare
field. -/
theorem endsField_crlf (rest : Text) : EndsField ('\r' :: '\n' :: rest) :=
  ⟨'\r', '\n' :: rest, rfl, by decide, by decide⟩

/-- A field with a comma behind it is followed by the other fields of its record. The reader runs by
well founded recursion, so this and the next lemma are its equations. -/
theorem readRecord?_of_comma {t field more : Text} (h : readField? t = some (field, ',' :: more)) :
    readRecord? t = (readRecord? more).map fun (fields, after) => (field :: fields, after) := by
  rw [readRecord?]
  split
  · next hfound => rw [h] at hfound; cases hfound; rfl
  · next hfound => rw [h] at hfound; cases hfound
  · next hother _ => exact absurd h (hother field more)

/-- A field with CRLF behind it is the last one of its record, and what follows belongs to the next
one. -/
theorem readRecord?_of_crlf {t field after : Text}
    (h : readField? t = some (field, '\r' :: '\n' :: after)) :
    readRecord? t = some ([field], after) := by
  rw [readRecord?]
  split
  · next hfound => rw [h] at hfound; cases hfound
  · next hfound => rw [h] at hfound; cases hfound; rfl
  · next hother => exact absurd h (hother field after)

/-- A written record is read up to its end, whatever follows. Unlike a field it needs no condition
on what follows, as its last two characters end it. -/
theorem readRecord?_append {fields : List Text} {written : Text} (h : RecordForm fields written)
    (after : Text) : readRecord? (written ++ after) = some (fields, after) := by
  induction h with
  | last hfield =>
    have hread := readField?_append hfield (endsField_crlf after)
    rw [List.append_assoc]
    exact readRecord?_of_crlf hread
  | @more field written rest fields hfield _ ih =>
    have hread := readField?_append hfield (endsField_comma (rest ++ after))
    rw [List.append_assoc, List.cons_append, readRecord?_of_comma hread, ih]
    rfl

/-- What is read as a record is a written form of it. The reader has one step for each field, and a
step that reads neither a comma nor CRLF behind the field gives nothing. -/
theorem recordForm_of_readRecord? {t after : Text} {fields : List Text}
    (h : readRecord? t = some (fields, after)) :
    ∃ written, RecordForm fields written ∧ t = written ++ after := by
  fun_induction readRecord? t generalizing fields after with
  | case1 t field more hread ih =>
    obtain ⟨⟨others, rest⟩, hinner, heq⟩ := Option.map_eq_some_iff.1 h
    cases heq
    obtain ⟨writtenField, hfield, rfl⟩ := fieldForm_of_readField? hread
    obtain ⟨writtenRest, hrest, rfl⟩ := ih hinner
    exact ⟨_, .more hfield hrest, by simp⟩
  | case2 t field rest hread =>
    cases h
    obtain ⟨writtenField, hfield, rfl⟩ := fieldForm_of_readField? hread
    exact ⟨_, .last hfield, by simp⟩
  | case3 => cases h

/-! ### Texts -/

/-- A text that begins with a record is read as that record and what follows. So texts are read
record by record, and no record has to be looked at again. -/
theorem decode?_of_readRecord? {t after : Text} {fields : List Text}
    (h : readRecord? t = some (fields, after)) : decode? t = (decode? after).map (fields :: ·) := by
  cases t with
  | nil =>
    -- No record can be read from nothing, since it ends with CRLF.
    have hlt := length_lt_of_readRecord? h
    exact absurd hlt (Nat.not_lt_zero _)
  | cons c rest =>
    rw [decode?]
    split
    · next hnone => rw [h] at hnone; cases hnone
    · next found other hfound =>
      rw [h] at hfound
      cases hfound
      rfl

/-- The reader accepts every text of the format and gives the records it stands for. -/
theorem decode?_of_textForm {records : List (List Text)} {t : Text} (h : TextForm records t) :
    decode? t = some records := by
  induction h with
  | nil => rw [decode?]
  | cons hrecord _ ih =>
    rw [decode?_of_readRecord? (readRecord?_append hrecord _), ih]
    rfl

/-- The reader accepts no other text: each step takes a written form of a record from the front,
until nothing is left. -/
theorem textForm_of_decode? {records : List (List Text)} {t : Text} (h : decode? t = some records) :
    TextForm records t := by
  fun_induction decode? t generalizing records with
  | case1 => cases h; exact .nil
  | case2 => cases h
  | case3 c rest fields after hread ih =>
    obtain ⟨others, hinner, rfl⟩ := Option.map_eq_some_iff.1 h
    obtain ⟨written, hrecord, heq⟩ := recordForm_of_readRecord? hread
    rw [heq]
    exact .cons hrecord (ih hinner)

/-- The reader accepts the texts of the format, and nothing else. It is written from the format and
not from the writer, so that it can vouch for what the writer writes. -/
theorem decode?_eq_some_iff {records : List (List Text)} {t : Text} :
    decode? t = some records ↔ TextForm records t :=
  ⟨textForm_of_decode?, decode?_of_textForm⟩

/-! ### The writer -/

/-- The writer uses quotes exactly when some character of the field needs them, and each choice is
one of the two forms of a field. -/
theorem fieldForm_encodeField (field : Text) : FieldForm field (encodeField field) := by
  unfold encodeField
  split
  · rw [doubleQuotes_eq_flatMap]
    exact .quoted
  · next hbare =>
    refine .bare fun c hc => ?_
    rw [Bool.not_eq_true, List.any_eq_false] at hbare
    simpa using hbare c hc

/-- A record is written by joining its fields, and its form is given field by field. This is the
step between the two. -/
theorem encodeRecord_cons_cons (field next : Text) (fields : List Text) :
    encodeRecord (field :: next :: fields) =
      encodeField field ++ ',' :: encodeRecord (next :: fields) := by
  simp [encodeRecord, Text.join, List.intercalate]

/-- A record with at least one field is written in the format. Without fields there would be nothing
but CRLF, and that is the record with one empty field. -/
theorem recordForm_encodeRecord (field : Text) (fields : List Text) :
    RecordForm (field :: fields) (encodeRecord (field :: fields)) := by
  induction fields generalizing field with
  | nil => simpa [encodeRecord, Text.join] using RecordForm.last (fieldForm_encodeField field)
  | cons next fields ih =>
    rw [encodeRecord_cons_cons]
    exact .more (fieldForm_encodeField field) (ih next)

/-- Records of at least one field each are written in the format, by the same for each of them. -/
theorem textForm_encode {records : List (List Text)} (h : ∀ fields ∈ records, fields ≠ []) :
    TextForm records (encode records) := by
  induction records with
  | nil => exact .nil
  | cons fields records ih =>
    obtain ⟨hfields, hrecords⟩ := List.forall_mem_cons.1 h
    cases fields with
    | nil => exact absurd rfl hfields
    | cons field fields =>
      rw [encode, List.flatMap_cons]
      exact .cons (recordForm_encodeRecord field fields) (ih hrecords)

/-- A row of a report is known from its fields, since it has nothing else. So two reports with the
same records are the same. -/
theorem fields_injective : Function.Injective ReportRow.fields := by
  intro row other h
  cases row
  cases other
  simpa [ReportRow.fields] using h

/-- A report is written in the format: every row has four fields, so none of its records is
empty. -/
theorem textForm_toCsv (rows : List ReportRow) :
    TextForm (rows.map ReportRow.fields) (ReportRow.toCsv rows) := by
  refine textForm_encode fun fields hfields => ?_
  obtain ⟨row, -, rfl⟩ := List.mem_map.1 hfields
  exact List.cons_ne_nil _ _

/-- **A report is read back from its CSV.** For all rows, whatever characters their fields hold:

1. the text is of the format, and the reader gives the four fields of each row in order;
2. the reader accepts exactly the texts of the format, each as a whole;
3. reports with the same text have the same rows;
4. the records that are read are written as the same text again. -/
theorem toCsv_roundTrip (rows : List ReportRow) :
    TextForm (rows.map ReportRow.fields) (ReportRow.toCsv rows) ∧
      decode? (ReportRow.toCsv rows) = some (rows.map ReportRow.fields) ∧
      (∀ records t, decode? t = some records ↔ TextForm records t) ∧
      (∀ others, ReportRow.toCsv rows = ReportRow.toCsv others → rows = others) ∧
      ∀ records, decode? (ReportRow.toCsv rows) = some records →
        encode records = ReportRow.toCsv rows := by
  have hread (rows : List ReportRow) := decode?_of_textForm (textForm_toCsv rows)
  refine ⟨textForm_toCsv rows, hread rows, fun _ _ => decode?_eq_some_iff, fun others h => ?_,
    fun records h => ?_⟩
  · have hsame := hread rows
    rw [h, hread others] at hsame
    exact (List.map_injective_iff.2 fields_injective (Option.some.inj hsame)).symm
  · rw [hread rows] at h
    cases h
    rfl

end Csv

end ImportCensus

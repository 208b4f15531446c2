import ImportCensus.Report.Csv

/-!
# `ImportCensus.Report.CsvReader`: reading comma separated values

The reader accepts records that end with CRLF, and in them fields of two kinds: bare ones, free of
commas, quotes, CR and LF, and quoted ones, in which each quote is written twice. It accepts nothing
else, so a text has at most one reading.
-/

set_option autoImplicit false

namespace ImportCensus

namespace Csv

/-- The rest of a quoted field behind its opening quote, and what follows its closing quote. -/
def readQuoted? : Text → Option (Text × Text)
  | [] => none
  | c :: rest =>
    if c = quote then
      match rest with
      | [] => some ([], [])
      | d :: more =>
        -- Only the character behind a quote tells whether the field goes on.
        if d = quote then (readQuoted? more).map fun (content, after) => (quote :: content, after)
        else some ([], d :: more)
    else (readQuoted? rest).map fun (content, after) => (c :: content, after)

/-- A field, and what follows it. -/
def readField? (t : Text) : Option (Text × Text) :=
  if t.head? = some quote then readQuoted? t.tail
  else some (t.takeWhile (!isSpecial ·), t.dropWhile (!isSpecial ·))

/-- What follows the content of a quoted field is a rest of the text. -/
theorem length_le_of_readQuoted? {t content after : Text}
    (h : readQuoted? t = some (content, after)) : after.length ≤ t.length := by
  fun_induction readQuoted? t generalizing content after with
  | case1 => cases h
  | case2 => cases h; exact Nat.zero_le _
  | case3 more ih =>
    obtain ⟨⟨_, _⟩, inner, e⟩ := Option.map_eq_some_iff.1 h
    cases e
    exact Nat.le_succ_of_le (Nat.le_succ_of_le (ih inner))
  | case4 => cases h; exact Nat.le_succ _
  | case5 c rest _ ih =>
    obtain ⟨⟨_, _⟩, inner, e⟩ := Option.map_eq_some_iff.1 h
    cases e
    exact Nat.le_succ_of_le (ih inner)

/-- What follows a field is a rest of the text, which may be all of it if the field is empty. -/
theorem length_le_of_readField? {t field after : Text} (h : readField? t = some (field, after)) :
    after.length ≤ t.length := by
  unfold readField? at h
  split at h
  · have := length_le_of_readQuoted? h
    have : t.tail.length ≤ t.length := (List.tail_sublist t).length_le
    omega
  · cases h
    exact (List.dropWhile_sublist _).length_le

/-- A record, and what follows it. -/
def readRecord? (t : Text) : Option (List Text × Text) :=
  match _field : readField? t with
  | some (field, ',' :: more) =>
    (readRecord? more).map fun (fields, after) => (field :: fields, after)
  | some (field, '\r' :: '\n' :: after) => some ([field], after)
  | _ => none
termination_by t.length
decreasing_by
  have := length_le_of_readField? _field
  rw [List.length_cons] at this
  omega

/-- A record takes something of the text, as there is CRLF at its end. So reading records comes to
an end. -/
theorem length_lt_of_readRecord? {t after : Text} {fields : List Text}
    (h : readRecord? t = some (fields, after)) : after.length < t.length := by
  fun_induction readRecord? t generalizing fields after with
  | case1 t field more read ih =>
    obtain ⟨⟨_, _⟩, inner, e⟩ := Option.map_eq_some_iff.1 h
    cases e
    have := ih inner
    have := length_le_of_readField? read
    rw [List.length_cons] at this
    omega
  | case2 t field rest read =>
    cases h
    have := length_le_of_readField? read
    simp only [List.length_cons] at this
    omega
  | case3 => cases h

/-- The records of a text. -/
def decode? (t : Text) : Option (List (List Text)) :=
  match t with
  | [] => some []
  | c :: rest =>
    match _record : readRecord? (c :: rest) with
    | none => none
    | some (fields, after) => (decode? after).map (fields :: ·)
termination_by t.length
decreasing_by exact length_lt_of_readRecord? _record

end Csv

/-- The row with the given fields, if there are four of them. -/
def ReportRow.ofFields? : List Text → Option ReportRow
  | [sourceRoot, usedClass, targetRoot, consumingClass] =>
    some ⟨sourceRoot, usedClass, targetRoot, consumingClass⟩
  | _ => none

end ImportCensus

import Mathlib.Data.List.Infix
import Mathlib.Data.List.TakeWhile
import ImportCensus.Text.Basic

/-!
# `ImportCensus.Proofs.Text.Search`: what searching and trimming find

The readers of headers search for keywords by `Text.after?`, which runs along a text, and cut texts
by `takeWhile` and `Text.dropEndWhile`. The theorems say what these find without running along:

* `mentions_iff`: a keyword is found exactly when it occurs.
* `after?_eq_some_iff`: what is found stands behind the first occurrence.
* `after?_append_eq_or`: no occurrence goes over a character that the keyword has not.
* `takeWhile_ne_eq_iff`, `dropEndWhile_eq_iff`: the two cuts, by what is cut off.
-/

set_option autoImplicit false

namespace ImportCensus

namespace Text

/-- What stands behind the first occurrence of `key`: no occurrence begins with less in front of
it. -/
def IsAfterFirst (key t rest : Text) : Prop :=
  ∃ front, t = front ++ key ++ rest ∧
    ∀ otherFront otherRest, t = otherFront ++ key ++ otherRest → front.length ≤ otherFront.length

/-- A keyword is found in a text exactly when it occurs there. The search tries each place of the
text in turn, and an occurrence begins at one of them. -/
theorem mentions_iff {key t : Text} : mentions key t = true ↔ key <:+: t := by
  unfold mentions
  induction t with
  | nil => cases key <;> simp [after?, List.isPrefixOf?]
  | cons c t ih =>
    rw [List.infix_cons_iff, ← ih, ← List.isPrefixOf_iff_prefix,
      ← List.isSome_isPrefixOf?_eq_isPrefixOf, after?]
    cases key.isPrefixOf? (c :: t) <;> simp

/-- A search that finds nothing says that the keyword occurs nowhere. This is `mentions_iff` in the
form in which the readers of headers meet it. -/
theorem after?_eq_none_iff {key t : Text} : after? key t = none ↔ ¬ key <:+: t := by
  rw [← mentions_iff, mentions]
  cases after? key t <;> simp

/-- A prefix is the first occurrence. Nothing stands in front of it, so what is behind the first
occurrence is what is behind the prefix. -/
theorem isAfterFirst_of_leading {key t rest other : Text} (h : key ++ rest = t) :
    IsAfterFirst key t other ↔ other = rest := by
  constructor
  · rintro ⟨front, hfront, hfirst⟩
    have hnil : front = [] := List.length_eq_zero_iff.1
      (Nat.le_zero.1 (hfirst [] rest (by simp [h])))
    rw [hnil, ← h] at hfront
    simpa [eq_comm] using hfront
  · rintro rfl
    exact ⟨[], by simp [h], fun _ _ _ => Nat.zero_le _⟩

/-- Without an occurrence at its beginning, a text has the same first occurrence as its tail. One
character more stands in front of each occurrence, so which of them is the first does not change. -/
theorem isAfterFirst_cons {key t rest : Text} {c : Char} (h : ¬ key <+: c :: t) :
    IsAfterFirst key (c :: t) rest ↔ IsAfterFirst key t rest := by
  -- An occurrence in `c :: t` has something in front of it, and that begins with `c`.
  have hcons : ∀ front other : Text, c :: t = front ++ key ++ other →
      ∃ tail, front = c :: tail ∧ t = tail ++ key ++ other := by
    intro front other heq
    cases front with
    | nil => exact absurd ⟨other, by simpa using heq.symm⟩ h
    | cons d tail =>
      simp only [List.cons_append, List.cons.injEq] at heq
      exact ⟨tail, by rw [heq.1], heq.2⟩
  constructor
  · rintro ⟨front, hfront, hfirst⟩
    obtain ⟨tail, rfl, ht⟩ := hcons front rest hfront
    refine ⟨tail, ht, fun other otherRest hother => ?_⟩
    have hle := hfirst (c :: other) otherRest (by simp [hother])
    simpa using hle
  · rintro ⟨tail, ht, hfirst⟩
    refine ⟨c :: tail, by simp [ht], fun other otherRest hother => ?_⟩
    obtain ⟨otherTail, rfl, hotherTail⟩ := hcons other otherRest hother
    simpa using hfirst otherTail otherRest hotherTail

/-- Searching gives what stands behind the first occurrence of the keyword. The search goes on to
the tail exactly if the keyword does not begin the text, and the two lemmas above are these two
cases. -/
theorem after?_eq_some_iff {key t rest : Text} :
    after? key t = some rest ↔ IsAfterFirst key t rest := by
  induction t with
  | nil =>
    rw [after?, List.isPrefixOf?_eq_some_iff_append_eq]
    constructor
    · intro h
      exact (isAfterFirst_of_leading h).2 rfl
    · rintro ⟨front, hfront, -⟩
      simp only [List.append_assoc, List.nil_eq, List.append_eq_nil_iff] at hfront
      simp [hfront.2]
  | cons c t ih =>
    rw [after?]
    cases hprefix : key.isPrefixOf? (c :: t) with
    | some found =>
      -- The text begins with the key, so there is no earlier place.
      rw [isAfterFirst_of_leading (List.isPrefixOf?_eq_some_iff_append_eq.1 hprefix)]
      simp [eq_comm]
    | none =>
      -- It does not, and the first place is to be looked for in the tail.
      have hnot : ¬ key <+: c :: t := by
        rintro ⟨other, hother⟩
        rw [List.isPrefixOf?_eq_some_iff_append_eq.2 hother] at hprefix
        cases hprefix
      rw [isAfterFirst_cons hnot]
      exact ih

section

variable {key tail : Text}

/-- A keyword begins a text exactly if it does so without a tail that goes on with a character which
the keyword has not. A keyword that went on into the tail would have that character in it. -/
theorem isPrefixOf?_append (h : ∀ c ∈ tail.head?, c ∉ key) (t : Text) :
    key.isPrefixOf? (t ++ tail) = (key.isPrefixOf? t).map (· ++ tail) := by
  induction key generalizing t with
  | nil => rfl
  | cons k key ih =>
    cases t with
    | nil =>
      cases tail with
      | nil => rfl
      | cons c tail =>
        -- The key goes on where the tail begins, with a character that it does not have.
        have hne : (k == c) = false :=
          beq_false_of_ne fun heq => h c rfl (heq ▸ List.mem_cons_self)
        simp [List.isPrefixOf?, hne]
    | cons c t =>
      have hrest := ih (fun c hc hmem => h c hc (List.mem_cons_of_mem k hmem)) t
      simp only [List.cons_append, List.isPrefixOf?, hrest]
      split <;> rfl

/-- No keyword occurs in the empty text, except for the empty one. -/
theorem after?_nil (hne : key ≠ []) : after? key [] = none := by
  cases key with
  | nil => exact absurd rfl hne
  | cons k key => rfl

/-- A character that the keyword has not belongs to no occurrence, so a search can pass over it. -/
theorem after?_cons_of_not_mem (hne : key ≠ []) {c : Char} (hc : c ∉ key) (t : Text) :
    after? key (c :: t) = after? key t := by
  cases key with
  | nil => exact absurd rfl hne
  | cons k key =>
    have hfirst : (k == c) = false := beq_false_of_ne fun heq => hc (heq ▸ List.mem_cons_self)
    simp [after?, List.isPrefixOf?, hfirst]

/-- Nor do several such characters, one after the other. Endings of lines are of this kind, since no
keyword has a line break in it. -/
theorem after?_append_of_not_mem (hne : key ≠ []) {ending : Text} (h : ∀ c ∈ ending, c ∉ key)
    (t : Text) : after? key (ending ++ t) = after? key t := by
  induction ending with
  | nil => rfl
  | cons c ending ih =>
    obtain ⟨hc, hending⟩ := List.forall_mem_cons.1 h
    rw [List.cons_append, after?_cons_of_not_mem hne hc, ih hending]

/-- No occurrence goes over from a text to a tail that begins with a character which the keyword has
not. What is found is found in the text, with the tail behind it, or else in the tail. So a search
of a whole text can be done line by line. -/
theorem after?_append_eq_or (hne : key ≠ []) (h : ∀ c ∈ tail.head?, c ∉ key) (t : Text) :
    after? key (t ++ tail) = ((after? key t).map (· ++ tail)).or (after? key tail) := by
  induction t with
  | nil => rw [after?_nil hne, List.nil_append, Option.map_none, Option.none_or]
  | cons c t ih =>
    rw [List.cons_append, after?, after?, ← List.cons_append, isPrefixOf?_append h, ih]
    cases key.isPrefixOf? (c :: t) <;> rfl

/-- An ending without characters of the keyword comes to stand behind what is found, and nothing is
found in it. So lines can be searched with their endings or without. -/
theorem after?_append (hne : key ≠ []) {ending : Text} (h : ∀ c ∈ ending, c ∉ key) (t : Text) :
    after? key (t ++ ending) = (after? key t).map (· ++ ending) := by
  have hnone : after? key ending = none := by
    rw [← List.append_nil ending, after?_append_of_not_mem hne h, after?_nil hne]
  rw [after?_append_eq_or hne (fun c hc => h c (List.mem_of_mem_head? hc)), hnone, Option.or_none]

end

/-! ### Cuts -/

/-- What stands in front of the first occurrence of a character: the text goes on with that
character behind it, and has none of them in front. The induction goes along the text, and the two
cases are whether its first character is the one that is looked for. -/
theorem takeWhile_ne_eq_iff {c : Char} {t front : Text} (h : c ∈ t) :
    t.takeWhile (· != c) = front ↔ ∃ rest, t = front ++ c :: rest ∧ c ∉ front := by
  induction t generalizing front with
  | nil => cases h
  | cons d t ih =>
    by_cases hd : d = c
    · -- The text begins with the character, so nothing stands in front of it.
      subst hd
      rw [List.takeWhile_cons_of_neg (by simp)]
      constructor
      · rintro rfl
        exact ⟨t, rfl, by simp⟩
      · rintro ⟨rest, hrest, hfresh⟩
        cases front with
        | nil => rfl
        | cons e front => simp_all
    · -- The first character stands in front of it, and the rest is found in the tail.
      have hmem : c ∈ t := List.mem_of_ne_of_mem (Ne.symm hd) h
      rw [List.takeWhile_cons_of_pos (by simpa using hd)]
      constructor
      · rintro rfl
        obtain ⟨rest, hrest, hfresh⟩ := (ih hmem).1 rfl
        refine ⟨rest, by rw [List.cons_append, ← hrest], ?_⟩
        simp [hfresh, Ne.symm hd]
      · rintro ⟨rest, hrest, hfresh⟩
        cases front with
        | nil => exact absurd (List.cons.inj hrest).1 hd
        | cons e front =>
          obtain ⟨rfl, htail⟩ := List.cons.inj hrest
          rw [(ih hmem).2 ⟨rest, htail, fun hc => hfresh (List.mem_cons_of_mem _ hc)⟩]

/-- So a text that is put together in this way is cut where it was put together. -/
theorem takeWhile_ne_append {c : Char} {front : Text} (h : c ∉ front) (rest : Text) :
    (front ++ c :: rest).takeWhile (· != c) = front :=
  (takeWhile_ne_eq_iff (by simp)).2 ⟨rest, rfl, h⟩

/-- The first occurrence of a character and what stands behind it, which is the other part of the
same cut. -/
theorem dropWhile_ne_append {c : Char} {front : Text} (h : c ∉ front) (rest : Text) :
    (front ++ c :: rest).dropWhile (· != c) = c :: rest := by
  have hsplit := List.takeWhile_append_dropWhile (p := (· != c)) (l := front ++ c :: rest)
  rw [takeWhile_ne_append h] at hsplit
  exact List.append_cancel_left hsplit

/-- What is left when the end is cut off as far as `p` holds: something that does not end with such
a character, and behind it were only such characters. The definition turns the text round twice.
This says what it comes to without turning anything round. -/
theorem dropEndWhile_eq_iff {p : Char → Bool} {t front : Text} :
    dropEndWhile p t = front ↔
      ∃ ending, t = front ++ ending ∧ (∀ c ∈ ending, p c = true) ∧
        ∀ c ∈ front.getLast?, p c = false := by
  constructor
  · rintro rfl
    -- Seen from its end, the text is cut where `p` first fails.
    refine ⟨(t.reverse.takeWhile p).reverse, ?_, ?_, ?_⟩
    · rw [dropEndWhile, ← List.reverse_append, List.takeWhile_append_dropWhile,
        List.reverse_reverse]
    · intro c hc
      exact List.mem_takeWhile_imp (List.mem_reverse.1 hc)
    · intro c hc
      rw [dropEndWhile, List.getLast?_reverse] at hc
      have hhead := List.head?_dropWhile_not p t.reverse
      rw [Option.mem_def.1 hc] at hhead
      simpa using hhead
  · rintro ⟨ending, rfl, hending, hlast⟩
    have hall : ∀ c ∈ ending.reverse, p c = true := fun c hc => hending c (List.mem_reverse.1 hc)
    rw [dropEndWhile, List.reverse_append, List.dropWhile_append_of_pos hall]
    cases hfront : front.reverse with
    | nil =>
      rw [List.reverse_eq_nil_iff.1 hfront]
      rfl
    | cons c rest =>
      have hc : p c = false := hlast c (by rw [List.getLast?_eq_head?_reverse, hfront]; rfl)
      rw [List.dropWhile_cons_of_neg (by simp [hc]), ← hfront, List.reverse_reverse]

end Text

end ImportCensus

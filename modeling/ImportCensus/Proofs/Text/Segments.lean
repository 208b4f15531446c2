import ImportCensus.Text.Basic

/-!
# `ImportCensus.Proofs.Text.Segments`: the segments of a text

The segments of a text are what stands between its separators. No segment has a separator in it, and
none has a character that the text has not.

* `mem_of_mem_segments`: both of these.
* `segments_append`: the segments on both sides of a separator.
* `ne_nil_of_getLast?_segments`: only a text that ends with a separator has an empty last segment.
-/

set_option autoImplicit false

namespace ImportCensus

namespace Text

variable {separator : Char}

/-- A character in front of a text is a separator, or goes to the first segment. This is the step by
which inductions over the text go. -/
theorem segments_cons (c : Char) (t : Text) :
    segments separator (c :: t) =
      if c == separator then [] :: segments separator t
      else (segments separator t).modifyHead (c :: ·) :=
  List.splitOn_cons_eq_if_modifyHead c t

/-- A segment consists of characters of the text, and the separator is not among them. A label that
is a segment of a path has therefore no slash in it. -/
theorem mem_of_mem_segments {t segment : Text} (h : segment ∈ segments separator t) {c : Char}
    (hc : c ∈ segment) : c ∈ t ∧ c ≠ separator := by
  induction t generalizing segment with
  | nil =>
    rw [segments, List.splitOn_nil, List.mem_singleton] at h
    rw [h] at hc
    cases hc
  | cons d t ih =>
    rw [segments_cons] at h
    split at h
    · -- A separator opens an empty segment.
      rcases List.mem_cons.1 h with rfl | h
      · cases hc
      · exact ⟨List.mem_cons_of_mem d (ih h hc).1, (ih h hc).2⟩
    · next hd =>
      -- The first segment is one longer, the others are those of the rest.
      obtain ⟨head, tail, hsplit⟩ := List.exists_cons_of_ne_nil (List.splitOn_ne_nil separator t)
      change segments separator t = head :: tail at hsplit
      rw [hsplit] at ih h
      rcases List.mem_cons.1 h with rfl | h
      · rcases List.mem_cons.1 hc with rfl | hc
        · exact ⟨List.mem_cons_self, by simpa using hd⟩
        · exact ⟨List.mem_cons_of_mem d (ih List.mem_cons_self hc).1, (ih List.mem_cons_self hc).2⟩
      · have hrest := ih (List.mem_cons_of_mem head h) hc
        exact ⟨List.mem_cons_of_mem d hrest.1, hrest.2⟩

/-- A text without separators is its only segment. -/
theorem segments_of_not_mem {t : Text} (h : separator ∉ t) : segments separator t = [t] :=
  List.splitOn_eq_singleton h

/-- The segments on both sides of a separator. It does not matter how many separators stand on
either side, so this equation alone says how segments follow from how a path was put together. -/
theorem segments_append (front t : Text) :
    segments separator (front ++ separator :: t) =
      segments separator front ++ segments separator t :=
  List.splitOn_append_cons_self front t

/-- What stands in front of the first separator is the first segment, and the others are the
segments of what is behind it. -/
theorem segments_append_cons {front : Text} (h : separator ∉ front) (t : Text) :
    segments separator (front ++ separator :: t) = front :: segments separator t :=
  List.splitOn_append_cons_self_of_not_mem h t

/-- Separators at the end add empty segments, one for each. They are passed over where a path is
followed, and also where its last name is looked for. -/
theorem segments_append_replicate (t : Text) (n : Nat) :
    segments separator (t ++ List.replicate n separator) =
      segments separator t ++ List.replicate n [] := by
  induction n with
  | zero => rw [List.replicate_zero, List.append_nil, List.replicate_zero, List.append_nil]
  | succ n ih =>
    have hlast : t ++ List.replicate (n + 1) separator =
        (t ++ List.replicate n separator) ++ separator :: [] := by
      rw [List.replicate_succ', List.append_assoc]
    rw [hlast, segments_append, ih, List.append_assoc, List.replicate_succ']
    rfl

/-- The last segment of a text that does not end with a separator is not empty: it is what stands
behind the last separator, or the whole text if there is none. -/
theorem ne_nil_of_getLast?_segments {t segment : Text} (hne : t ≠ [])
    (hlast : separator ∉ t.getLast?) (h : (segments separator t).getLast? = some segment) :
    segment ≠ [] := by
  rintro rfl
  by_cases hmem : separator ∈ t
  · -- Behind the last separator stands the last segment.
    obtain ⟨front, back, hsplit, hfresh⟩ := List.eq_append_cons_of_mem (List.mem_reverse.2 hmem)
    have ht : t = back.reverse ++ separator :: front.reverse := by
      rw [← List.reverse_reverse t, hsplit]
      simp
    have hsegment : segments separator front.reverse = [front.reverse] :=
      segments_of_not_mem (by simpa using hfresh)
    rw [ht, segments_append, hsegment, List.getLast?_concat, Option.some.injEq] at h
    exact hlast (by rw [ht, h, List.getLast?_concat]; rfl)
  · rw [segments_of_not_mem hmem] at h
    exact hne (Option.some.inj h)

end Text

end ImportCensus

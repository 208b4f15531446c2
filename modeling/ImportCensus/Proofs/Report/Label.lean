import Mathlib.Data.List.Induction
import ImportCensus.Proofs.Text.Search
import ImportCensus.Proofs.Text.Segments
import ImportCensus.Report.Label

/-!
# `ImportCensus.Proofs.Report.Label`: the label of a root

`rootLabel` looks for a place among the segments, and without one it trims the text and cuts it
again. `IsLabel` says in one way for both what the label is: it is read off the segments alone. So
it is enough to know what a change of the root does to its segments.

* `IsLabel.rootLabel_eq`, `exists_isLabel`: each root has a label by the rules, and it is this one.
* `IsLabel.append_empty`, `IsLabel.append`, `IsProject.prepend`: what may be added to the segments.
* `rootLabel_determined`: what this means for roots.
-/

set_option autoImplicit false

namespace ImportCensus

/-! ### The rules -/

/-- A segment that starts like the directory with a project's code. -/
def IsSource (segment : Text) : Prop := sourceDirectory <+: segment

/-- The segment that bears the name of a project. -/
inductive IsProject : List Text → Text → Prop
  /-- It is in front of the first segment that starts like the directory with the code. -/
  | above {front back : List Text} {project source : Text}
    (hfront : ∀ segment ∈ front ++ [project], ¬ IsSource segment) (hsource : IsSource source) :
    IsProject (front ++ project :: source :: back) project
  /-- Without such a segment it is the last one that is not empty. -/
  | last {front back : List Text} {project : Text}
    (hnone : ∀ segment ∈ front ++ [project], ¬ IsSource segment) (hne : project ≠ [])
    (hempty : ∀ segment ∈ back, segment = []) :
    IsProject (front ++ project :: back) project

/-- The label of a path with the given segments. -/
inductive IsLabel : List Text → Text → Prop
  | project {segments : List Text} {label : Text} (h : IsProject segments label) :
    IsLabel segments label
  /-- Nothing is above the code. -/
  | source {segment : Text} {back : List Text} (h : IsSource segment) :
    IsLabel (segment :: back) sourceDirectory
  | empty {segments : List Text} (h : ∀ segment ∈ segments, segment = []) : IsLabel segments []

/-- The test on a segment says what `IsSource` means. -/
theorem isSource_iff {segment : Text} :
    sourceDirectory.isPrefixOf segment = true ↔ IsSource segment :=
  List.isPrefixOf_iff_prefix

/-- A segment fails the test if it does not start like the directory with the code. -/
theorem not_isSource_iff {segment : Text} :
    sourceDirectory.isPrefixOf segment = false ↔ ¬ IsSource segment := by
  rw [← isSource_iff, Bool.not_eq_true]

/-- An empty segment is no source directory. So segments that are added by separators never change
which source directory is the first. -/
theorem not_isSource_nil : ¬ IsSource [] := by
  unfold IsSource
  decide

/-! ### The first and the last segments that count -/

/-- The last segment that is not empty. -/
def lastFilled (segments : List Text) : Option Text := segments.reverse.find? (· ≠ [])

/-- The last segment that is not empty has only empty segments behind it, and this singles it
out. -/
theorem lastFilled_eq_some_iff {segments : List Text} {segment : Text} :
    lastFilled segments = some segment ↔ segment ≠ [] ∧
      ∃ front back, segments = front ++ segment :: back ∧ ∀ other ∈ back, other = [] := by
  rw [lastFilled, List.find?_eq_some_iff_append]
  simp only [decide_eq_true_eq]
  refine and_congr_right fun _ => ⟨?_, ?_⟩
  · rintro ⟨back, front, hsplit, hback⟩
    refine ⟨front.reverse, back.reverse, ?_, by simpa using hback⟩
    rw [← List.reverse_reverse segments, hsplit]
    simp
  · rintro ⟨front, back, rfl, hback⟩
    exact ⟨back.reverse, front.reverse, by simp, by simpa using hback⟩

/-- There is no such segment if all of them are empty, as for the root directory. -/
theorem lastFilled_eq_none_iff {segments : List Text} :
    lastFilled segments = none ↔ ∀ segment ∈ segments, segment = [] := by
  simp [lastFilled]

/-- Empty segments at the end do not count, so separators behind a path leave its last name as it
is. -/
theorem lastFilled_append {front back : List Text} (h : ∀ segment ∈ back, segment = []) :
    lastFilled (front ++ back) = lastFilled front := by
  have hnone : back.reverse.find? (· ≠ []) = none := by simpa using h
  rw [lastFilled, List.reverse_append, List.find?_append, hnone, Option.none_or]
  rfl

/-- Every path has a label. The rules are complete: there is a source directory with or without a
segment in front of it, or a last segment that is not empty, or nothing at all. -/
theorem exists_isLabel (segments : List Text) : ∃ label, IsLabel segments label := by
  -- The first source directory decides; only without one does it matter what is empty.
  cases hfirst : segments.find? sourceDirectory.isPrefixOf with
  | some source =>
    obtain ⟨hsource, front, back, rfl, hfront⟩ := List.find?_eq_some_iff_append.1 hfirst
    have hnone : ∀ segment ∈ front, ¬ IsSource segment := fun segment hsegment =>
      not_isSource_iff.1 (by simpa using hfront segment hsegment)
    rcases List.eq_nil_or_concat front with rfl | ⟨front, project, rfl⟩
    · exact ⟨_, .source (isSource_iff.1 hsource)⟩
    · rw [List.concat_eq_append] at hnone ⊢
      rw [List.append_assoc]
      exact ⟨project, .project (.above hnone (isSource_iff.1 hsource))⟩
  | none =>
    have hnone : ∀ segment ∈ segments, ¬ IsSource segment := fun segment hsegment hsource =>
      List.find?_eq_none.1 hfirst segment hsegment (isSource_iff.2 hsource)
    cases hlast : lastFilled segments with
    | some project =>
      obtain ⟨hne, front, back, rfl, hempty⟩ := lastFilled_eq_some_iff.1 hlast
      refine ⟨project, .project (.last (fun segment hsegment => hnone segment ?_) hne hempty)⟩
      rw [List.append_cons]
      exact List.mem_append_left back hsegment
    | none => exact ⟨[], .empty (lastFilled_eq_none_iff.1 hlast)⟩

/-! ### The label of a root -/

/-- To trim a path and cut it again finds the last segment that is not empty, if there is one.
Without its separators at the end a path either is empty or ends in a segment with a character. -/
theorem getD_getLast?_segments_dropEndWhile (root : Text) :
    (((root.dropEndWhile (· == '/')).segments '/').getLast?).getD [] =
      (lastFilled (root.segments '/')).getD [] := by
  obtain ⟨ending, hroot, hending, hkept⟩ :=
    Text.dropEndWhile_eq_iff.1 (rfl : root.dropEndWhile (· == '/') = _)
  generalize root.dropEndWhile (· == '/') = kept at hroot hkept ⊢
  -- What is cut off are separators, and they only add empty segments.
  have hslashes : ending = List.replicate ending.length '/' :=
    List.eq_replicate_of_mem fun c hc => by simpa using hending c hc
  rw [hroot, hslashes, Text.segments_append_replicate,
    lastFilled_append fun _ => List.eq_of_mem_replicate]
  by_cases hne : kept = []
  · subst hne
    rfl
  · obtain ⟨front, last, hsplit⟩ := List.eq_nil_or_concat (kept.segments '/')
      |>.resolve_left (List.splitOn_ne_nil '/' kept)
    rw [List.concat_eq_append] at hsplit
    have hlast : (kept.segments '/').getLast? = some last := by rw [hsplit, List.getLast?_concat]
    have hfilled := Text.ne_nil_of_getLast?_segments hne (fun hmem => nomatch hkept '/' hmem) hlast
    rw [hlast, lastFilled_eq_some_iff.2 ⟨hfilled, front, [], hsplit, nofun⟩]

/-- With a source directory, the label is the segment in front of the first one. If that is the
first segment of all, the name of the directory stands in for it. -/
theorem rootLabel_of_isSource {root segment : Text} {front back : List Text}
    (hsplit : root.segments '/' = front ++ segment :: back)
    (hfront : ∀ other ∈ front, ¬ IsSource other) (hsource : IsSource segment) :
    rootLabel root = front.getLast?.getD sourceDirectory := by
  have hnone : front.findIdx? sourceDirectory.isPrefixOf = none :=
    List.findIdx?_eq_none_iff.2 fun other hother =>
      not_isSource_iff.2 (hfront other hother)
  -- The first source directory is behind all segments of `front`.
  have hfound : (root.segments '/').findIdx? sourceDirectory.isPrefixOf = some front.length := by
    rw [hsplit, List.findIdx?_append, hnone, List.findIdx?_cons, if_pos (isSource_iff.2 hsource)]
    simp
  rw [rootLabel, hfound]
  rcases List.eq_nil_or_concat front with rfl | ⟨above, project, rfl⟩
  · rfl
  · simp [hsplit]

/-- Without a source directory, the label is the last segment that is not empty. -/
theorem rootLabel_of_not_isSource {root : Text}
    (h : ∀ segment ∈ root.segments '/', ¬ IsSource segment) :
    rootLabel root = (lastFilled (root.segments '/')).getD [] := by
  have hnone : (root.segments '/').findIdx? sourceDirectory.isPrefixOf = none :=
    List.findIdx?_eq_none_iff.2 fun segment hsegment =>
      not_isSource_iff.2 (h segment hsegment)
  rw [rootLabel, hnone]
  exact getD_getLast?_segments_dropEndWhile root

/-- A root has no label but the one that is computed. There is one case for each rule, and each is
one of the two ways in which the label is found. -/
theorem IsLabel.rootLabel_eq {root label : Text} (h : IsLabel (root.segments '/') label) :
    rootLabel root = label := by
  -- The rules speak of segments, so the cases need these as a variable.
  generalize hsegments : root.segments '/' = segments at h
  cases h with
  | project h =>
    cases h with
    | @above front back _ _ hfront hsource =>
      rw [List.append_cons] at hsegments
      rw [rootLabel_of_isSource hsegments hfront hsource, List.getLast?_concat]
      rfl
    | @last front back _ hnone hne hempty =>
      have hall : ∀ segment ∈ root.segments '/', ¬ IsSource segment := by
        rw [hsegments, List.append_cons]
        refine List.forall_mem_append.2 ⟨hnone, fun segment hsegment => ?_⟩
        rw [hempty segment hsegment]
        exact not_isSource_nil
      have hlast := lastFilled_eq_some_iff.2 ⟨hne, front, back, hsegments, hempty⟩
      rw [rootLabel_of_not_isSource hall, hlast]
      rfl
  | source hsource =>
    rw [← List.nil_append (_ :: _)] at hsegments
    exact rootLabel_of_isSource hsegments (List.forall_mem_nil _) hsource
  | empty h =>
    have hall : ∀ segment ∈ root.segments '/', ¬ IsSource segment := fun segment hsegment => by
      rw [h segment (hsegments ▸ hsegment)]
      exact not_isSource_nil
    rw [rootLabel_of_not_isSource hall, hsegments, lastFilled_eq_none_iff.2 h]
    rfl

/-- The rules give exactly one label, and it is the one that is computed. So everything else about
labels is shown by the rules, where no path is trimmed or cut. -/
theorem rootLabel_eq_iff {root label : Text} :
    rootLabel root = label ↔ IsLabel (root.segments '/') label := by
  refine ⟨?_, IsLabel.rootLabel_eq⟩
  rintro rfl
  obtain ⟨label, h⟩ := exists_isLabel (root.segments '/')
  rwa [h.rootLabel_eq]

/-! ### Longer paths -/

/-- The name of a project is one of the segments. So it holds no separator, and it is not made
up. -/
theorem IsProject.mem {segments : List Text} {label : Text} (h : IsProject segments label) :
    label ∈ segments := by
  cases h <;> simp

/-- Directories above a path leave its project as it is, unless they hold code themselves. A source
directory further up would be the first one instead. -/
theorem IsProject.prepend {segments more : List Text} {label : Text} (h : IsProject segments label)
    (hmore : ∀ segment ∈ more, ¬ IsSource segment) : IsProject (more ++ segments) label := by
  cases h with
  | above hfront hsource =>
    rw [← List.append_assoc]
    refine .above ?_ hsource
    rw [List.append_assoc]
    exact List.forall_mem_append.2 ⟨hmore, hfront⟩
  | last hnone hne hempty =>
    rw [← List.append_assoc]
    refine .last ?_ hne hempty
    rw [List.append_assoc]
    exact List.forall_mem_append.2 ⟨hmore, hnone⟩

/-- Empty segments at the end leave the label as it is: they come behind everything a rule looks at,
and none of them is a source directory. -/
theorem IsLabel.append_empty {segments more : List Text} {label : Text} (h : IsLabel segments label)
    (hmore : ∀ segment ∈ more, segment = []) : IsLabel (segments ++ more) label := by
  -- Each rule has a part at its end that is free or empty, and what is added goes there.
  cases h with
  | project h =>
    cases h with
    | above hfront hsource =>
      rw [List.append_assoc]
      exact .project (.above hfront hsource)
    | last hnone hne hempty =>
      rw [List.append_assoc]
      exact .project (.last hnone hne (List.forall_mem_append.2 ⟨hempty, hmore⟩))
  | source h => exact .source h
  | empty h => exact .empty (List.forall_mem_append.2 ⟨h, hmore⟩)

/-- Nothing counts below a source directory, since the first one decides. Without a source directory
the last segment is the label, and anything added would replace it. -/
theorem IsLabel.append {segments : List Text} {label : Text} (h : IsLabel segments label)
    (hsource : ∃ segment ∈ segments, IsSource segment) (more : List Text) :
    IsLabel (segments ++ more) label := by
  -- With a source directory among the segments, the two rules for a path without one do not apply.
  obtain ⟨source, hmem, hsource⟩ := hsource
  have hfilled : source ≠ [] := fun hnil => not_isSource_nil (hnil ▸ hsource)
  cases h with
  | project h =>
    cases h with
    | above hfront hfirst =>
      rw [List.append_assoc]
      exact .project (.above hfront hfirst)
    | last hnone hne hempty =>
      rw [List.append_cons] at hmem
      rcases List.mem_append.1 hmem with hmem | hmem
      · exact absurd hsource (hnone source hmem)
      · exact absurd (hempty source hmem) hfilled
  | source h => exact .source h
  | empty h => exact absurd (h source hmem) hfilled

/-- A label is a segment, or the name of the source directory, or empty, and none of these holds a
separator. -/
theorem separator_not_mem_rootLabel (root : Text) : '/' ∉ rootLabel root := by
  have hlabel := rootLabel_eq_iff.1 (rfl : rootLabel root = rootLabel root)
  generalize hsegments : root.segments '/' = segments at hlabel
  generalize rootLabel root = label at hlabel ⊢
  cases hlabel with
  | project h => exact fun hmem => (Text.mem_of_mem_segments (hsegments ▸ h.mem) hmem).2 rfl
  | source h => decide
  | empty h => exact List.not_mem_nil

/-- **The label of a root.**

1. The label is read off the segments of the root by the rules.
2. It holds no separator.
3. Separators at the end do not matter.
4. What is below the first segment that starts with `src` does not matter.
5. Directories above the root do not matter, as long as none of them starts with `src` and the label
   is the name of a segment. -/
theorem rootLabel_determined (root : Text) :
    (∀ label, rootLabel root = label ↔ IsLabel (root.segments '/') label) ∧
    '/' ∉ rootLabel root ∧
    (∀ n, rootLabel (root ++ List.replicate n '/') = rootLabel root) ∧
    ((∃ segment ∈ root.segments '/', IsSource segment) →
      ∀ path, rootLabel (root ++ '/' :: path) = rootLabel root) ∧
    ∀ above : Text, (∀ segment ∈ above.segments '/', ¬ IsSource segment) →
      IsProject (root.segments '/') (rootLabel root) →
      rootLabel (above ++ '/' :: root) = rootLabel root := by
  have hlabel := rootLabel_eq_iff.1 (rfl : rootLabel root = rootLabel root)
  refine ⟨fun label => rootLabel_eq_iff, separator_not_mem_rootLabel root, fun n => ?_,
    fun hsource path => ?_, fun above habove hproject => ?_⟩
  · -- Separators at the end add empty segments.
    refine rootLabel_eq_iff.2 ?_
    rw [Text.segments_append_replicate]
    exact hlabel.append_empty fun _ => List.eq_of_mem_replicate
  · refine rootLabel_eq_iff.2 ?_
    rw [Text.segments_append]
    exact hlabel.append hsource _
  · refine rootLabel_eq_iff.2 ?_
    rw [Text.segments_append]
    exact .project (hproject.prepend habove)

-- The first such segment counts, and a segment may be empty.
example : rootLabel "/srcgen/main/src/".toList = [] := by decide

end ImportCensus

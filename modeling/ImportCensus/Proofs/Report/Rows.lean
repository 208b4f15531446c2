import ImportCensus.Proofs.Report.Csv
import ImportCensus.Proofs.Report.Stats

/-!
# `ImportCensus.Proofs.Report.Rows`: a report holds the whole map

The rows of a report name each usage once, entry by entry. A map whose entries are grouped is known
from its usages in that order: to record them again groups them in the same way. So neither the rows
nor the written report lose anything of the map.

* `map_usage_dataRows`: the usages in the rows below the titles are those of the map.
* `Gathers.entries_eq_of_usages_eq`: a map is known from its usages in order.
* `ofCsv?_toCsv`: the written report leads to these usages again, whatever characters the names and
  the labels hold.
* `rows_lossless`: all maps that come about by recording single usages and by collecting entries.
-/

set_option autoImplicit false

namespace ImportCensus

/-- A row is read back from its fields, since every row has exactly four. -/
theorem ReportRow.ofFields?_fields (row : ReportRow) : ofFields? row.fields = some row := rfl

/-- Rows are read back from their records, as none of these is refused. -/
theorem ReportRow.mapM_ofFields? (rows : List ReportRow) :
    (rows.map fields).mapM ofFields? = some rows := by
  induction rows with
  | nil => rfl
  | cons row rows ih => simp [ofFields?_fields, ih]

namespace UsageMap

/-- The rows of a report below the titles, one for each usage. -/
def dataRows (map : UsageMap) (sourceLabel targetLabel : Text) : List ReportRow :=
  (map.rows sourceLabel targetLabel).drop 1

/-- The map that is read from the text of a report: each record below the titles is one usage. -/
def ofCsv? (text : Text) : Option UsageMap := do
  let records ← Csv.decode? text
  let rows ← (records.drop 1).mapM ReportRow.ofFields?
  return empty.recordAll (rows.map ReportRow.usage)

variable (map : UsageMap) (sourceLabel targetLabel : Text)

/-- A report begins with the titles, also if the map has no usages. -/
theorem rows_eq_cons :
    map.rows sourceLabel targetLabel = .header :: map.dataRows sourceLabel targetLabel := rfl

/-- Below the titles there are as many rows as there are usages. -/
theorem length_dataRows : (map.dataRows sourceLabel targetLabel).length = map.usageCount := by
  rw [dataRows, List.length_drop, length_rows, Nat.add_sub_cancel]

/-- Every row below the titles bears the labels of the two trees. So the labels say nothing about a
single usage, and nothing is lost if they are left out. -/
theorem labels_of_mem_dataRows {row : ReportRow}
    (h : row ∈ map.dataRows sourceLabel targetLabel) :
    row.sourceRoot = sourceLabel ∧ row.targetRoot = targetLabel := by
  obtain ⟨usage, -, rfl⟩ := List.mem_map.1 h
  exact ⟨rfl, rfl⟩

/-- The usages in the rows below the titles are those of the map, in the same order and with all
repetitions. -/
theorem map_usage_dataRows :
    (map.dataRows sourceLabel targetLabel).map ReportRow.usage = map.usages := by
  have hback (usage : Usage) : (ReportRow.ofUsage sourceLabel targetLabel usage).usage = usage :=
    rfl
  show (map.usages.map _).map _ = _
  rw [List.map_map]
  conv_rhs => rw [← List.map_id map.usages]
  exact List.map_congr_left fun usage _ => hback usage

/-- The written report leads to the usages of the map, whatever characters the fields hold. Reading
the text gives back the records by `Csv.decode?_of_textForm`, and the records give back the rows. -/
theorem ofCsv?_toCsv :
    ofCsv? (ReportRow.toCsv (map.rows sourceLabel targetLabel)) =
      some (empty.recordAll map.usages) := by
  have hread := Csv.decode?_of_textForm (Csv.textForm_toCsv (map.rows sourceLabel targetLabel))
  unfold ofCsv?
  rw [hread, rows_eq_cons, List.map_cons]
  simp only [Option.bind_eq_bind, Option.bind_some, List.drop_one, List.tail_cons,
    ReportRow.mapM_ofFields?, map_usage_dataRows]
  rfl

section

variable {map other : UsageMap} {history otherHistory : List Usage} (h : Gathers map history)

include h in
/-- The entries of a map are its usages, grouped by their dependencies. This needs that no
dependency has two entries and that none is without consumers, as for every map with a history. -/
theorem Gathers.grouped_usages : grouped map.usages = map.entries :=
  grouped_usagesOf h.nodup_keys h.consumers_ne_nil

include h in
/-- A map is known from its usages in order, since the entries are what grouping makes of them. -/
theorem Gathers.entries_eq_of_usages_eq (hother : Gathers other otherHistory)
    (husages : map.usages = other.usages) : map.entries = other.entries := by
  rw [← h.grouped_usages, husages, hother.grouped_usages]

end

/-- **The rows of a report lose nothing.** For a map that came about in whichever way, and for any
labels of the two trees:

1. below the titles there is one row for each usage, with the two labels, and to record the usages
   in these rows one after the other leads to an equal map, places included;
2. maps with the same rows are equal, also if the rows were made with other labels;
3. the map is read back from the text of the report, with the order of its dependencies, the order
   of their consumers, and all repetitions. -/
theorem rows_lossless (steps : List Step) (sourceLabel targetLabel : Text) :
    (∃ data, (run steps).rows sourceLabel targetLabel = .header :: data ∧
      data.length = (run steps).usageCount ∧
      (∀ row ∈ data, row.sourceRoot = sourceLabel ∧ row.targetRoot = targetLabel) ∧
      (empty.recordAll (data.map ReportRow.usage) == run steps) = true) ∧
    (∀ others otherSource otherTarget,
      (run steps).rows sourceLabel targetLabel = (run others).rows otherSource otherTarget →
      (run steps == run others) = true) ∧
    ∃ map, ofCsv? (ReportRow.toCsv ((run steps).rows sourceLabel targetLabel)) = some map ∧
      (map == run steps) = true ∧ map.entries = (run steps).entries := by
  have h := gathers_run steps
  -- To record the usages of a map is to collect its entries.
  have hback : (empty.recordAll (run steps).usages == run steps) = true := h.ofEntries_entries
  have hentries := (gathers_recordAll (run steps).usages).entries_eq.trans h.grouped_usages
  refine ⟨⟨_, rows_eq_cons _ _ _, length_dataRows _ _ _,
      fun row hrow => labels_of_mem_dataRows _ _ _ hrow, ?_⟩,
    fun others otherSource otherTarget hrows => ?_,
    ⟨_, ofCsv?_toCsv _ _ _, hback, hentries⟩⟩
  · rw [map_usage_dataRows]
    exact hback
  · have husages := congrArg (fun rows => (rows.drop 1).map ReportRow.usage) hrows
    have hsame : (run steps).usages = (run others).usages := by
      rw [← map_usage_dataRows _ sourceLabel targetLabel,
        ← map_usage_dataRows _ otherSource otherTarget]
      exact husages
    have hother := gathers_run others
    exact (h.beq_iff hother).2 (h.entries_eq_of_usages_eq hother hsame)

end UsageMap

end ImportCensus

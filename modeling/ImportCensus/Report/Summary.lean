import ImportCensus.Decimal
import ImportCensus.Report.Stats
import ImportCensus.Report.Style

/-!
# `ImportCensus.Report.Summary`: what a run prints

After a run its numbers are printed: the two trees, how many classes there are and how many are
used, the most used classes, and where the report was written.
-/

set_option autoImplicit false

namespace ImportCensus

/-- What a summary shows. -/
structure Summary where
  sourceLabel : Text
  targetLabel : Text
  stats : UsageStats
  mostUsed : List (Text × Nat)
  /-- The path of the report, if one was written. -/
  output : Option Text

namespace Summary

/-- How many most used classes are listed unless another number is asked for. -/
def defaultLimit : Nat := 10

/-- The summary for two labelled trees. -/
def compute (sourceLabel targetLabel : Text) (limit : Nat) (output : Option Text)
    (classes : ClassSet) (usages : UsageMap) : Summary :=
  ⟨sourceLabel, targetLabel, .compute classes usages, usages.mostUsed limit, output⟩

/-- The lines about the most used classes. -/
def mostUsedLines (colored : Bool) : List (Text × Nat) → List Text
  | [] => []
  | counts =>
    [[], "  ".toList ++ Style.heading.paint colored "Most used classes".toList,
      "  ".toList ++ List.replicate 30 '─']
    ++ counts.map fun (name, count) =>
      "  ".toList ++ Style.strong.paint colored ((Text.ofNat count).padLeft 5) ++ "  ".toList
        ++ Style.strong.paint colored name

/-- The lines about the report. -/
def outputLines (colored : Bool) : Option Text → List Text
  | none => []
  | some path => [[], "  Report written to ".toList ++ Style.path.paint colored path]

/-- The lines of a summary. -/
def lines (summary : Summary) (colored : Bool) : List Text :=
  let count (n : Nat) : Text := Style.strong.paint colored (Text.ofNat n)
  [[], Style.title.paint colored "CodeFinder Usage Summary".toList,
    List.replicate 50 '━',
    "  ".toList ++ Style.label.paint colored summary.sourceLabel ++ ' ' ::
      Style.secondary.paint colored ['→'] ++ ' ' ::
      Style.label.paint colored summary.targetLabel ++ ' ' ::
      Style.secondary.paint colored "(source → target)".toList,
    [],
    "  Possible dependencies: ".toList ++ count summary.stats.classes,
    "  Classes used:          ".toList ++ count summary.stats.usedClasses ++ " (".toList
      ++ Decimal.ofFloat summary.stats.coverage ++ "%)".toList,
    "  Total usages:          ".toList ++ count summary.stats.usages]
  ++ mostUsedLines colored summary.mostUsed
  ++ outputLines colored summary.output
  ++ [[]]

/-- The text of a summary. -/
def render (summary : Summary) (colored : Bool) : Text :=
  (summary.lines colored).flatMap (· ++ ['\n'])

end Summary

end ImportCensus

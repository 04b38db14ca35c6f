import PropertyIndex.Batch.Report
import PropertyIndex.Json.Printer

/-!
# The texts of a report

* `Report.toPlainText`: for reading in a terminal.
* `Report.toJsonText`: as JSON, with the keys of each object in alphabetical order.
* `Report.toMarkdown`: as a Markdown document.
-/

namespace PropertyIndex.Report

/-! ## Plain text -/

/-- A processed pair in plain text. -/
def plainIndexed (summary : Summary) : String :=
  summary.name ++ "\n  ✅ Status: INDEXED\n    Records: " ++ toString summary.records ++ " (" ++
    toString summary.properties ++ " properties, " ++ toString summary.embeddable ++
    " embeddable)\n    Output: " ++ summary.output ++ "\n\n"

/-- A failed pair in plain text. -/
def plainFailed (rejected : Rejected) : String :=
  rejected.name ++ "\n  ❌ Status: FAILED\n    Reason: " ++ rejected.error ++ "\n\n"

/-- An unpaired name in plain text. -/
def plainUnpaired (unpaired : Unpaired) : String :=
  unpaired.name ++ "\n  ⚠️  Status: SKIPPED (missing " ++ unpaired.missing ++ ")\n\n"

/-- A report in plain text. -/
def toPlainText (report : Report) : String :=
  "Running CVL index batch...\n\n" ++ String.join (report.indexed.map plainIndexed) ++
    String.join (report.failed.map plainFailed) ++
    String.join (report.unpaired.map plainUnpaired) ++
    "batch result: " ++ (if report.failed.isEmpty then "ok" else "FAILED") ++ ". " ++
    toString report.indexed.length ++ " indexed; " ++ toString report.failed.length ++
    " failed; " ++ toString report.unpaired.length ++ " unpaired\n  Records written: " ++
    toString report.totalRecords ++ "\n"

/-! ## JSON -/

/-- A processed pair as a value. -/
def indexedToJson (summary : Summary) : Json :=
  .record
    [("embeddable", .natural summary.embeddable), ("name", .text summary.name),
     ("output", .text summary.output), ("properties", .natural summary.properties),
     ("records", .natural summary.records)]

/-- A failed pair as a value. -/
def failedToJson (rejected : Rejected) : Json :=
  .record [("error", .text rejected.error), ("name", .text rejected.name)]

/-- An unpaired name as a value. -/
def unpairedToJson (unpaired : Unpaired) : Json :=
  .record [("missing", .text unpaired.missing), ("name", .text unpaired.name)]

/-- A report as a value. -/
def toJson (report : Report) : Json :=
  .record
    [("failed", .array (report.failed.map failedToJson)),
     ("indexed", .array (report.indexed.map indexedToJson)),
     ("summary", .record
       [("failed", .natural report.failed.length), ("indexed", .natural report.indexed.length),
        ("records", .natural report.totalRecords),
        ("unpaired", .natural report.unpaired.length)]),
     ("unpaired", .array (report.unpaired.map unpairedToJson))]

/-- A report as the text of a value. -/
def toJsonText (report : Report) : String :=
  String.ofList report.toJson.pretty ++ "\n"

/-! ## Markdown -/

/-- A section with a heading, left out when nothing is in it. -/
def titled (heading : String) (lines : List String) : String :=
  if lines.isEmpty then "" else heading ++ String.join lines ++ "\n"

/-- A processed pair as a row of a table. -/
def rowOf (summary : Summary) : String :=
  "| " ++ summary.name ++ " | " ++ toString summary.records ++ " | " ++
    toString summary.properties ++ " | " ++ toString summary.embeddable ++ " | `" ++
    summary.output ++ "` |\n"

/-- A report as a Markdown document. -/
def toMarkdown (report : Report) : String :=
  "# CVL Index Batch Report\n\n## Summary\n\n- **Indexed**: " ++
    toString report.indexed.length ++ "\n- **Failed**: " ++ toString report.failed.length ++
    "\n- **Unpaired**: " ++ toString report.unpaired.length ++ "\n- **Records**: " ++
    toString report.totalRecords ++ "\n\n" ++
    titled ("## Indexed Pairs\n\n| Pair | Records | Properties | Embeddable | Output |\n" ++
      "|------|---------|------------|------------|--------|\n") (report.indexed.map rowOf) ++
    titled "## Failed Pairs\n\n" (report.failed.map fun rejected =>
      "- ❌ **" ++ rejected.name ++ "**: " ++ rejected.error ++ "\n") ++
    titled "## Unpaired Files\n\n" (report.unpaired.map fun unpaired =>
      "- ⚠️ **" ++ unpaired.name ++ "**: missing `" ++ unpaired.missing ++ "`\n")

end PropertyIndex.Report

import ThreatGossip.Settings.Report
/-!
The command line. A node without a given name is called by a number drawn at random.
-/

def main (args : List String) : IO UInt32 := do
  let environmentId ← IO.getEnv "NODE_ID"
  let number ← IO.rand 1 4194304
  let report := ThreatGossip.Settings.Report.ofArguments args environmentId
    ("node-" ++ toString number)
  for line in report.lines do
    IO.println line
  return report.code

/-!
A template to start from.
-/

namespace BehaviourTree.Command

/-- The lines of the starter template. -/
def starterLines : List String := [
  "# Arbor behaviour tree template",
  "#",
  "# Leaf kinds available to the CLI: Succeed, Fail, Wait, Toggle, Report.",
  "nodes:",
  "  - guid: \"6f1c1a52-0000-4000-8000-000000000001\"",
  "    kind: Root",
  "    children: [\"6f1c1a52-0000-4000-8000-000000000002\"]",
  "  - guid: \"6f1c1a52-0000-4000-8000-000000000002\"",
  "    kind: Selector",
  "    name: patrol or rest",
  "    children:",
  "      - \"6f1c1a52-0000-4000-8000-000000000003\"",
  "      - \"6f1c1a52-0000-4000-8000-000000000006\"",
  "  - guid: \"6f1c1a52-0000-4000-8000-000000000003\"",
  "    kind: Sequence",
  "    name: patrol",
  "    children:",
  "      - \"6f1c1a52-0000-4000-8000-000000000004\"",
  "      - \"6f1c1a52-0000-4000-8000-000000000005\"",
  "  - guid: \"6f1c1a52-0000-4000-8000-000000000004\"",
  "    kind: Toggle",
  "    name: on duty",
  "    always_check: true",
  "  - guid: \"6f1c1a52-0000-4000-8000-000000000005\"",
  "    kind: Report",
  "  - guid: \"6f1c1a52-0000-4000-8000-000000000006\"",
  "    kind: Wait",
  "    name: rest"]

/-- The starter template, every line with its break. -/
def starterTemplate : String := String.join (starterLines.map (· ++ "\n"))

end BehaviourTree.Command

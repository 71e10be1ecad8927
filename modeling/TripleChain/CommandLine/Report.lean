import TripleChain.Plan
import TripleChain.Settings.Choice
/-!
# Reports

What the commands print: the answers to a goal, and what each rule has made of a premise.
-/

namespace TripleChain.CommandLine

/-- The answers, a line for each or as JSON. -/
def answersReport (format : OutputFormat) (s : BindingSet) : String :=
  match format with
  | .text => BindingSet.text s
  | .json => (BindingSet.toJson s).pretty ++ "\n"

/-- What the rules of a plan have given, the start rule apart, by the names of the rules. Of two rules with
one name the later counts. -/
def derived (p : Plan) : SortedMap String BindingSet :=
  .ofList <| p.nodeIds.filterMap fun id => do
    let n ← p.graph.node? id
    let output := (p.progressOf id).output
    if id = Plan.start || output.isEmpty then none else some (n.rule.displayName, output)

/-- What the rules of a plan have given, as text under the names of the rules or as JSON. -/
def derivedReport (format : OutputFormat) (p : Plan) : String :=
  let entries := (derived p).entries
  match format with
  | .text => String.join (entries.map fun (name, s) => "# " ++ name ++ "\n" ++ BindingSet.text s)
  | .json => (Json.object (entries.map fun (name, s) => (name, BindingSet.toJson s))).pretty ++ "\n"

/-- The profiles, a line for each with the words on it in a column of their own. -/
def profilesReport (profiles : List (String × String)) : String :=
  let padded (name : String) := name ++ String.ofList (List.replicate (12 - name.length) ' ')
  String.join (profiles.map fun (name, description) => padded name ++ " " ++ description ++ "\n")

end TripleChain.CommandLine

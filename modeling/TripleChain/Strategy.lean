import TripleChain.Text.Casing
/-!
# Match strategies

Which of the consistent ways to line up two patterns are used.
-/

namespace TripleChain

/-- Which matches of two patterns are wanted. -/
inductive Strategy where
  /-- Every consistent match. -/
  | all
  /-- The matches that are part of no larger one. -/
  | biggest
  /-- The matches that cover every triple of the first pattern. -/
  | full
  deriving DecidableEq, Inhabited

namespace Strategy

/-- The short name. -/
def name : Strategy → String
  | all => "all"
  | biggest => "biggest"
  | full => "full"

/-- The long name. -/
def title : Strategy → String
  | all => "FindAllMatches"
  | biggest => "FindOnlyBiggestMatches"
  | full => "FindOnlyFullMatches"

/-- The strategy of a short name or of a long name in words, in any case. -/
def ofName? (s : String) : Option Strategy :=
  match Text.lowercase s with
  | "all" | "find_all_matches" => some all
  | "biggest" | "find_only_biggest_matches" => some biggest
  | "full" | "find_only_full_matches" => some full
  | _ => none

end Strategy

end TripleChain

import TripleChain.Match
import TripleChain.Strategy
/-!
# Searching for matches

`findMatches` finds the consistent ways to line up two patterns. It takes the triples of the first pattern
one by one, each with its candidates, the single pairs with the triples of the second. Two lists are
kept: matches that no later candidate has enlarged yet, and matches that are part of others. Every
consistent merge with a candidate goes to one of them.
-/

namespace TripleChain

/-- The matches found so far. -/
structure Found where
  /-- Those not known to be part of others. -/
  biggest : List Match
  /-- Those that are part of others. -/
  smaller : List Match

namespace Found

/-- The matches that a triple adds, and whether its present candidate has been merged with any. -/
structure Round where
  merged : Bool
  toBiggest : List Match
  toSmaller : List Match

/-- Merges a candidate with one of the smaller matches. The result is a big one if it is the first
merge of the candidate, or if the smaller match is part of no big one of this round. -/
def Round.enlarge (candidate : Match) (r : Round) (m : Match) : Round :=
  match m.merge? candidate with
  | none => r
  | some merge =>
    -- What is already part of a big match does not make another.
    if r.merged && r.toBiggest.any m.isSubMatch then { r with toSmaller := r.toSmaller ++ [merge] }
    else { r with merged := true, toBiggest := r.toBiggest ++ [merge] }

/-- Merges a candidate with all matches found before its round. When only full matches are wanted, the
smaller ones are not merged, and a candidate without a merge is small. -/
def Round.add (fullOnly : Bool) (found : Found) (r : Round) (candidate : Match) : Round :=
  let merges := found.biggest.filterMap (·.merge? candidate)
  let r := { r with merged := !merges.isEmpty, toBiggest := r.toBiggest ++ merges }
  let r := if fullOnly then r else found.smaller.foldl (enlarge candidate) r
  if !r.merged && !fullOnly then { r with toBiggest := r.toBiggest ++ [candidate] }
  else { r with toSmaller := r.toSmaller ++ [candidate] }

/-- Adds the candidates of one more triple. What they enlarge becomes small, and so does everything
before when only full matches are wanted. -/
def step (fullOnly : Bool) (found : Found) (candidates : List Match) : Found :=
  let round := candidates.foldl (Round.add fullOnly found) ⟨false, [], []⟩
  let enlarged (m : Match) := candidates.any fun c => fullOnly || (m.merge? c).isSome
  { biggest := found.biggest.filter (!enlarged ·) ++ round.toBiggest
    smaller := found.smaller ++ (found.biggest.filter enlarged).reverse ++ round.toSmaller }

end Found

def candidates (t : Triple) (q : Pattern) : List Match := q.toList.filterMap (Match.between? t)

/-- The matches from pattern `p` to pattern `q` that a strategy wants. -/
def findMatches (p q : Pattern) (strategy : Strategy) : MatchSet :=
  let fullOnly := strategy == .full
  let rounds := p.toList.map (candidates · q)
  if fullOnly && rounds.any List.isEmpty then ∅
  else
    match rounds.filter (!·.isEmpty) with
    | [] => ∅
    | first :: rest =>
      let found := rest.foldl (Found.step fullOnly) ⟨first, []⟩
      let biggest := SortedSet.ofList found.biggest
      if strategy == .all then biggest.insertAll found.smaller else biggest

end TripleChain

import TripleChain.Main
import TripleChain.Proofs.ForwardReach
import TripleChain.Proofs.Scheduling
import TripleChain.Proofs.Strategies
import TripleChain.Proofs.WellFormed
import TripleChain.Proofs.ExactCarry
import TripleChain.Proofs.ExactMatches
import TripleChain.Proofs.Groundness
import TripleChain.Proofs.NodeJoin
import TripleChain.Proofs.BiggestMatches
import TripleChain.Proofs.Dispatch
import TripleChain.Proofs.Verdict
import TripleChain.Proofs.Reuse
import TripleChain.Proofs.Publishing
import TripleChain.Proofs.Reordering
import TripleChain.Proofs.NeighborSymmetry
import TripleChain.Proofs.TermText
import TripleChain.Proofs.Assertions
import TripleChain.Proofs.SiteInvariant
import TripleChain.Proofs.Renumbering
import TripleChain.Proofs.Isolation
import TripleChain.Proofs.Layout
import TripleChain.Proofs.PatternText
import TripleChain.Proofs.BindingText
import TripleChain.Proofs.Places
import TripleChain.Proofs.ReadingSafety
import TripleChain.Proofs.RuleFiles
import TripleChain.Proofs.RuleLines
import TripleChain.Proofs.MatchAlgebra
import TripleChain.Proofs.KnowledgeGaps
import TripleChain.Proofs.LeastDemand
import TripleChain.Proofs.SubMatches
import TripleChain.Proofs.IdentityMatch
import TripleChain.Proofs.PartialBindings
import TripleChain.Proofs.FullBindings
import TripleChain.Proofs.CanonicalJson
import TripleChain.Proofs.DerivedReports
import TripleChain.Proofs.NaturalJoin
import TripleChain.Proofs.TableLookup
import TripleChain.Proofs.TableText
import TripleChain.Proofs.PrefixNames
import TripleChain.Proofs.RuleStarts

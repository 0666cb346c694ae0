import GuardedAutomata.Automaton.Reach
import GuardedAutomata.Grammar.Reachable
import GuardedAutomata.Grammar.Spans
import GuardedAutomata.Main
import GuardedAutomata.Pattern.Spans
import GuardedAutomata.Proofs.ActiveStates
import GuardedAutomata.Proofs.Building
import GuardedAutomata.Proofs.Compilation
import GuardedAutomata.Proofs.Emission
import GuardedAutomata.Proofs.Operations
import GuardedAutomata.Proofs.Fragments
import GuardedAutomata.Proofs.Lockstep
import GuardedAutomata.Proofs.Lowering
import GuardedAutomata.Proofs.MacroMoves
import GuardedAutomata.Proofs.MaskTracking
import GuardedAutomata.Proofs.Matching
import GuardedAutomata.Proofs.RangeSets
import GuardedAutomata.Proofs.RankTracking
import GuardedAutomata.Proofs.Tracking
import GuardedAutomata.Proofs.Unfolding
import GuardedAutomata.Proofs.CycleCheck
import GuardedAutomata.Proofs.Refusals
import GuardedAutomata.Proofs.Search
import GuardedAutomata.Proofs.TreeFragments
import GuardedAutomata.Proofs.Allocation
import GuardedAutomata.Proofs.SizeLimit
import GuardedAutomata.Proofs.Sessions
import GuardedAutomata.Proofs.Renaming
import GuardedAutomata.Proofs.UnboundSlots
import GuardedAutomata.Proofs.Discipline
import GuardedAutomata.Proofs.ExactEstimate
import GuardedAutomata.Proofs.Mirror
import GuardedAutomata.Proofs.Surrogates
import GuardedAutomata.Proofs.LoweredTrees
import GuardedAutomata.Proofs.SlotChains
import GuardedAutomata.Proofs.Templates
import GuardedAutomata.Proofs.LineAssertions
import GuardedAutomata.Proofs.WordAssertions
import GuardedAutomata.Proofs.SplitLiterals
import GuardedAutomata.Proofs.EarlyExit
import GuardedAutomata.Proofs.SlotNumbering
import GuardedAutomata.Proofs.CanonicalRanges
import GuardedAutomata.Proofs.RankClosure
import GuardedAutomata.Proofs.MaskClosure

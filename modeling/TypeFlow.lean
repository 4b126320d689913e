import TypeFlow.Archive.Describe
import TypeFlow.Graph.Describe
import TypeFlow.Main
import TypeFlow.Proofs.AssignmentFlow
import TypeFlow.Proofs.Backward
import TypeFlow.Proofs.RoundTrip
import TypeFlow.Proofs.ReachingDefinitions
import TypeFlow.Proofs.Bracketing
import TypeFlow.Proofs.Inputs
import TypeFlow.Proofs.Symmetry
import TypeFlow.Proofs.NextVariables
import TypeFlow.Proofs.DefinitionPaths
import TypeFlow.Proofs.SearchDepth
import TypeFlow.Proofs.RepositoryGraphs
import TypeFlow.Proofs.ReportedSlots
import TypeFlow.Proofs.Reloading
import TypeFlow.Proofs.NestedNames
import TypeFlow.Proofs.NormalForm
import TypeFlow.Proofs.DeadNodes
import TypeFlow.Proofs.SetComparison
import TypeFlow.Proofs.Conversions
import TypeFlow.Proofs.Classification
import TypeFlow.Proofs.Counting
import TypeFlow.Proofs.Cleaning

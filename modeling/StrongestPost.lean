import StrongestPost.Calculus.Event
import StrongestPost.Calculus.Report
import StrongestPost.Node.Basic
import StrongestPost.Proofs.Execution
import StrongestPost.Proofs.Derivation
import StrongestPost.Proofs.FreshNames
import StrongestPost.Proofs.Hygiene
import StrongestPost.Proofs.Soundness
import StrongestPost.Proofs.Exactness
import StrongestPost.Proofs.FirstFailure
import StrongestPost.Proofs.Grouping
import StrongestPost.Proofs.GuardRules
import StrongestPost.Proofs.NameMaps
import StrongestPost.Proofs.Renaming
import StrongestPost.Proofs.PassThrough
import StrongestPost.Proofs.EntryValues
import StrongestPost.Proofs.JsonLayout
import StrongestPost.Proofs.JsonValues
import StrongestPost.Proofs.Presentation
import StrongestPost.Proofs.DoubledMembers
import StrongestPost.Proofs.RoundTrip
import StrongestPost.Proofs.LoopRule
import StrongestPost.Proofs.Remarks
import StrongestPost.Proofs.TransformerLaws
import StrongestPost.Proofs.Evaluation
import StrongestPost.Proofs.Boxes
import StrongestPost.Proofs.BoundedSearch
import StrongestPost.Proofs.WellSorted
import StrongestPost.Proofs.RenamedEvaluation
import StrongestPost.Proofs.Allocation
import StrongestPost.Proofs.Branches
import StrongestPost.Proofs.Unambiguous
import StrongestPost.Proofs.Legibility

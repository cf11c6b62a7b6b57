import BehaviourTree.Command.Outcome
import BehaviourTree.Main
import BehaviourTree.Proofs.Ticking
import BehaviourTree.Proofs.Updating
import BehaviourTree.Proofs.Profile
import BehaviourTree.Proofs.Mirror
import BehaviourTree.Proofs.Arena
import BehaviourTree.Proofs.TickSafety
import BehaviourTree.Proofs.NestedTick
import BehaviourTree.Proofs.Links
import BehaviourTree.Proofs.NestedRefinement
import BehaviourTree.Proofs.Sorting
import BehaviourTree.Proofs.Forest
import BehaviourTree.Proofs.Session
import BehaviourTree.Proofs.Edits
import BehaviourTree.Proofs.TemplateForest
import BehaviourTree.Proofs.InstanceForest
import BehaviourTree.Proofs.Effects
import BehaviourTree.Proofs.Structure
import BehaviourTree.Proofs.NodeRuns
import BehaviourTree.Proofs.Lifecycle
import BehaviourTree.Proofs.Lockstep
import BehaviourTree.Proofs.Twins
import BehaviourTree.Proofs.TwinTicks
import BehaviourTree.Proofs.TwinRuns
import BehaviourTree.Proofs.InstanceRuns
import BehaviourTree.Proofs.TemplateForm
import BehaviourTree.Proofs.Origins
import BehaviourTree.Proofs.Reload
import BehaviourTree.Proofs.ReloadRuns
import BehaviourTree.Proofs.WrittenBack
import BehaviourTree.Proofs.InstanceForm
import BehaviourTree.Proofs.NumberOrder
import BehaviourTree.Proofs.TeamBoards
import BehaviourTree.Proofs.TickEvents
import BehaviourTree.Proofs.Hearing
import BehaviourTree.Proofs.Observers
import BehaviourTree.Proofs.Attaching
import BehaviourTree.Proofs.Ownership
import BehaviourTree.Proofs.Dangling
import BehaviourTree.Proofs.Beginnings
import BehaviourTree.Proofs.GuardHistory
import BehaviourTree.Proofs.TypedMap
import BehaviourTree.Proofs.UuidText
import BehaviourTree.Proofs.Shown
import BehaviourTree.Proofs.Folders
import BehaviourTree.Proofs.SavedTemplates
import BehaviourTree.Proofs.WithinReach
import BehaviourTree.Proofs.Population
import BehaviourTree.Proofs.Visits
import BehaviourTree.Proofs.VisitPhases
import BehaviourTree.Proofs.SeriesTurns
import BehaviourTree.Proofs.SequenceRuns
import BehaviourTree.Proofs.RandomChoices
import BehaviourTree.Proofs.Ways
import BehaviourTree.Proofs.ParallelScans
import BehaviourTree.Proofs.UpdateBound
import BehaviourTree.Proofs.Duality
import BehaviourTree.Proofs.Tallies
import BehaviourTree.Proofs.RootRecords
import BehaviourTree.Proofs.RunReport
import BehaviourTree.Proofs.LocalEdits
import BehaviourTree.Proofs.LegalAttachments
import BehaviourTree.Proofs.TemplateErrors
import BehaviourTree.Proofs.FilteredClock
import BehaviourTree.Proofs.FairShares
import BehaviourTree.Proofs.Preorder
import BehaviourTree.Proofs.ChildOrder
import BehaviourTree.Proofs.Outlines
import BehaviourTree.Proofs.Inspection
import BehaviourTree.Proofs.Stock
import BehaviourTree.Proofs.Waits
import BehaviourTree.Proofs.Toggles
import BehaviourTree.Proofs.Streams
import BehaviourTree.Proofs.IndexDraws
import BehaviourTree.Proofs.FullPeriod

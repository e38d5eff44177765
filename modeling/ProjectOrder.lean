import ProjectOrder.Proofs.BlankNames
import ProjectOrder.Proofs.ByteLines
import ProjectOrder.Proofs.CanonicalForm
import ProjectOrder.Proofs.CheckedRuns
import ProjectOrder.Proofs.Clauses
import ProjectOrder.Proofs.CommentedRecords
import ProjectOrder.Proofs.Composition
import ProjectOrder.Proofs.Conservation
import ProjectOrder.Proofs.Discovery
import ProjectOrder.Proofs.LineEndings
import ProjectOrder.Proofs.LinkOrder
import ProjectOrder.Proofs.MergedSettings
import ProjectOrder.Proofs.NumberedNames
import ProjectOrder.Proofs.Placement
import ProjectOrder.Proofs.RecordNames
import ProjectOrder.Proofs.RegionLines
import ProjectOrder.Proofs.ScalarOrder
import ProjectOrder.Proofs.SectionMarkers
import ProjectOrder.Proofs.Sessions

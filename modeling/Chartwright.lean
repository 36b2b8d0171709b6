import Chartwright.Api.Steps
import Chartwright.Proofs.Edit.DuplicateNode
import Chartwright.Proofs.Edit.Untargeted
import Chartwright.Proofs.Line.Groups
import Chartwright.Proofs.Session.Edit
import Chartwright.Proofs.Session.UndoStep
import Chartwright.Proofs.Session.Presence
import Chartwright.Proofs.Edit.KeptDeclarations
import Chartwright.Proofs.Edit.WithoutNode
import Chartwright.Proofs.Line.StyleRoundTrip
import Chartwright.Proofs.Buffer.EdgeEnds
import Chartwright.Proofs.Buffer.Matching
import Chartwright.Proofs.Buffer.Nesting
import Chartwright.Proofs.Edit.RelabelNode
import Chartwright.Proofs.Session.Allocation
import Chartwright.Proofs.Session.SaveLoad
import Chartwright.Proofs.Session.Unsaved
import Chartwright.Proofs.Session.Untouched
import Chartwright.Proofs.Session.Mirror
import Chartwright.Proofs.Render.Latest
import Chartwright.Proofs.Hub.Rounds
import Chartwright.Proofs.Api.Inputs
import Chartwright.Proofs.Api.Updates
import Chartwright.Proofs.Edit.EditEdge
import Chartwright.Proofs.Api.UndoneUpdates
import Chartwright.Proofs.Session.UndoneStyle
import Chartwright.Proofs.Edit.Restyle
import Chartwright.Proofs.Edit.InsertNode
import Chartwright.Proofs.Edit.JoinGroup
import Chartwright.Proofs.Edit.ReshapeNode
import Chartwright.Proofs.Edit.InsertSubgraph
import Chartwright.Proofs.Edit.RetitleSubgraph
import Chartwright.Proofs.Edit.Regroup
import Chartwright.Proofs.Edit.ChangeDirection
import Chartwright.Proofs.Edit.Connect
import Chartwright.Proofs.Buffer.RevealEdge
import Chartwright.Proofs.Session.SelectedEdge
import Chartwright.Proofs.Edit.Anchor
import Chartwright.Proofs.Buffer.Counting
import Chartwright.Proofs.Buffer.Allotment
import Chartwright.Proofs.Line.SplitLine

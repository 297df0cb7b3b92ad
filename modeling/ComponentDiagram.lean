import ComponentDiagram.Main
import ComponentDiagram.Model.NodeIndex
import ComponentDiagram.Numeric.Expansion
import ComponentDiagram.Proofs.Build.Interference
import ComponentDiagram.Proofs.Build.Outline
import ComponentDiagram.Proofs.Build.PortTable
import ComponentDiagram.Proofs.Command.Safety
import ComponentDiagram.Proofs.Grammar.DepthLimit
import ComponentDiagram.Proofs.Grammar.Overflow
import ComponentDiagram.Proofs.Grammar.Pointing
import ComponentDiagram.Proofs.Grammar.Spacing
import ComponentDiagram.Proofs.Grammar.WellFormed
import ComponentDiagram.Proofs.Grammar.Wrapping
import ComponentDiagram.Proofs.Layout.Descending
import ComponentDiagram.Proofs.Layout.Dropping
import ComponentDiagram.Proofs.Layout.Rigidity
import ComponentDiagram.Proofs.Layout.Standoff
import ComponentDiagram.Proofs.Manifest.Settings
import ComponentDiagram.Proofs.Print.Formatting
import ComponentDiagram.Proofs.Print.Rewriting
import ComponentDiagram.Proofs.Print.Settling
import ComponentDiagram.Proofs.Print.Symbols
import ComponentDiagram.Proofs.Source.LineFeed
import ComponentDiagram.Source.Cursor
import ComponentDiagram.Proofs.Model.Lookup
import ComponentDiagram.Proofs.Grammar.Progress
import ComponentDiagram.Proofs.Grammar.Termination

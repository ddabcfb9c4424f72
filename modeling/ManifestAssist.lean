import ManifestAssist.Editor.Session
import ManifestAssist.Proofs.Canonical.Recovery
import ManifestAssist.Proofs.Outline.Innermost
import ManifestAssist.Proofs.Navigation.Growth
import ManifestAssist.Proofs.Navigation.Lenses
import ManifestAssist.Proofs.Navigation.Reach
import ManifestAssist.Proofs.Navigation.Slices
import ManifestAssist.Proofs.Completion.Cards
import ManifestAssist.Proofs.Completion.Locality
import ManifestAssist.Proofs.Completion.Patterns
import ManifestAssist.Proofs.Completion.Preferred
import ManifestAssist.Proofs.Completion.Prometheus.Dimensions
import ManifestAssist.Proofs.Completion.Rules
import ManifestAssist.Proofs.Completion.Score
import ManifestAssist.Proofs.Completion.Selector.Operators
import ManifestAssist.Proofs.Completion.Selector.Relationships
import ManifestAssist.Proofs.Completion.Typing
import ManifestAssist.Proofs.Editor.History
import ManifestAssist.Proofs.Editor.Offset
import ManifestAssist.Proofs.Editor.View
import ManifestAssist.Proofs.Metrics.Gathering
import ManifestAssist.Proofs.Metrics.Nameless
import ManifestAssist.Proofs.Metrics.Samples
import ManifestAssist.Proofs.Metrics.Series
import ManifestAssist.Proofs.Outline.Content
import ManifestAssist.Proofs.Outline.Insertion
import ManifestAssist.Proofs.Outline.Keys
import ManifestAssist.Proofs.Outline.LineEnding
import ManifestAssist.Proofs.Outline.Tiling
import ManifestAssist.Proofs.Text.Position
import ManifestAssist.Proofs.Text.Undo
import ManifestAssist.Proofs.Completion.Settings
import ManifestAssist.Proofs.Editor.Context

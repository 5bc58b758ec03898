import ProviderBindings.Main
import ProviderBindings.Tool.Reading
import ProviderBindings.Proofs.Availability
import ProviderBindings.Proofs.Checking
import ProviderBindings.Proofs.ClassNames
import ProviderBindings.Proofs.Collisions
import ProviderBindings.Proofs.Containment
import ProviderBindings.Proofs.Editing
import ProviderBindings.Proofs.Emissions
import ProviderBindings.Proofs.Failing
import ProviderBindings.Proofs.Manifests
import ProviderBindings.Proofs.Nesting
import ProviderBindings.Proofs.Outcomes
import ProviderBindings.Proofs.Outlines
import ProviderBindings.Proofs.Packages
import ProviderBindings.Proofs.Receipts
import ProviderBindings.Proofs.Releases
import ProviderBindings.Proofs.Renewal
import ProviderBindings.Proofs.Reordering
import ProviderBindings.Proofs.Replacing
import ProviderBindings.Proofs.SavedTrees
import ProviderBindings.Proofs.Searching
import ProviderBindings.Proofs.Thresholds
import ProviderBindings.Proofs.Tracing

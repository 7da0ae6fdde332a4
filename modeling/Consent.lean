import Consent.Guarantees.Lifecycle
import Consent.Guarantees.Revocation
import Consent.Guarantees.Generations
import Consent.Guarantees.Delivery
import Consent.Guarantees.Binding
import Consent.Guarantees.Inheritance
import Consent.Guarantees.Removal
import Consent.Guarantees.Operations
import Consent.Guarantees.Number
import Consent.Guarantees.RegistryText
import Consent.Guarantees.RegistryRoundTrip
import Consent.Guarantees.Canonical
import Consent.Guarantees.Seeds
import Consent.Guarantees.Spool
import Consent.Guarantees.Capacity
import Consent.Guarantees.Cleanup
import Consent.Guarantees.Compaction
import Consent.Guarantees.Review
import Consent.Guarantees.Pagination
import Consent.Guarantees.Sweep
import Consent.Guarantees.Substitution
import Consent.Guarantees.Bootstrap
import Consent.Guarantees.Receipts
import Consent.Guarantees.Framing
import Consent.Guarantees.Generator

import SynodStore.Deployment
import SynodStore.Laboratory
import SynodStore.Main
import SynodStore.Scenario
import SynodStore.Proofs.Announcement
import SynodStore.Proofs.Authorship
import SynodStore.Proofs.Stability
import SynodStore.Proofs.Lineup
import SynodStore.Proofs.Loss
import SynodStore.Proofs.Learning
import SynodStore.Proofs.Convergence
import SynodStore.Proofs.Groups
import SynodStore.Proofs.Divergence
import SynodStore.Proofs.Direct
import SynodStore.Proofs.Attribution
import SynodStore.Proofs.Succession
import SynodStore.Proofs.Comeback
import SynodStore.Proofs.Conversation
import SynodStore.Proofs.Encoding
import SynodStore.Proofs.Discipline
import SynodStore.Proofs.Provenance
import SynodStore.Proofs.Refinement
import SynodStore.Proofs.Generations
import SynodStore.Proofs.Preemption
import SynodStore.Proofs.Tolerance
import SynodStore.Proofs.Abandonment
import SynodStore.Proofs.Firmness
import SynodStore.Proofs.Redelivery
import SynodStore.Proofs.Availability
import SynodStore.Proofs.Issuance
import SynodStore.Proofs.Separation
import SynodStore.Proofs.Grammar
import SynodStore.Proofs.Robustness
import SynodStore.Proofs.Defaults
import SynodStore.Proofs.Occupancy
import SynodStore.Proofs.Precedence

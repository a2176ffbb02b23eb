import Seams.Directory
import Seams.Log.Registry
import Seams.Opening
import Seams.Proofs.BindingPlaces
import Seams.Proofs.BlockWalk
import Seams.Proofs.Characters
import Seams.Proofs.FaultListing
import Seams.Proofs.GivenOptions
import Seams.Proofs.Globals
import Seams.Proofs.Interception
import Seams.Proofs.LoggerChains
import Seams.Proofs.NameCalls
import Seams.Proofs.NameSequences
import Seams.Proofs.Outcomes
import Seams.Proofs.Overlap
import Seams.Proofs.Permission
import Seams.Proofs.Redeclarations
import Seams.Proofs.Registrations
import Seams.Proofs.Restoration
import Seams.Proofs.ScopeChanges
import Seams.Proofs.Unnamed
import Seams.Script.Program

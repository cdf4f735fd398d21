import PointerGuard.Program
import PointerGuard.Guard.Operation
import PointerGuard.Proofs.FreeMap.Occupancy
import PointerGuard.Proofs.FreeMap.Refinement
import PointerGuard.Proofs.Lifetimes.Releases
import PointerGuard.Proofs.Lifetimes.Revocation
import PointerGuard.Proofs.Lifetimes.Checks
import PointerGuard.Proofs.Lifetimes.Occupancy
import PointerGuard.Proofs.Guard.InstallPolicies
import PointerGuard.Proofs.Guard.Modes
import PointerGuard.Proofs.ShadowStack.Simulation
import PointerGuard.Proofs.Guard.Dereference
import PointerGuard.Proofs.Guard.Variadics
import PointerGuard.Proofs.Guard.VariadicWalk
import PointerGuard.Proofs.Session.Resize
import PointerGuard.Proofs.Machine.Runs
import PointerGuard.Proofs.Lifetimes.Registrations
import PointerGuard.Proofs.Lifetimes.StackOrder
import PointerGuard.Proofs.Lifetimes.Lookups
import PointerGuard.Proofs.Session.Frees
import PointerGuard.Proofs.Session.Policies
import PointerGuard.Proofs.Session.ReturnSlot
import PointerGuard.Proofs.Trie.Paths
import PointerGuard.Proofs.Guard.Introspection
import PointerGuard.Proofs.Guard.Registration
import PointerGuard.Proofs.Lifetimes.Refusals
import PointerGuard.Proofs.Lifetimes.Relocations
import PointerGuard.Proofs.Proxies.Store
import PointerGuard.Proofs.Trie.FlatMap
import PointerGuard.Proofs.Bounds.Narrowing
import PointerGuard.Proofs.Guard.Bytes
import PointerGuard.Proofs.Guard.WideMetadata
import PointerGuard.Proofs.Guard.Strings
import PointerGuard.Proofs.Trie.Slots
import PointerGuard.Proofs.Trie.Preallocation
import PointerGuard.Proofs.Text.ExitCodes
import PointerGuard.Proofs.Guard.Balance

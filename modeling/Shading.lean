import Shading.Device
import Shading.Resource
import Shading.Program.Build
import Shading.Execution.Machine
import Shading.Proofs.Carried
import Shading.Proofs.Restart
import Shading.Proofs.Structured
import Shading.Proofs.Wrapping
import Shading.Proofs.Budget
import Shading.Proofs.Caches
import Shading.Proofs.Schedule
import Shading.Proofs.Isolation
import Shading.Proofs.Writes
import Shading.Proofs.Invalid
import Shading.Proofs.Admission
import Shading.Proofs.Uniforms
import Shading.Proofs.Endings
import Shading.Proofs.Colors
import Shading.Proofs.Jumps
import Shading.Proofs.Validity
import Shading.Proofs.Threads
import Shading.Proofs.Snapshots
import Shading.Proofs.Reference
import Shading.Proofs.Sealing
import Shading.Proofs.Lanes
import Shading.Proofs.Swizzles
import Shading.Proofs.Targets
import Shading.Proofs.Unreadable
import Shading.Proofs.Updating
import Shading.Proofs.Naming
import Shading.Proofs.Pushes
import Shading.Proofs.Deciding
import Shading.Proofs.Inactive
import Shading.Proofs.Clamping
import Shading.Proofs.Commuting
import Shading.Proofs.Assigning
import Shading.Proofs.Pseudonyms
import Shading.Proofs.Vectors
import Shading.Proofs.Comparing
import Shading.Proofs.Integers
import Shading.Proofs.Bounding
import Shading.Proofs.Depth
import Shading.Proofs.Words
import Shading.Proofs.Letters
import Shading.Proofs.Leading
import Shading.Proofs.Careful.Drawing

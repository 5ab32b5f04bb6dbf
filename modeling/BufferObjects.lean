import BufferObjects.Bitmap.Run
import BufferObjects.IdAllocator.Run
import BufferObjects.KeyTable.Run
import BufferObjects.Proofs.Accounting
import BufferObjects.Proofs.Addressing
import BufferObjects.Proofs.CanonicalForm
import BufferObjects.Proofs.CountedSingletons
import BufferObjects.Proofs.Destruction
import BufferObjects.Proofs.FailedRequests
import BufferObjects.Proofs.FailureCodes
import BufferObjects.Proofs.Faultless
import BufferObjects.Proofs.FiniteMap
import BufferObjects.Proofs.HandleHistory
import BufferObjects.Proofs.Hexadecimal
import BufferObjects.Proofs.IndexSet
import BufferObjects.Proofs.Isolation
import BufferObjects.Proofs.LeastFree
import BufferObjects.Proofs.MappedRanges
import BufferObjects.Proofs.Mapping
import BufferObjects.Proofs.NameLifetime
import BufferObjects.Proofs.Naming
import BufferObjects.Proofs.Notifications
import BufferObjects.Proofs.Probing
import BufferObjects.Proofs.Refusal
import BufferObjects.Proofs.Teardown
import BufferObjects.Proofs.TokenCapacity
import BufferObjects.Proofs.Validity
import BufferObjects.Scenario.Session
import BufferObjects.SelfCheck
import BufferObjects.Singleton.Script
import BufferObjects.UseCount.Run

import UhCore.Caches.LfuLaw
import UhCore.Caches.ReadCache
import UhCore.Dedupe.ElementOrder
import UhCore.Dedupe.RejectedFragments
import UhCore.Directory.ReadLock
import UhCore.Entrypoint.AgreementRuns
import UhCore.Entrypoint.CompletedUploads
import UhCore.Entrypoint.DeletedBuckets
import UhCore.Entrypoint.FreshBuckets
import UhCore.Entrypoint.ListingPages
import UhCore.Entrypoint.MultipartInvariant
import UhCore.Entrypoint.Policy.Conditions
import UhCore.Entrypoint.ReadHandle
import UhCore.Entrypoint.RequestBoundaries
import UhCore.Entrypoint.SignedChunks
import UhCore.Entrypoint.UploadCounts
import UhCore.Entrypoint.VersionPages
import UhCore.Etcd.Candidates
import UhCore.Etcd.LoadBalancer
import UhCore.Etcd.Observers
import UhCore.Etcd.Registrations
import UhCore.Etcd.ServiceId
import UhCore.Group.AcceptedConfigs
import UhCore.Group.Balance
import UhCore.Group.EcAgreement
import UhCore.Group.Election
import UhCore.Group.GroupStates
import UhCore.Group.RepairInvariant
import UhCore.Group.RepairedStorage
import UhCore.Group.SharedCounts
import UhCore.Network.Connection
import UhCore.Network.Pool
import UhCore.Network.WriteMessage
import UhCore.Proxy.Transparency
import UhCore.Storage.AtomicOffset
import UhCore.Storage.DataFileIo
import UhCore.Storage.FreedRanges
import UhCore.Storage.Unlink

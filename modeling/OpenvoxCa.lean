import OpenvoxCa.Conc.Program
import OpenvoxCa.Conc.Pool
import OpenvoxCa.Conc.Discipline
import OpenvoxCa.Conc.Solo
import OpenvoxCa.Ca.Serial
import OpenvoxCa.Ca.Types
import OpenvoxCa.Ca.Chain
import OpenvoxCa.Ca.System
import OpenvoxCa.Ca.Crl
import OpenvoxCa.Ca.Revoke
import OpenvoxCa.Ca.Signing
import OpenvoxCa.Ca.Lifetime
import OpenvoxCa.Data.Scan
import OpenvoxCa.Ca.ChainText
import OpenvoxCa.Ca.Serving
import OpenvoxCa.Ca.Locks
import OpenvoxCa.Ca.CrlLock
import OpenvoxCa.Ca.CrlSpecs
import OpenvoxCa.Ca.Shape
import OpenvoxCa.Ca.SupersedeSpecs
import OpenvoxCa.Ca.ServingSpecs
import OpenvoxCa.Ca.Conservation
import OpenvoxCa.Ca.Gate
import OpenvoxCa.Ca.Renewal
import OpenvoxCa.Ca.Import
import OpenvoxCa.Ca.ImportRace
import OpenvoxCa.Ca.Alone
import OpenvoxCa.Ca.Retirement
import OpenvoxCa.Ca.Rollback
import OpenvoxCa.Data.Table
import OpenvoxCa.Storage.Record
import OpenvoxCa.Storage.Etcd
import OpenvoxCa.Storage.EtcdWrites
import OpenvoxCa.Storage.EtcdRuns
import OpenvoxCa.Storage.Ledger
import OpenvoxCa.Storage.Sql
import OpenvoxCa.Storage.SqlRuns
import OpenvoxCa.Storage.Redis
import OpenvoxCa.Storage.RedisRuns
import OpenvoxCa.Data.Assoc
import OpenvoxCa.Ocsp.Responder
import OpenvoxCa.Ocsp.Replica
import OpenvoxCa.Ocsp.Coherence
import OpenvoxCa.Ocsp.IndexSync
import OpenvoxCa.Ca.Cleanup
import OpenvoxCa.Ca.CleanupRace
import OpenvoxCa.Ca.RevokeRace
import OpenvoxCa.Ca.Books
import OpenvoxCa.Ca.Orphans
import OpenvoxCa.Storage.Service
import OpenvoxCa.Storage.Verdict
import OpenvoxCa.Ca.Startup
import OpenvoxCa.Ca.Bootstrap
import OpenvoxCa.Ca.ImportAlone
import OpenvoxCa.Ca.ImportPlan
import OpenvoxCa.Ca.Requests
import OpenvoxCa.Ca.Managed
import OpenvoxCa.Ca.Refusal
import OpenvoxCa.Ca.Upstream
import OpenvoxCa.Ca.Cache
import OpenvoxCa.Ca.Ancestors
import OpenvoxCa.Data.Buckets
import OpenvoxCa.Api.ClientCrl
import OpenvoxCa.Data.Escape
import OpenvoxCa.Api.Access
import OpenvoxCa.Conc.Among
import OpenvoxCa.Conc.Protocol
import OpenvoxCa.Storage.Rebuild
import OpenvoxCa.Storage.EtcdLock
import OpenvoxCa.Storage.RedisLock
import OpenvoxCa.Storage.Spelling
import OpenvoxCa.Ca.CertIndex
import OpenvoxCa.Ca.IndexRuns
import OpenvoxCa.Api.Statuses
import OpenvoxCa.Certstore.Secret
import OpenvoxCa.Data.Apply
import OpenvoxCa.Ca.Backoff
import OpenvoxCa.Signer.Handshake
import OpenvoxCa.Api.RateLimit
import OpenvoxCa.Storage.Listing
import OpenvoxCa.Launcher.Memory

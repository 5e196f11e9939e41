import AgentMail.Reservation.ReservationIndex
import AgentMail.Guard.Agreement
import AgentMail.Guard.Parity
import AgentMail.Store.IdFloor
import AgentMail.Rebuild.Addressees
import AgentMail.Salvage.OwnIds
import AgentMail.Clock.NowMicros
import AgentMail.Inbox.CountersExact
import AgentMail.Journal.Durable
import AgentMail.Journal.ScanExact
import AgentMail.Recovery.BarrierSafety
import AgentMail.Retry.Epochs
import AgentMail.Inbox.AckLap
import AgentMail.WriteBehind.FlushOrder
import AgentMail.Backlog.Durability
import AgentMail.Coalescer.Visibility
import AgentMail.Session.Authority
import AgentMail.Search.ScopeAgreement
import AgentMail.Search.ProjectSet
import AgentMail.Search.SqlPaging
import AgentMail.Search.CachedAnswer
import AgentMail.Refusal.Laws
import AgentMail.Reconcile.SharedRepair
import AgentMail.Experience.OpenIndexLaws
import AgentMail.Search.CacheGenerations
import AgentMail.Registration.ProofVerifier
import AgentMail.Recovery.BreakerRuns
import AgentMail.Search.TextFilters
import AgentMail.Inbox.UnackedExact
import AgentMail.Canonical.Transparent
import AgentMail.BuildSlots.SlotLaws
import AgentMail.Share.ProjectPaths
import AgentMail.Archive.ReadBack
import AgentMail.Replay.Rounds
import AgentMail.Contact.Evidence
import AgentMail.Integrity.BlankPages
import AgentMail.ReleaseRepair.ReleaseRounds
import AgentMail.Share.BundleBinding
import AgentMail.Pattern.SimpleFragment
import AgentMail.Guard.NameStatus
import AgentMail.Cache.CanonicalPin
import AgentMail.Cache.Invalidation
import AgentMail.Inbox.RetentionLoss
import AgentMail.Search.FusionOrder
import AgentMail.Doctor.TreeDigest
import AgentMail.Reservation.IdempotentCreate
import AgentMail.Reservation.ChunkedRelease
import AgentMail.Pattern.Cached
import AgentMail.Search.QueryHints
import AgentMail.Inbox.DeliveryReceipt

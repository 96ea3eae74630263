import AuditableMcp.TamperEvidence
import AuditableMcp.Restart
import AuditableMcp.Agreement
import AuditableMcp.Numbering
import AuditableMcp.Suppression
import AuditableMcp.Truthful
import AuditableMcp.Resends
import AuditableMcp.Transparency
import AuditableMcp.FullAccount
import AuditableMcp.Refusals
import AuditableMcp.KeyLifetime
import AuditableMcp.FrameSeam
import AuditableMcp.CallRegistry
import AuditableMcp.Withheld
import AuditableMcp.OutcomesOnce
import AuditableMcp.Thumbprint
import AuditableMcp.SaltedHash
import AuditableMcp.BadRecords
import AuditableMcp.SessionBooks
import AuditableMcp.EventOrder
import AuditableMcp.OwnAnswers
import AuditableMcp.AnsweredOnce
import AuditableMcp.HttpRuns
import AuditableMcp.Schemas
import AuditableMcp.Reconcile
import AuditableMcp.Reencoding
import AuditableMcp.Partitions

import StagedTable.Catalog
import StagedTable.Proofs.Calendar.Clock
import StagedTable.Proofs.Calendar.ReadBack
import StagedTable.Proofs.Column.Spelling
import StagedTable.Proofs.Server.Migration
import StagedTable.Proofs.Session.Addressing
import StagedTable.Proofs.Session.Agreement
import StagedTable.Proofs.Session.Commit
import StagedTable.Proofs.Session.FetchedRow
import StagedTable.Proofs.Session.OwnRow
import StagedTable.Proofs.Session.PendingEdits
import StagedTable.Proofs.Session.Redisplay
import StagedTable.Proofs.Session.Refetching
import StagedTable.Proofs.Session.Selection
import StagedTable.Proofs.Session.SharedLog
import StagedTable.Proofs.Session.Staging
import StagedTable.Proofs.Session.Typing
import StagedTable.Proofs.Sql.AlterationReading
import StagedTable.Proofs.Sql.Enclosure
import StagedTable.Proofs.Sql.JsonLiteral
import StagedTable.Proofs.Sql.PrimaryKey
import StagedTable.Proofs.Sql.RowStatement
import StagedTable.Proofs.Sql.Screening
import StagedTable.Proofs.Sql.ShortestDiff
import StagedTable.Proofs.Staging.CommitIdentity
import StagedTable.Proofs.Staging.History
import StagedTable.Proofs.Staging.LastWriter
import StagedTable.Proofs.Staging.Preimage
import StagedTable.Proofs.Staging.Reordering
import StagedTable.Proofs.Value.Alike
import StagedTable.Proofs.Value.ArraySpelling
import StagedTable.Proofs.Value.CellText
import StagedTable.Proofs.Value.Parsing
import StagedTable.Sql.Alteration
import StagedTable.Value.Temporal
import StagedTable.Workspace

import Doda.Ai.Credentials
import Doda.AuditChain.Edits
import Doda.AuditChain.Evidence
import Doda.Budget.Drift
import Doda.Budget.UsageReport
import Doda.Conversations.Search
import Doda.Export.Pages
import Doda.Frontend.ConversationStream
import Doda.Gateways.Assembly
import Doda.Lifecycle.Approving
import Doda.Lifecycle.Outbox
import Doda.Lifecycle.Sending
import Doda.Login.Logins
import Doda.Members.Listing
import Doda.Operations.Alarms
import Doda.Sessions.Listing
import Doda.Settings.Races
import Doda.Settings.Tiers
import Doda.Tasks.Reminders
import Doda.Turn.Arguments
import Doda.Turn.Ceiling

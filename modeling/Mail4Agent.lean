import Mail4Agent.Agent.SlidingAdapter
import Mail4Agent.Mailbox.Grants
import Mail4Agent.Mailbox.Notifications
import Mail4Agent.Mailbox.Secrets
import Mail4Agent.Mailbox.Sessions
import Mail4Agent.Messenger.AccountData
import Mail4Agent.Messenger.CrashLog
import Mail4Agent.Messenger.DeviceQueries
import Mail4Agent.Messenger.InboundRun
import Mail4Agent.Messenger.KeyUploads
import Mail4Agent.Messenger.LaneLimits
import Mail4Agent.Messenger.OlmOrder
import Mail4Agent.Messenger.RetryDelay
import Mail4Agent.Messenger.TimelineRedaction
import Mail4Agent.Messenger.ToDeviceRun
import Mail4Agent.Server.AssertionIsolation
import Mail4Agent.Server.AuthChain
import Mail4Agent.Server.F3Depth
import Mail4Agent.Server.IdentityReconcile
import Mail4Agent.Server.MembershipRun
import Mail4Agent.Server.OutboxOrder
import Mail4Agent.Server.OutboxWindow
import Mail4Agent.Server.Pagination
import Mail4Agent.Server.PeerReads
import Mail4Agent.Server.PowerCache
import Mail4Agent.Server.RemoteKeys

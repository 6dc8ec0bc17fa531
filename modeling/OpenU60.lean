import OpenU60.Auth.Loopback
import OpenU60.Auth.Refinement
import OpenU60.Events.Counters
import OpenU60.Events.Delivery
import OpenU60.Mobile.Law
import OpenU60.Mobile.Routing
import OpenU60.Lib.Ring
import OpenU60.Bearer.Follow
import OpenU60.Cache.Coherence
import OpenU60.ConnWatchdog.Ladder
import OpenU60.ConnWatchdog.Restart
import OpenU60.DnsControl.Rollback
import OpenU60.Doh.NetworkChange
import OpenU60.Doh.Questions
import OpenU60.Esim.Honoured
import OpenU60.Esim.Hygiene
import OpenU60.Esim.Reconnect
import OpenU60.Esim.Retry
import OpenU60.Esim.Tracking
import OpenU60.Euicc.Bpp
import OpenU60.Euicc.Es9p
import OpenU60.Euicc.AccessRules
import OpenU60.Euicc.Profiles
import OpenU60.Events.Freshness
import OpenU60.Events.Frames
import OpenU60.Events.Schedule
import OpenU60.Lib.Json
import OpenU60.KeyLog.Backward
import OpenU60.LiveActivity.Delivery
import OpenU60.NoService.Laws
import OpenU60.NoService.Parked
import OpenU60.Ota.PowerLoss
import OpenU60.Ota.Select
import OpenU60.Qmi.Channel
import OpenU60.Scheduler.Arming
import OpenU60.Scheduler.Results
import OpenU60.SimIdentity.Phases
import OpenU60.SmsForward.Delivery
import OpenU60.SmsForward.LogLaws
import OpenU60.SmsForward.RetryIdentity
import OpenU60.SmsForward.RuleIdentity
import OpenU60.SmsForward.Siblings
import OpenU60.SmsForward.Ucs2
import OpenU60.SmsForward.Watermark
import OpenU60.StandbyGuard.Decisions
import OpenU60.StandbyGuard.Follow
import OpenU60.StandbyGuard.Switch
import OpenU60.Stk.Framing
import OpenU60.Stk.Input
import OpenU60.Stk.Protocol
import OpenU60.Tailscale.Desired
import OpenU60.Tailscale.Update
import OpenU60.Tailscale.Wake
import OpenU60.Telephony.Decoded
import OpenU60.Tls.Renewal
import OpenU60.Tls.Gregorian
import OpenU60.Tls.RoundTrip
import OpenU60.Tls.Survival
import OpenU60.Web.Merge
import OpenU60.Web.Precheck
import OpenU60.Ttl.Enforced
import OpenU60.Web.Conversations
import OpenU60.Web.EditUnchanged
import OpenU60.Web.MarkerHop
import OpenU60.Web.QrAnswer
import OpenU60.Web.Redacted
import OpenU60.Web.SingleUse
import OpenU60.Web.UploadForm
import OpenU60.WifiWatchdog.Laws
import OpenU60.WifiWatchdog.Uci
import OpenU60.Wireguard.Agreement
import OpenU60.Wireguard.Import
import OpenU60.Lib.Bucket
import OpenU60.Doh.Capacity
import OpenU60.Doh.MinTtl
import OpenU60.Stk.Input

import UnrealIrcd.RecvQ.Correctness
import UnrealIrcd.UnrealDB.FileRoundTrip
import UnrealIrcd.MessageTags.RoundTrip
import UnrealIrcd.Channels.SjoinConvergence
import UnrealIrcd.CRule.Arguments
import UnrealIrcd.CRule.Completeness
import UnrealIrcd.Websocket.ChunkIndependence
import UnrealIrcd.Websocket.Output
import UnrealIrcd.HistoryBackend.Duplicates
import UnrealIrcd.Config.RoundTrip
import UnrealIrcd.Config.Conditional
import UnrealIrcd.Tkl.Merge
import UnrealIrcd.MaxPerIp.Accounting
import UnrealIrcd.Tkl.Lookup
import UnrealIrcd.Channels.MemberView
import UnrealIrcd.Operclass.Permissions
import UnrealIrcd.Operclass.Validators
import UnrealIrcd.Reputation.AddScores
import UnrealIrcd.Reputation.Convergence
import UnrealIrcd.Nick.Agreement
import UnrealIrcd.Webserver.Reassembly
import UnrealIrcd.Url.Reassembly
import UnrealIrcd.ConnThrottle.Accounting
import UnrealIrcd.SecurityGroup.Duplicate
import UnrealIrcd.Watch.Commands
import UnrealIrcd.Whowas.Consistency
import UnrealIrcd.Visibility.Quit
import UnrealIrcd.DelayJoin.PostDelayed
import UnrealIrcd.DelayJoin.Informed
import UnrealIrcd.Channels.Bookkeeping
import UnrealIrcd.Channels.JoinKeys
import UnrealIrcd.GeoipCsv.Lookup
import UnrealIrcd.Channels.ListMerge
import UnrealIrcd.Tkl.Components
import UnrealIrcd.Channels.Invites
import UnrealIrcd.Dns.LinkLookup
import UnrealIrcd.Matching.Ipv6Mask
import UnrealIrcd.Channels.FloodCounter
import UnrealIrcd.Channels.FloodprotParams
import UnrealIrcd.Tkl.ReasonText

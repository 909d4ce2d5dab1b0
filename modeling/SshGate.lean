import SshGate.Interaction.Program
import SshGate.Interaction.System
import SshGate.Go.Text
import SshGate.Go.Netip
import SshGate.Routing
import SshGate.Rules
import SshGate.Dns.Actions
import SshGate.Dns.Lookup
import SshGate.Opener
import SshGate.World
import SshGate.Steps
import SshGate.Dns.Calls
import SshGate.Dns.Paths
import SshGate.Dns.Flights
import SshGate.Opener.Dials
import SshGate.Dns.Origins
import SshGate.Opener.Policy
import SshGate.Opener.Names
import SshGate.Dns.KeySpace
import SshGate.Interaction.Process
import SshGate.Tunnel.Actions
import SshGate.Tunnel.Dialer
import SshGate.Tunnel.Machine
import SshGate.Tunnel.Pinning
import SshGate.Interaction.Breaker
import SshGate.Dns.Claims
import SshGate.Dns.Probes
import SshGate.Dns.Attempts
import SshGate.Dns.Recording
import SshGate.Dns.Pauses
import SshGate.Dns.Caching
import SshGate.Interaction.AgeQueue
import SshGate.Interaction.RingBuffer
import SshGate.Tracker.ConnTracker
import SshGate.Tracker.Machine
import SshGate.Tracker.History
import SshGate.Config
import SshGate.Tracker.Lifecycle
import SshGate.Tracker.Pages
import SshGate.Interaction.Tally
import SshGate.Proxy.ConnLimiter
import SshGate.Tunnel.Stop
import SshGate.Proxy.Server
import SshGate.Proxy.Connections
import SshGate.Proxy.Drain
import SshGate.Proxy.Handshakes
import SshGate.Dns.Sharing
import SshGate.Dns.Outages
import SshGate.Interaction.Search
import SshGate.Tunnel.Keys
import SshGate.Dns.Eviction
import SshGate.Dns.Walk
import SshGate.Opener.Decide
import SshGate.Opener.Resolved
import SshGate.Opener.Ranges
import SshGate.Opener.Spellings
import SshGate.Dns.Contact
import SshGate.Opener.Fallback
import SshGate.Tunnel.Status
import SshGate.Go.HostPort
import SshGate.Config.TunnelDns
import SshGate.Journal
import SshGate.Health.HostGuard
import SshGate.Wire.Http
import SshGate.Proxy.Forward
import SshGate.Dns.Shares
import SshGate.Go.Ticker
import SshGate.Interaction.RelyGuarantee
import SshGate.Proxy.IdleGuard
import SshGate.Tunnel.Keepalive
import SshGate.Go.Bufio
import SshGate.Go.NetipText
import SshGate.Proxy.Connect
import SshGate.Proxy.Directions
import SshGate.Proxy.Tunnels
import SshGate.Interaction.Histories
import SshGate.Tracker.Records
import SshGate.Tunnel.DialHistory
import SshGate.Tunnel.DialRecords
import SshGate.Dns.Counts
import SshGate.Dns.Degraded
import SshGate.Dns.Freshness
import SshGate.Go.Literals
import SshGate.Opener.Privacy
import SshGate.Proxy.IdleCut
import SshGate.Proxy.IdleTime

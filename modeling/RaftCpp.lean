import RaftCpp.Library.Transition
import RaftCpp.Library.Pledge
import RaftCpp.Library.UnorderedMap
import RaftCpp.Library.AtMostOnce
import RaftCpp.Library.Machine
import RaftCpp.Library.Reduction
import RaftCpp.Library.InputStream
import RaftCpp.Channels
import RaftCpp.Handlers
import RaftCpp.Wire
import RaftCpp.Cluster
import RaftCpp.Calls
import RaftCpp.Tally
import RaftCpp.Allegiance
import RaftCpp.SingleLeader
import RaftCpp.ElectionSafety
import RaftCpp.Membership
import RaftCpp.Terms
import RaftCpp.Provenance
import RaftCpp.Loyalty
import RaftCpp.Timer
import RaftCpp.Stale
import RaftCpp.Rounds
import RaftCpp.Replication
import RaftCpp.Release
import RaftCpp.Main
import RaftCpp.Progress
import RaftCpp.Atomicity
import RaftCpp.Candidacy
import RaftCpp.Client
import RaftCpp.Takeover
import RaftCpp.Unheard
import RaftCpp.Desertion
import RaftCpp.Stability
import RaftCpp.Settling
import RaftCpp.Clocks
import RaftCpp.Isolation
import RaftCpp.Departure
import RaftCpp.ConfigFile

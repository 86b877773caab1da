import Rafting.ElectionSafety
import Rafting.OwnLog
import Rafting.ServerLoop
import Rafting.CircularWait
import Rafting.NextIndex
import Rafting.LogIntegrity
import Rafting.AppendContract
import Rafting.TermAdoption
import Rafting.LogMatching
import Rafting.Replication
import Rafting.SingleLeader
import Rafting.LogRepair
import Rafting.CommitSafety
import Rafting.Durability
import Rafting.VoteDecision
import Rafting.CommitRule
import Rafting.ElectionTimer
import Rafting.LogService
import Rafting.UnreadFields
import Rafting.Blocking
import Rafting.Provenance
import Rafting.Startup
import Rafting.PeerConnections
import Rafting.NodeProcess
import Rafting.Availability
import Rafting.CommandText
import Rafting.Endings
import Rafting.PeerRecords
import Rafting.Undisturbed
import Rafting.ElectionRate
import Rafting.Deployment
import Rafting.LostMember

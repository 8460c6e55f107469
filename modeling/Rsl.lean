import Rsl.LogFile.Torn
import Rsl.LogFile.Sessions
import Rsl.Storage.LearnPort
import Rsl.Storage.Watermark
import Rsl.Storage.SeqOrder
import Rsl.Storage.SeqHonest
import Rsl.Storage.Defunct
import Rsl.VoteQueue
import Rsl.Agreement
import Rsl.Cpp.MemberIds
import Rsl.Cpp.BallotOrder
import Rsl.Cpp.CheckpointHeader
import Rsl.Cpp.Batching
import Rsl.Cpp.Marshal
import Rsl.Checkpoint.Handed
import Rsl.Cleanup.Keeps
import Rsl.Net.NetBuffer
import Rsl.Tls.Thumbprint

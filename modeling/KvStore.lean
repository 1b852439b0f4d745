import KvStore.Cluster.Barriers
import KvStore.Cluster.Flushes
import KvStore.Cluster.Resizes
import KvStore.Cluster.RingChanges
import KvStore.Cluster.Saver
import KvStore.Engine.KeySets
import KvStore.Engine.LinkedRuns
import KvStore.Engine.ListValues
import KvStore.Engine.Refusals
import KvStore.Engine.SkipListInvariant
import KvStore.Engine.Streams
import KvStore.Protocol.Client
import KvStore.Replication.Convergence

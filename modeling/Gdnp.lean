import Gdnp.Agreement
import Gdnp.LoopCount
import Gdnp.Receive
import Gdnp.SessionEnd
import Gdnp.Replies
import Gdnp.Waiting
import Gdnp.Lifetime
import Gdnp.WaitTimer
import Gdnp.Isolation
import Gdnp.Distribute
import Gdnp.DiscoverResult
import Gdnp.Framing
import Gdnp.Endian
import Gdnp.Stray
import Gdnp.Api
import Gdnp.Reuse
import Gdnp.Refuse
import Gdnp.Mixing
import Gdnp.Leftover
import Gdnp.Fidelity
import Gdnp.DiscoveryAnswer
import Gdnp.DecisionRule
import Gdnp.WatchList
import Gdnp.WatchRace
import Gdnp.ThreadStart
import Gdnp.RetryBudget
import Gdnp.SyncResult
import Gdnp.ReadLoop
import Gdnp.Oversize
import Gdnp.Connecting
import Gdnp.Retransmit
import Gdnp.WaitingTime
import Gdnp.Processing
import Gdnp.Lib.Component
import Gdnp.Lives
import Gdnp.Lifelong
import Gdnp.Stall
import Gdnp.Dedup
import Gdnp.DiscoveryNet
import Gdnp.Crowd
import Gdnp.Descriptors
import Gdnp.Abandoned
import Gdnp.Synchronization

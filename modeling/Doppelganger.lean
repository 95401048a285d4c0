import Doppelganger.Lib.Lts
import Doppelganger.Lib.JsonText
import Doppelganger.Lib.Redis
import Doppelganger.Score
import Doppelganger.Expiry
import Doppelganger.Untold
import Doppelganger.Gap
import Doppelganger.KeyGate
import Doppelganger.Answers
import Doppelganger.Linearization
import Doppelganger.Scoring
import Doppelganger.Schema
import Doppelganger.Scored
import Doppelganger.Consumers
import Doppelganger.LogEntries
import Doppelganger.Framing
import Doppelganger.Messages
import Doppelganger.Stranded
import Doppelganger.Coherence
import Doppelganger.StreamRuns
import Doppelganger.RedisClient
import Doppelganger.HubOnce
import Doppelganger.HubLinks
import Doppelganger.HubHeard
import Doppelganger.HubRouting
import Doppelganger.Slots
import Doppelganger.Telling
import Doppelganger.BobRequests
import Doppelganger.ToldExpired
import Doppelganger.Cosine
import Doppelganger.Parts
import Doppelganger.FailedAnswers
import Doppelganger.SafetyNet
import Doppelganger.HubCalls
import Doppelganger.Progress
import Doppelganger.Rest
import Doppelganger.Ready
import Doppelganger.Addresses
import Doppelganger.FormChecks
import Doppelganger.Reconnecting
import Doppelganger.Completion

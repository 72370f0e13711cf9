import RefCache.Broker
import RefCache.Database
import RefCache.PhotoUrl
import RefCache.Session
import RefCache.Timeline
import RefCache.Proofs.Items
import RefCache.Proofs.Reading
import RefCache.Proofs.Slot
import RefCache.Proofs.Upkeep
import RefCache.Proofs.Place
import RefCache.Proofs.CatchUp
import RefCache.Proofs.Rebuild
import RefCache.Proofs.UserRows
import RefCache.Proofs.UserIndexes
import RefCache.Proofs.UserBatches
import RefCache.Proofs.Arrivals
import RefCache.Proofs.UserMirror
import RefCache.Proofs.Share
import RefCache.Proofs.Due
import RefCache.Proofs.HighWater
import RefCache.Proofs.Overlap
import RefCache.Proofs.Schedule
import RefCache.Proofs.Failures
import RefCache.Proofs.Visits
import RefCache.Proofs.Serial
import RefCache.Proofs.Replay
import RefCache.Proofs.Duty
import RefCache.Proofs.Shutdown
import RefCache.Proofs.Ranking
import RefCache.Proofs.RankOrder
import RefCache.Proofs.Points
import RefCache.Proofs.Tokens
import RefCache.Proofs.Trees
import RefCache.Proofs.Scalars
import RefCache.Proofs.Members
import RefCache.Proofs.Contents
import RefCache.Proofs.RoundTrip
import RefCache.Proofs.Walks
import RefCache.Proofs.Delimiters
import RefCache.Proofs.Payloads
import RefCache.Proofs.Decoding
import RefCache.Proofs.Answers
import RefCache.Proofs.LastGood
import RefCache.Proofs.UserReplay
import RefCache.Proofs.UserOrder
import RefCache.Proofs.LastWriter
import RefCache.Proofs.ColdStart
import RefCache.Proofs.PlannedRuns
import RefCache.Proofs.Supervision
import RefCache.Proofs.Spelling
import RefCache.Proofs.Delivery

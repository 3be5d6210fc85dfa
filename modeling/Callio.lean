import Callio.Cluster.Conduct
import Callio.Cluster.Effects
import Callio.Cluster.Leases
import Callio.Conduct.Handlers
import Callio.Properties.Adoption
import Callio.Properties.BusyLock
import Callio.Properties.CustomerAnswer
import Callio.Properties.EndNotice
import Callio.Properties.InboxDelivery
import Callio.Properties.InboxReader
import Callio.Properties.MissedOnce
import Callio.Properties.OfferMeetsEnd
import Callio.Properties.OfferWithdrawal
import Callio.Properties.OneInbound
import Callio.Properties.QueueWait
import Callio.Properties.RingTimeout
import Callio.Properties.OneLiveCall
import Callio.Properties.StuckPredicates
import Callio.Properties.TerminalStatus
import Callio.Properties.TimersAndAccept
import Callio.Properties.WaitingCalls
import Callio.Properties.QueueCapacity
import Callio.Properties.FirstCome
import Callio.Properties.Overflow
import Callio.Properties.RoundRobin
import Callio.Properties.AskedAgain
import Callio.Properties.DialledLeg
import Callio.Properties.DeliveryStates
import Callio.Properties.ConsumerIsolation
import Callio.Properties.IdempotencyKey
import Callio.Properties.WhoHears
import Callio.Properties.TransferFails
import Callio.Properties.Durations
import Callio.Properties.NoAnswer
import Callio.Properties.LatestWins
import Callio.Properties.IvrReplay
import Callio.Properties.IvrGraph
import Callio.Properties.PrivateReply
import Callio.Properties.HoldAndTone
import Callio.Properties.Attendance
import Callio.Properties.AudioLoss
import Callio.Properties.ReportsAddUp
import Callio.Properties.SourceCheck
import Callio.Properties.StoredForm
import Callio.Properties.LinesAlign
import Callio.Properties.CodecsOnce
import Callio.Properties.MalformedReply
import Callio.Properties.CodecRoundTrip
import Callio.Properties.NoDangling
import Callio.Properties.LegsReleased
import Callio.Properties.DrainServes
import Callio.Properties.KeyRotation
import Callio.Properties.RecordingPurge
import Callio.Properties.IvrLatch
import Callio.Properties.GracePeriod
import Callio.Properties.LegsConserved
import Callio.Properties.Erasure

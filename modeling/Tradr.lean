import Tradr.BigEndian
import Tradr.Incremental
import Tradr.Framing
import Tradr.Machine
import Tradr.Chunks
import Tradr.Pipe
import Tradr.MuxWire
import Tradr.Mux
import Tradr.MuxSafety
import Tradr.MuxLink
import Tradr.Gossip
import Tradr.BroadcastKey
import Tradr.MessageType
import Tradr.RelPath
import Tradr.DataPlane
import Tradr.Sanitization
import Tradr.IntervalSet
import Tradr.Resumption
import Tradr.Fallible
import Tradr.ByteFile
import Tradr.Vfs
import Tradr.Streams
import Tradr.Advertisement
import Tradr.Assoc
import Tradr.Posix
import Tradr.Receive
import Tradr.ReceiveSafety
import Tradr.FileStore
import Tradr.Fingerprint
import Tradr.HpkeSequence
import Tradr.ReceiveCleanup
import Tradr.ReceiveConcurrent
import Tradr.Eff
import Tradr.Triple
import Tradr.BrowseWire
import Tradr.Browse
import Tradr.BrowseRules
import Tradr.BrowseChunking
import Tradr.BrowseDenyList
import Tradr.KeyStore
import Tradr.Hpke
import Tradr.Envelope
import Tradr.EnvelopeWriter
import Tradr.EnvelopeReader
import Tradr.EnvelopeRoundTrip
import Tradr.EnvelopeIntegrity
import Tradr.EnvelopeSplits
import Tradr.EnvelopeGrammar
import Tradr.ReadRanges
import Tradr.DirPages
import Tradr.ChunkServing
import Tradr.Interleaving
import Tradr.TransferPair
import Tradr.Table
import Tradr.TreeRegions
import Tradr.BrokrDb
import Tradr.BrokrServer
import Tradr.BrokrLimits
import Tradr.BrokrLifeCycle
import Tradr.Link
import Tradr.LinkExchange
import Tradr.LinkInvite
import Tradr.PeerMerging
import Tradr.PeerTrust
import Tradr.BleRotation
import Tradr.BleSource
import Tradr.BroadcastExchanges
import Tradr.SentDeliveries
import Tradr.SentJournal
import Tradr.Hello
import Tradr.BrowseAccess
import Tradr.FrameReaders
import Tradr.BrowseDownload
import Tradr.Skipping
import Tradr.Send
import Tradr.Offer
import Tradr.BrowseServing
import Tradr.SkippingReaders
import Tradr.SkipRule
import Tradr.DenyAliases
import Tradr.AttestationSteps
import Tradr.RefetchBudget
import Tradr.Handshake
import Tradr.Listener
import Tradr.BrokrEnvelopes
import Tradr.BrokrRegister
import Tradr.BrokrSessions
import Tradr.BroadcastHalves
import Tradr.LinkStores
import Tradr.Pinning
import Tradr.MessageRoundTrips
import Tradr.BrowseRoundTrips
import Tradr.InviteBlob
import Tradr.NoiseRecord
import Tradr.Checked
import Tradr.ResumptionHistory
import Tradr.ResumptionAccounting
import Tradr.Acceptance
import Tradr.HonestTransfer
import Tradr.Rotation
import Tradr.SignedBytes
import Tradr.KnownDevices
import Tradr.KnownDevicesStore
import Tradr.DestinationNames
import Tradr.CollisionNames
import Tradr.PosixTransfer
import Tradr.ContendedUploads
import Tradr.StagingNames
import Tradr.PartialSweep
import Tradr.Mailbox
import Tradr.RemoteBrokr
import Tradr.Collect
import Tradr.CollectOnce
import Tradr.ListingStore
import Tradr.DeliveryFiles
import Tradr.DeliveryContents
import Tradr.CollectPasses

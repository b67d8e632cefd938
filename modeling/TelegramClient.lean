import TelegramClient.MtProto.AesCtr
import TelegramClient.MtProto.InputStream
import TelegramClient.MtProto.ProgressScanner
import TelegramClient.MtProto.Packet
import TelegramClient.MtProto.Receipts
import TelegramClient.MtProto.IntermediateFormat
import TelegramClient.MtProto.AuthKeyWidth
import TelegramClient.MtProto.RequestOrder
import TelegramClient.Coding.KeyValueSkips
import TelegramClient.Coding.KeyValueMismatch
import TelegramClient.Secret.OutgoingOrder
import TelegramClient.Updates.UpdateRouting
import TelegramClient.Database.HoleUpdates
import TelegramClient.Updates.SequencedOrder
import TelegramClient.VoIP.LatestExtras
import TelegramClient.VoIP.DatagramSafety
import TelegramClient.Storage.CacheInvariant
import TelegramClient.Fetch.CdnVerification
import TelegramClient.Fetch.MediaBoxRuns
import TelegramClient.Actions.QueueRuns
import TelegramClient.Actions.Completions
import TelegramClient.MtProto.MessageServices
import TelegramClient.MtProto.TcpTransport
import TelegramClient.Calls.HangingUp
import TelegramClient.MtProto.Salts
import TelegramClient.MtProto.BackupAddresses
import TelegramClient.Upload.UploadIntegrity
import TelegramClient.MtProto.MessageIds
import TelegramClient.Contacts.PhonebookChanges
import TelegramClient.Database.ActionsKept
import TelegramClient.Database.ActionsSettled
import TelegramClient.Database.SelfDestruct
import TelegramClient.Database.MessageIndex
import TelegramClient.Database.UnreadTotals
import TelegramClient.Database.UnseenMentions
import TelegramClient.Messages.InsertIndices
import TelegramClient.Database.CustomProperties
import TelegramClient.Messages.SortKeys
import TelegramClient.Messages.MessageFlags
import TelegramClient.Database.ConversationHoles
import TelegramClient.Database.HistoryWindow
import TelegramClient.Updates.SeqUpdates
import TelegramClient.Secret.LayerHeader
import TelegramClient.Secret.OutgoingRequests
import TelegramClient.Secret.ResendRanges
import TelegramClient.Fetch.VideoDownloadRuns
import TelegramClient.Storage.MemoryImageCache
import TelegramClient.Messages.AudioWaveform
import TelegramClient.Messages.TextEnd
import TelegramClient.VoIP.JitterLateness
import TelegramClient.VoIP.JitterPlayback
import TelegramClient.VoIP.CongestionControl
import TelegramClient.VoIP.EndpointRuns
import TelegramClient.VoIP.OutgoingOwners
import TelegramClient.Passport.PublicKey
import TelegramClient.Database.SharedMedia
import TelegramClient.Database.PinnedConversations
import TelegramClient.Passport.SecureData
import TelegramClient.Database.MediaBindings
import TelegramClient.Passport.MachineReadable
import TelegramClient.MtProto.SentMessages
import TelegramClient.Calls.CallPackets
import TelegramClient.Secret.RekeyedMessages

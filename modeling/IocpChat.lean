import IocpChat.Network.Send
import IocpChat.Client.Handlers
import IocpChat.Offline.Delivery
import IocpChat.DataStructure.MpscThreads
import IocpChat.Network.Registration
import IocpChat.Offline.Routing
import IocpChat.Chat.Conservation
import IocpChat.DataStructure.ByteQueue
import IocpChat.DataStructure.TableIndexes
import IocpChat.Protocol.Corruption
import IocpChat.Authentication.OtpGuesses
import IocpChat.Network.Stalls
import IocpChat.Session.Maps
import IocpChat.Network.LateCompletions
import IocpChat.Pool.Exhaustion
import IocpChat.Authentication.Registrations
import IocpChat.Authentication.SessionTokens
import IocpChat.FileTransfer.AckWaits
import IocpChat.FileTransfer.Fetch
import IocpChat.FileTransfer.GroupLinks
import IocpChat.FileTransfer.RoundTurns
import IocpChat.FileTransfer.UploadLimit
import IocpChat.DataStructure.TableLfu
import IocpChat.FileTransfer.FileChecksums
import IocpChat.Pool.IoContexts
import IocpChat.Protocol.Completeness
import IocpChat.Server.Progress
import IocpChat.Server.WakeUps
import IocpChat.Authentication.Login
import IocpChat.Pool.Alone
import IocpChat.Chat.RouterModels
import IocpChat.Chat.QueueModels

import RpcProject.Foundations.Interaction
import RpcProject.Foundations.Machine
import RpcProject.Foundations.Chunks
import RpcProject.Foundations.PrefixCode
import RpcProject.Foundations.FairLock
import RpcProject.Foundations.Wire
import RpcProject.Foundations.Codec
import RpcProject.Foundations.Descriptors
import RpcProject.Foundations.Memo
import RpcProject.Server.SockIo
import RpcProject.Client.RpcSocket
import RpcProject.Transport.ServerToClient
import RpcProject.Transport.ClientToServer
import RpcProject.Protocol.Registry
import RpcProject.Protocol.Pairs
import RpcProject.Protocol.Api
import RpcProject.Protocol.Protobuf
import RpcProject.Protocol.Lossless
import RpcProject.Server.Dispatch
import RpcProject.Transport.DispatchLaw
import RpcProject.Transport.RemoteCalls
import RpcProject.Server.Terminal
import RpcProject.Session.Errno
import RpcProject.Session.Model
import RpcProject.Session.Locks
import RpcProject.Foundations.TurnTaking
import RpcProject.Session.Streams
import RpcProject.Session.TerminalLoop
import RpcProject.Session.Agreement
import RpcProject.Session.Dialogue
import RpcProject.Session.Pairing
import RpcProject.Session.Abandoned
import RpcProject.Session.ExitRace
import RpcProject.Server.HandleClient
import RpcProject.Server.Spawn
import RpcProject.Server.RoutineBlocks
import RpcProject.Server.Leaks
import RpcProject.Server.Daemon
import RpcProject.Foundations.ByteMemory
import RpcProject.Calls.Placement
import RpcProject.Calls.Bounds
import RpcProject.Calls.Trampoline
import RpcProject.Calls.RemoteCall
import RpcProject.Calls.RemoteMemory
import RpcProject.Client.Allocated
import RpcProject.Client.CaptureFd
import RpcProject.Client.ClientManager
import RpcProject.Client.Hooks
import RpcProject.Client.EnterPtyMode
import RpcProject.Client.EventNotifier
import RpcProject.Files.Listing
import RpcProject.Foundations.TreeOrder
import RpcProject.Foundations.Effects
import RpcProject.Foundations.Blocks
import RpcProject.Foundations.DictWrites
import RpcProject.Client.Lifecycle
import RpcProject.Client.SharedSession
import RpcProject.Client.Socket
import RpcProject.Client.Symbol
import RpcProject.Client.Console
import RpcProject.Client.Preferences
import RpcProject.Files.FileSystem
import RpcProject.Files.Lookup
import RpcProject.Files.Traversal
import RpcProject.Files.Walk
import RpcProject.Files.Prune
import RpcProject.Files.EntryTests
import RpcProject.Files.Remove
import RpcProject.Files.ChangeModes
import RpcProject.Files.PurePath
import RpcProject.Files.PathOps
import RpcProject.Files.Copy
import RpcProject.Files.CopyTree
import RpcProject.Files.Growth
import RpcProject.Foundations.Recursion
import RpcProject.Files.CopyCalls
import RpcProject.Files.CopyEnds
import RpcProject.Files.Find
import RpcProject.Files.OpenFile
import RpcProject.Files.MakeDirs
import RpcProject.Files.InTheWay
import RpcProject.Files.TempDir
import RpcProject.Files.Offsets
import RpcProject.Files.WholeWrites
import RpcProject.Server.ListDir
import RpcProject.Client.ItemAccess
import RpcProject.Darwin.AutoreleasePages
import RpcProject.Darwin.AutoreleasePool
import RpcProject.Darwin.Ivars
import RpcProject.Darwin.PeekStr
import RpcProject.Darwin.Regions
import RpcProject.Darwin.ServiceCache
import RpcProject.Files.LsStub
import RpcProject.Ios.Accessibility

import NetProg.Commands.RemoveTag
import NetProg.Console.Application
import NetProg.Console.CgiOutput
import NetProg.Console.CgiSession
import NetProg.Console.CgiUtil
import NetProg.Console.ClientSocket
import NetProg.Console.Conversation
import NetProg.Console.Display
import NetProg.Console.Escape
import NetProg.Console.ForkCGI
import NetProg.Console.HttpRequest
import NetProg.Console.NPShellApp
import NetProg.Console.Page
import NetProg.Console.Panel
import NetProg.Console.Proxy
import NetProg.Console.QueryString
import NetProg.Console.ReadBack
import NetProg.Console.Submission
import NetProg.Console.TwoParsers
import NetProg.Console.WebConsole
import NetProg.Lib.Bytes
import NetProg.Lib.CMemory
import NetProg.Lib.FdTable
import NetProg.Lib.FinSum
import NetProg.Lib.Find
import NetProg.Lib.Forms
import NetProg.Lib.Html
import NetProg.Lib.Lines
import NetProg.Lib.Literal
import NetProg.Lib.OrdMap
import NetProg.Lib.Outcome
import NetProg.Lib.Paths
import NetProg.Lib.Pattern
import NetProg.Lib.References
import NetProg.Lib.Regex
import NetProg.Lib.Roster
import NetProg.Lib.Runs
import NetProg.Lib.Script
import NetProg.Lib.Split
import NetProg.Lib.Text
import NetProg.Lib.Wildcard
import NetProg.Lib.Words
import NetProg.Server.AcceptLoops
import NetProg.Server.Accounts
import NetProg.Server.Announcements
import NetProg.Server.ArgumentWords
import NetProg.Server.Builtins
import NetProg.Server.ChatRoom
import NetProg.Server.ChatRoomShm
import NetProg.Server.ChatRoomSingle
import NetProg.Server.ChatServer
import NetProg.Server.Descriptors
import NetProg.Server.Environments
import NetProg.Server.Fifo
import NetProg.Server.FifoCopy
import NetProg.Server.Hangups
import NetProg.Server.InputLoops
import NetProg.Server.Interference
import NetProg.Server.Ledger
import NetProg.Server.Lobby
import NetProg.Server.Logins
import NetProg.Server.Mailbox
import NetProg.Server.Names
import NetProg.Server.OwnPipes
import NetProg.Server.Ownership
import NetProg.Server.ParsedLines
import NetProg.Server.Programs
import NetProg.Server.Races
import NetProg.Server.SharedCin
import NetProg.Server.ShellRuns
import NetProg.Server.ShmAnnouncements
import NetProg.Server.ShmServer
import NetProg.Server.ShmUserIds
import NetProg.Server.SingleProc
import NetProg.Server.StaticRing
import NetProg.Server.UserIds
import NetProg.Server.UserMemory
import NetProg.Server.UserPipeSpec
import NetProg.Server.UserPipes
import NetProg.Server.Users
import NetProg.Shell.Accounts
import NetProg.Shell.CallRules
import NetProg.Shell.CircularBuffer
import NetProg.Shell.Command
import NetProg.Shell.Environ
import NetProg.Shell.Forks
import NetProg.Shell.NpParse
import NetProg.Shell.NpRun
import NetProg.Shell.NpShell
import NetProg.Shell.NumberedPipes
import NetProg.Shell.ParseCommand
import NetProg.Shell.Pipe
import NetProg.Shell.PipeTable
import NetProg.Shell.Pipeline
import NetProg.Shell.PipelineParent
import NetProg.Shell.PipelineProgress
import NetProg.Shell.Printing
import NetProg.Shell.Process
import NetProg.Shell.Reaping
import NetProg.Shell.RingCalls
import NetProg.Shell.RunShell
import NetProg.Shell.RunShellSpec
import NetProg.Shell.Segments
import NetProg.Shell.SlotLife
import NetProg.Shell.Ticks
import NetProg.Shell.Tokens
import NetProg.Shell.Wiring
import NetProg.Socks.Firewall
import NetProg.Socks.Handler
import NetProg.Socks.Header
import NetProg.Socks.Octets
import NetProg.Socks.Received
import NetProg.Socks.Relay
import NetProg.Socks.Replies
import NetProg.Socks.Request
import NetProg.Socks.Translation
import NetProg.Socks.Transparent
import NetProg.Socks.Tunnel

import SimpleRemote.Library.Runs
import SimpleRemote.Library.Interaction
import SimpleRemote.Library.Json
import SimpleRemote.Library.JsonText
import SimpleRemote.Library.JsonSize
import SimpleRemote.Protocol
import SimpleRemote.Auth
import SimpleRemote.Sealed
import SimpleRemote.Signaling.Room
import SimpleRemote.Signaling.Sockets
import SimpleRemote.Signaling.Ownership
import SimpleRemote.Signaling.Notices
import SimpleRemote.Signaling.Handling
import SimpleRemote.Signaling.Pairing
import SimpleRemote.Signaling.Slot
import SimpleRemote.Signaling.Settled
import SimpleRemote.Signaling.Inert
import SimpleRemote.Signaling.Takeover
import SimpleRemote.Signaling.Wire
import SimpleRemote.Signaling.Mirror
import SimpleRemote.Signaling.RateLimit
import SimpleRemote.Transport.Url
import SimpleRemote.Transport.Channel
import SimpleRemote.Transport.Peer
import SimpleRemote.Transport.Control
import SimpleRemote.Transport.Queue
import SimpleRemote.Transport.Hub
import SimpleRemote.Transport.Lost
import SimpleRemote.Transport.Stray
import SimpleRemote.Transport.Overdue
import SimpleRemote.Host.Backoff
import SimpleRemote.Host.Session
import SimpleRemote.Host.Progress
import SimpleRemote.Host.Gate
import SimpleRemote.Host.Serve
import SimpleRemote.Host.Guessing
import SimpleRemote.Host.Register
import SimpleRemote.Host.Accounting
import SimpleRemote.Host.Approver
import SimpleRemote.Host.Silence
import SimpleRemote.Signaling.Registration
import SimpleRemote.Signing
import SimpleRemote.Viewer.Connect
import SimpleRemote.Viewer.Progress
import SimpleRemote.Disclosure
import SimpleRemote.Viewer.FailClosed
import SimpleRemote.Library.Conformance
import SimpleRemote.Transport.FakeSignal
import SimpleRemote.Transport.Waiting
import SimpleRemote.Meeting.Setting
import SimpleRemote.RoundTrip
import SimpleRemote.Meeting.Viewer
import SimpleRemote.Meeting.Host
import SimpleRemote.Meeting.Step
import SimpleRemote.Meeting.Coherence
import SimpleRemote.Meeting.Lockstep
import SimpleRemote.Meeting.Outcome
import SimpleRemote.Meeting.Ends
import SimpleRemote.Host.Pong
import SimpleRemote.Viewer.Ping
import SimpleRemote.Pinging
import SimpleRemote.Flooding
import SimpleRemote.Viewer.Describe
import SimpleRemote.Announced
import SimpleRemote.Host.Sturdy
import SimpleRemote.Serving.Service
import SimpleRemote.Serving.Isolation
import SimpleRemote.Serving.Steady
import SimpleRemote.Hostile.World
import SimpleRemote.Hostile.Runs
import SimpleRemote.Hostile.Agreement
import SimpleRemote.Library.Threads
import SimpleRemote.Library.Digits
import SimpleRemote.Library.Sampling
import SimpleRemote.Code
import SimpleRemote.Signaling.Worker
import SimpleRemote.Signaling.Ids
import SimpleRemote.Signaling.Throttle
import SimpleRemote.Signaling.Rooms
import SimpleRemote.Library.Handlers
import SimpleRemote.Host.Main
import SimpleRemote.Host.Conduct
import SimpleRemote.Host.Screen
import SimpleRemote.Host.Console
import SimpleRemote.Host.Output
import SimpleRemote.Transport.Link
import SimpleRemote.Serving.Socket
import SimpleRemote.Serving.Wired
import SimpleRemote.Viewer.Main
import SimpleRemote.Viewer.Conduct
import SimpleRemote.Hostile.Admission
import SimpleRemote.Viewer.Output
import SimpleRemote.Introduction
import SimpleRemote.Library.Flags
import SimpleRemote.Arguments
import SimpleRemote.Host.Hold
import SimpleRemote.Viewer.Patience
import SimpleRemote.Transport.Clock
import SimpleRemote.Meeting.Clocks
import SimpleRemote.Meeting.Seat

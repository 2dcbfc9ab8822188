import EscPlatform.Lib.Bytes
import EscPlatform.Lib.TracedReads
import EscPlatform.Osc.Types
import EscPlatform.Osc.OutboundPacketStream
import EscPlatform.Osc.Sender
import EscPlatform.Osc.ReceivedElements
import EscPlatform.Osc.Listener
import EscPlatform.Osc.Encoding
import EscPlatform.Osc.StreamWrites
import EscPlatform.Osc.Format
import EscPlatform.Osc.ArgumentReads
import EscPlatform.Osc.MessageReads
import EscPlatform.Osc.MessageBounds
import EscPlatform.Osc.BundleReads
import EscPlatform.Osc.ListenerLaws
import EscPlatform.Osc.RoundTrip
import EscPlatform.Lib.Runs
import EscPlatform.Lib.Ledger
import EscPlatform.Xmpp.Gloox
import EscPlatform.Xmpp.AccountRegistration
import EscPlatform.Xmpp.Listener
import EscPlatform.Xmpp.Client
import EscPlatform.Xmpp.Plugin
import EscPlatform.Xmpp.ConnectionLaws
import EscPlatform.Xmpp.RegistrationLaws
import EscPlatform.Xmpp.RosterLaws
import EscPlatform.Xmpp.BroadcastLaws
import EscPlatform.Xmpp.SessionLaws
import EscPlatform.Osc.StreamOperations
import EscPlatform.Osc.StreamLaws
import EscPlatform.Osc.WideWords
import EscPlatform.Osc.Builds
import EscPlatform.Osc.PacketSizes
import EscPlatform.Osc.ListenerThread
import EscPlatform.Osc.MessageDelivery
import EscPlatform.Osc.ArgumentWalks
import EscPlatform.Xmpp.ConnectSteps
import EscPlatform.Xmpp.PluginCalls
import EscPlatform.Xmpp.GameCallLaws
import EscPlatform.Xmpp.ListenerThreads
import EscPlatform.Lib.Checked
import EscPlatform.Docent.GameModel
import EscPlatform.Docent.GameModelLaws
import EscPlatform.Osc.BundleScan
import EscPlatform.Lib.AppendLoops
import EscPlatform.Osc.Copies
import EscPlatform.Xmpp.ReconnectLaws
import EscPlatform.Xmpp.Polling
import EscPlatform.Xmpp.PresenceSignals
import EscPlatform.Xmpp.FailedConnects
import EscPlatform.Lib.Dictionaries
import EscPlatform.Setup.Plists
import EscPlatform.Setup.UpdateGames
import EscPlatform.Setup.UpdateTurns
import EscPlatform.Setup.ContainedPasses
import EscPlatform.Setup.OwnTurns
import EscPlatform.Setup.UpdateGamesLaws
import EscPlatform.Setup.ExecutableLaws
import EscPlatform.Setup.LauncherLaws
import EscPlatform.Setup.SecondPass
import EscPlatform.Lib.Clusters
import EscPlatform.Docent.EventTexts
import EscPlatform.Docent.GameLists
import EscPlatform.Docent.AdvancedSettings
import EscPlatform.Docent.ViewControllers
import EscPlatform.Docent.EventEffects
import EscPlatform.Docent.PauseLaws
import EscPlatform.Docent.ReadinessLaws
import EscPlatform.Lib.Brackets
import EscPlatform.Lib.Simulation
import EscPlatform.Lib.DueQueues
import EscPlatform.Osc.Drafts
import EscPlatform.Osc.DraftStreams
import EscPlatform.Osc.PacketPrograms
import EscPlatform.Osc.TreeReads
import EscPlatform.Osc.PrintElements
import EscPlatform.Osc.PrintLaws
import EscPlatform.Osc.PrintIndents
import EscPlatform.Osc.Multiplexer
import EscPlatform.Osc.MultiplexerTurns
import EscPlatform.Osc.MultiplexerLaws
import EscPlatform.Osc.ListeningSocket
import EscPlatform.Osc.ArgumentStream
import EscPlatform.Osc.MessageMapping
import EscPlatform.Lib.Separated
import EscPlatform.Osc.Endpoints
import EscPlatform.Osc.EchoClient
import EscPlatform.Osc.EchoSizes
import EscPlatform.Osc.EchoLaws
import EscPlatform.Lib.Mailboxes
import EscPlatform.Xmpp.Mail
import EscPlatform.Xmpp.Network
import EscPlatform.Xmpp.NetworkLaws
import EscPlatform.Device.Keychain
import EscPlatform.Device.KeychainLaws

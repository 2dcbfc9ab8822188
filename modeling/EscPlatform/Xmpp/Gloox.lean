-- What the plugin uses of gloox, the XMPP library: its enumerations, and a
-- client object with the stanzas that were handed to it. The library itself
-- is not part of the repository, so a client reports its stream through the
-- callbacks and nothing else.
import Mathlib.Data.List.Basic

namespace esc_platform.xmpp

/-! ## Enumerations -/

/-- `gloox::ConnectionError`. -/
inductive ConnectionError
  | connNoError | connStreamError | connStreamVersionError | connStreamClosed
  | connProxyAuthRequired | connProxyAuthFailed | connProxyNoSupportedAuth
  | connIoError | connParseError | connConnectionRefused | connDnsError | connOutOfMemory
  | connNoSupportedAuth | connTlsFailed | connTlsNotAvailable | connCompressionFailed
  | connAuthenticationFailed | connUserDisconnected | connNotConnected
  deriving DecidableEq, Repr

/-- `gloox::Presence::PresenceType`. -/
inductive PresenceType
  | available | chat | away | dnd | xa | unavailable | probe | error | invalid
  deriving DecidableEq, Repr

/-- The value of the enumerator. -/
def PresenceType.toNat : PresenceType → Nat
  | .available => 0
  | .chat => 1
  | .away => 2
  | .dnd => 3
  | .xa => 4
  | .unavailable => 5
  | .probe => 6
  | .error => 7
  | .invalid => 8

/-! ## Clients -/

/-- A bare address as the text that the constructor of `gloox::JID` gets. -/
abbrev JID := String

inductive Stanza
  /-- `Message( Message::Chat, recipient, message, subject )`. -/
  | message (recipient : JID) (body subject : String)
  /-- `Subscription( Subscription::Subscribe, recipient )`. -/
  | subscribe (recipient : JID)
  deriving DecidableEq, Repr

/-- A `gloox::Client`. -/
structure GlooxClient where
  jid : JID
  password : String
  port : Int
  /-- Its stream is open: it reported `onTLSConnect` or `onConnect`, and no `onDisconnect` since. -/
  isOpen : Bool := false
  /-- The stanzas that `send` got, the oldest first. -/
  sent : List Stanza := []
  deriving DecidableEq, Repr

/-- A `gloox::RosterItem`: the user name of its `jidJID()`. -/
structure RosterItem where
  username : String
  deriving DecidableEq, Repr

/-- A `gloox::Roster`, in the order of its map. Two items can have one user name on different
servers. -/
abbrev Roster := List RosterItem

end esc_platform.xmpp

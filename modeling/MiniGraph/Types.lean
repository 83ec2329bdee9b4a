import Mathlib.Init

/-!
# Shared types (`src/types.rs`)
-/

namespace MiniGraph

abbrev ClientId := String
abbrev DocumentId := String

inductive WebSocketError where
  | invalidMessage (msg : String)
  | notInRoom
  | sendFailed
  | connectionError (msg : String)
deriving DecidableEq, Repr

def WebSocketError.toString : WebSocketError → String
  | .invalidMessage msg => "Invalid message: " ++ msg
  | .notInRoom => "Must join a room before sending messages"
  | .sendFailed => "Failed to send message to client"
  | .connectionError msg => "Connection error: " ++ msg

inductive RoomCommandError where
  | channelFull
  | channelClosed
deriving DecidableEq, Repr

inductive ClientMessage where
  | join (documentId : DocumentId)
  | sendMessage (text : String)
  | sendMessageTo (documentId : DocumentId) (text : String)
deriving DecidableEq, Repr

inductive ServerMessage where
  | joined (clientId : ClientId) (documentId : DocumentId)
  | message («from» : ClientId) (text : String) (timestamp : UInt64)
  | invalidation (hints : List String) (timestamp : UInt64)
  | error (message : String)
deriving DecidableEq, Repr

/-- `now` is what the clock shows, in milliseconds. -/
def ServerMessage.newMessage («from» : ClientId) (text : String) (now : UInt64) : ServerMessage :=
  .message «from» text now

end MiniGraph

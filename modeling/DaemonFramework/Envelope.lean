import DaemonFramework.Json

/-!
# API errors

The error responses of `shelllist-daemon-core/src/envelope.rs`, as the values that are then written
out as text.
-/

namespace DaemonFramework

/-- The identity in every versioned response. -/
structure ApiIdentity where
  /-- The name of the protocol. -/
  protocol : String
  /-- Its version. -/
  version : UInt32

/-- The fields that API errors have in common. -/
structure ApiError where
  /-- What went wrong, for the caller's program. -/
  code : String
  /-- What went wrong, for its user. -/
  message : String
  /-- Whether trying again can help. -/
  retryable : Option Bool
  /-- Anything else. -/
  details : Option Value

namespace ApiError

/-- An error with a code and a message. -/
def new (code message : String) : ApiError := ⟨code, message, none, none⟩

/-- `with_retryable`. -/
def withRetryable (e : ApiError) (retryable : Bool) : ApiError :=
  { e with retryable := some retryable }

/-- The fields of the error, without those that are absent. -/
def intoValue (e : ApiError) : Value :=
  let value := Value.object [("code", .string e.code), ("message", .string e.message)]
  let value := e.retryable.elim value fun flag => value.setField "retryable" (.bool flag)
  e.details.elim value fun details => value.setField "details" details

end ApiError

/-- An error response. -/
def error (api : ApiIdentity) (e : ApiError) : Value :=
  (Value.object [("ok", .bool false), ("protocol", .string api.protocol),
    ("version", .number (.posInt api.version.toUInt64))]).setField "error" e.intoValue

end DaemonFramework

import Posta.Contracts.Redact

/-!
# Lookups in Redis

A lookup races with a timer. What loses the race settles unseen.
-/

namespace Posta.Api

open Js

/-- What comes first: the operation settles, or the timer fires. -/
inductive Race (α : Type) where
  | operation (result : Except Thrown α)
  | timer

/-- `withRedisTimeout`. `none` is `REDIS_TIMEOUT_MARKER`. -/
def withRedisTimeout {α : Type} : Race α → Except Thrown (Option α)
  | .operation (.ok a) => .ok (some a)
  | .operation (.error error) => .error error
  | .timer => .ok none

def describeError (platform : Platform) (error : Thrown) : JsString :=
  redactCredentialsFromMessage platform error.errorMessage

end Posta.Api

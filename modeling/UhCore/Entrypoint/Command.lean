import UhCore.Types

/-!
What the handler of a request throws: a `command_exception`, which names the
error response, or another exception.
-/

namespace UhCore.Entrypoint

inductive Status where
  | ok
  | noContent
  | partialContent
  | badRequest
  | forbidden
  | notFound
  | methodNotAllowed
  | conflict
  | preconditionFailed
  | internalServerError
  | notImplemented
  deriving DecidableEq, Repr

/-- `command_exception`: what a request is answered with when it fails. -/
structure CommandError where
  status : Status
  code : String
  reason : String
  deriving DecidableEq, Repr

inductive Failure where
  | command (error : CommandError)
  | exception (exn : Exn)
  deriving DecidableEq, Repr

end UhCore.Entrypoint

import UhCore.Entrypoint.ChunkFrames
import UhCore.Entrypoint.CommandFactory
import UhCore.Entrypoint.Policy.Parser

/-!
The requests of one connection. Each round of the handler reads a request from
the stream and answers it; whatever ends the round, the next one starts with
the first byte that was not read.
-/

namespace UhCore.Entrypoint

open Effects Http

/-- What a round is answered with by all that is not on the connection. -/
structure Answers (ρ : Type) where
  services : Services
  cors : Request → Except Failure (Option ρ)
  policy : Request → Command → Except Failure Policies.Effect
  validate : Command → Request → Except Failure Unit
  bucketExists : Request → Except Failure Unit
  dedupe : List Text → Option Failure
  finish : Command → Request → Text → Except Failure ρ

namespace Answers

variable {ρ : Type} (answers : Answers ρ)

def accessDenied (command : Command) (req : Request) : Failure :=
  .command ⟨.forbidden, "AccessDenied",
    "You do not have " ++ command.actionId ++ " permissions to the requested S3 Prefix" ++
      String.ofList req.raw.path ++ "."⟩

def checkPolicy (command : Command) (req : Request) : Effect SocketStream Thrown Unit :=
  if req.user.superUser then pure ()
  else do
    let effect ← orFail (answers.policy req command)
    raise (if effect = .deny then some (.failure (accessDenied command req)) else none)

/-- Two commands have a validation. -/
def validateCommand (command : Command) (req : Request) : Except Failure Unit :=
  match command with
  | .putObject | .multipart => answers.validate command req
  | _ => .ok ()

/-- What a command does before it reads the body. -/
def prepare (command : Command) (req : Request) : Effect SocketStream Thrown Unit :=
  match command with
  | .putObject =>
    match req.header "Content-Length".toList with
    | none => throw (.failure (.exception (.outOfRange "Content-Length")))
    | some contentLength => do
      let _ ← orThrow (answers.services.stoul contentLength)
  | .deleteObjects => orFail (answers.bucketExists req)
  | _ => pure ()

/-- What a command reads of the body: all of it in one buffer, all of it piece
by piece, or nothing. -/
def readBody (command : Command) (body : BodyState) : Effect SocketStream Thrown Text :=
  match command with
  | .putObject | .multipart => do
    body.deduplicate answers.services.crypto answers.dedupe
    return []
  | .putBucketVersioning | .deleteObjects | .putBucketPolicy | .putBucketCors
  | .completeMultipart => body.copyToBuffer answers.services.crypto
  | _ => pure []

/-- `handle` of a command -/
def execute (command : Command) (req : Request) (body : BodyState) :
    Effect SocketStream Thrown ρ := do
  answers.prepare command req
  let text ← answers.readBody command body
  orFail (answers.finish command req text)

/-- `handler::handle_request` behind the CORS check. The interim response that a
client may expect does not change what is read. -/
def perform (req : Request) (body : BodyState) : Effect SocketStream Thrown ρ := do
  let (command, req) ← Command.create answers.services req body
  answers.checkPolicy command req
  orFail (answers.validateCommand command req)
  answers.execute command req body

def respond (req : Request) (body : BodyState) : Effect SocketStream Thrown ρ := do
  match ← orFail (answers.cors req) with
  | some response => return response
  | none => answers.perform req body

/-- `handler::handle_request` -/
def handleRequest : Effect SocketStream Thrown ρ := do
  SocketStream.consume
  let (req, body) ← answers.services.create
  answers.respond req body

end Answers

/-- The bytes at which the rounds of `handler::handle` start to parse a request,
for as many rounds as there are answers. An exception is answered with an error
response, but for that of a closed connection. -/
def handle {ρ : Type} : List (Answers ρ) → SocketStream → List Text
  | [], _ => []
  | answers :: rest, s =>
    s.unread :: match run answers.handleRequest s with
      | (.error .endOfFile, _) => []
      | (_, s') => handle rest s'

end UhCore.Entrypoint

import UhCore.Directory.Tables
import UhCore.Lib.Transition

/-!
The parties at the directory: clients that put and delete objects, garbage
collectors, and readers. Each is a session that takes one statement at a time.

A collector claims a row with `vrm_next_deleted`, passes its address to
`gdv.unlink` and removes the row. A reader takes the address, the metadata and
a reference in three calls and then holds a lock until it is released. Every
session may crash between two statements, which also stands for an address
that does not decode; a held lock is only given back by its release.
-/

namespace UhCore.Directory

open ReadCommitted Transition

inductive Request where
  | putObject (bucket name : String) (address : List UInt8) (size : Nat) (etag : Option String)
  | deleteObject (bucket name : String)
  | deleteObjectVersion (bucket name : String) (version : Nat)
  | deleteObjectNullVersion (bucket name : String)
  | setBucketVersioning (bucket : String) (versioning : Versioning)

def Request.script : Request → Sql Unit
  | .putObject bucket name address size etag => do
    let _ ← vrmPutObject bucket name address size etag
  | .deleteObject bucket name => do
    let _ ← vrmDeleteObject bucket name
  | .deleteObjectVersion bucket name version => do
    let _ ← vrmDeleteObjectVersion bucket name version
  | .deleteObjectNullVersion bucket name => do
    let _ ← vrmDeleteObjectNullVersion bucket name
  | .setBucketVersioning bucket versioning => vrmBucketSetVersioning bucket versioning

/-- The object a reader asks for. -/
structure ObjectQuery where
  bucket : String
  name : String
  version : Option Nat

def ObjectQuery.script (query : ObjectQuery) : Sql (Option ObjectResult) :=
  match query.version with
  | some version => vrmGetObjectByVersion query.bucket query.name version
  | none => vrmGetObject query.bucket query.name

/-- What `directory::get_object` returns: the address, and the metadata of the
second query. `source` is the row that the address was read from, which the
code does not know. -/
structure ObjectLock where
  source : Nat
  address : List UInt8
  id : Nat
  size : Nat
  etag : Option String
  version : Option Nat
  deriving DecidableEq, Repr

def ObjectLock.of (source object : ObjectResult) : ObjectLock :=
  ⟨source.id, source.address, object.id, object.size, object.etag, object.version⟩

inductive Session where
  | idle
  | client (tx : Transaction Tables Write Unit)
  | nextDeleted (tx : Transaction Tables Write (Option ToDelete))
  | unlinking (target : ToDelete)
  | removing (target : ToDelete) (tx : Transaction Tables Write Unit)
  | address (query : ObjectQuery) (tx : Transaction Tables Write (Option ObjectResult))
  | metadata (query : ObjectQuery) (source : ObjectResult)
      (tx : Transaction Tables Write (Option ObjectResult))
  | reference (source object : ObjectResult) (tx : Transaction Tables Write Unit)
  | holding (lock : ObjectLock)
  | releasing (lock : ObjectLock) (tx : Transaction Tables Write Unit)

/-- `unlinks` is the sequence of the calls of `gdv.unlink`, with the rows they
were made for. -/
structure World where
  tables : Tables
  nextId : Nat
  sessions : List Session
  unlinks : List ToDelete

def start (versioning : String → Versioning) : World :=
  ⟨⟨KeyMap.empty, fun _ => 0, versioning⟩, 0, [], []⟩

inductive Action where
  | connect
  | request (pid : Nat) (request : Request)
  | collect (pid : Nat)
  | getObject (pid : Nat) (query : ObjectQuery)
  | release (pid : Nat)
  | step (pid choice : Nat)
  | crash (pid : Nat)

def World.set (w : World) (pid : Nat) (session : Session) : World :=
  { w with sessions := w.sessions.set pid session }

def World.run {α : Type} (w : World) (pid choice : Nat) (tx : Transaction Tables Write α)
    (resume : Transaction Tables Write α → Session) (finish : α → Session) : World :=
  match tx.step Tables.apply w.tables w.nextId choice with
  | .running next tx' => { w with nextId := next, sessions := w.sessions.set pid (resume tx') }
  | .committed tables result =>
    { w with tables := tables, sessions := w.sessions.set pid (finish result) }
  | .failed => w.set pid .idle

/-- `garbage_collector::collect` after `next_deleted`. -/
def Session.claimed : Option ToDelete → Session
  | some target => .unlinking target
  | none => .idle

/-- `directory::get_object` after the address query. -/
def Session.found (query : ObjectQuery) : Option ObjectResult → Session
  | some source => .metadata query source (.start query.script)
  | none => .idle

/-- `directory::get_object` after the metadata query. -/
def Session.described (source : ObjectResult) : Option ObjectResult → Session
  | some object => .reference source object (.start (vrmIncReference object.id))
  | none => .idle

def World.unlink (w : World) (pid : Nat) (target : ToDelete) : World :=
  { w with
    unlinks := w.unlinks ++ [target]
    sessions := w.sessions.set pid (.removing target (.start (vrmDeleteObjectById target.id))) }

def World.advance (w : World) (pid choice : Nat) : Option World :=
  match w.sessions[pid]? with
  | none | some .idle | some (.holding _) => none
  | some (.client tx) => some (w.run pid choice tx .client fun _ => .idle)
  | some (.nextDeleted tx) => some (w.run pid choice tx .nextDeleted .claimed)
  | some (.unlinking target) => some (w.unlink pid target)
  | some (.removing target tx) => some (w.run pid choice tx (.removing target) fun _ => .idle)
  | some (.address query tx) => some (w.run pid choice tx (.address query) (.found query))
  | some (.metadata query source tx) =>
    some (w.run pid choice tx (.metadata query source) (.described source))
  | some (.reference source object tx) =>
    some (w.run pid choice tx (.reference source object) fun _ =>
      .holding (.of source object))
  | some (.releasing lock tx) => some (w.run pid choice tx (.releasing lock) fun _ => .idle)

def World.begin (w : World) (pid : Nat) (session : Session) : Option World :=
  match w.sessions[pid]? with
  | some .idle => some (w.set pid session)
  | _ => none

def next (w : World) : Action → Option World
  | .connect => some { w with sessions := w.sessions ++ [.idle] }
  | .request pid request => w.begin pid (.client (.start request.script))
  | .collect pid => w.begin pid (.nextDeleted (.start vrmNextDeleted))
  | .getObject pid query => w.begin pid (.address query (.start query.script))
  | .release pid =>
    match w.sessions[pid]? with
    | some (.holding lock) =>
      some (w.set pid (.releasing lock (.start (vrmDecReference lock.id))))
    | _ => none
  | .step pid choice => w.advance pid choice
  | .crash pid =>
    match w.sessions[pid]? with
    | none | some (.holding _) | some (.releasing _ _) => none
    | some _ => some (w.set pid .idle)

end UhCore.Directory

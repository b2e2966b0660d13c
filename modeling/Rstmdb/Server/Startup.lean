import Rstmdb.Core.Replay
import Rstmdb.Server.Handler

/-! The start of the server, on the directories that it finds. -/
namespace Rstmdb

structure ServerConfig where
  wal : WalConfig
  auth : AuthConfig
  maxMachineVersions : UInt32

inductive StartError
  | noTokens
  | core (e : CoreError)
  | storage (e : StorageError)
  deriving DecidableEq, Repr

def defaultBroadcastCapacity : Nat := 1024

/-- A running server. The compaction manager has a store of its own on the
snapshot directory. -/
structure Server where
  handler : CommandHandler
  shared : Shared
  compaction : SnapshotStore

namespace Server

/-- `main`, after so many identifiers have been drawn. -/
def start (X : ServerExternals) (config : ServerConfig) (walDir : Dir) (snapshotDir : SnapshotDir)
    (uuids : Nat) : Option (Except StartError Server) :=
  if config.auth.required && config.auth.tokenHashes.isEmpty then some (.error .noTokens)
  else
    match Engine.new X.toCoreExternals config.wal walDir with
    | none => none
    | some (.error e) => some (.error (.core e))
    | some (.ok engine) =>
      match SnapshotStore.openDir X.toStorageExternals snapshotDir with
      | .error e => some (.error (.storage e))
      | .ok compaction =>
        match SnapshotStore.openDir X.toStorageExternals snapshotDir with
        | .error e => some (.error (.storage e))
        | .ok store =>
          some (.ok {
            handler := .withAuth config.auth config.maxMachineVersions
            shared := ⟨engine, some store, snapshotDir, some (.new defaultBroadcastCapacity), uuids⟩
            compaction })

/-- The server on empty directories. -/
def fresh (config : ServerConfig) : Server where
  handler := .withAuth config.auth config.maxMachineVersions
  shared := ⟨Engine.fresh config.wal, some ⟨∅⟩, .empty, some (.new defaultBroadcastCapacity), 0⟩
  compaction := ⟨∅⟩

section
variable {X : ServerExternals} {config : ServerConfig}

theorem start_empty (tokens : (config.auth.required && config.auth.tokenHashes.isEmpty) = false) :
    start X config ∅ .empty 0 = some (.ok (fresh config)) := by
  simp only [start, tokens, Bool.false_eq_true, if_false, Engine.new_empty,
    SnapshotStore.openDir, SnapshotDir.empty]
  rfl

end

end Server

/-! ## Requests for the machine with one state -/

/-- No authentication, and segments of this many bytes. -/
def openConfig (segmentSize : Nat) : ServerConfig :=
  ⟨⟨segmentSize, .everyWrite⟩, ⟨false, []⟩, 0⟩

open Json (Value)

def putLoop : Request :=
  ⟨"1", .putMachine, .object [("definition", Engine.loopMachine), ("machine", .string "m"),
    ("version", .nat 1)]⟩

/-- A request for an instance, with the fields for its context. -/
def createLoop (id : String) (ctx : List (String × Value)) : Request :=
  ⟨"2", .createInstance, .object (ctx ++ [("instance_id", .string id), ("machine", .string "m"),
    ("version", .nat 1)])⟩

def applyLoop (id : String) (payload : Value) : Request :=
  ⟨"3", .applyEvent, .object [("event", .string "e"), ("instance_id", .string id),
    ("payload", payload)]⟩

/-- Requests of sessions that need not authenticate. -/
def anonymous (requests : List Request) : List (Session × Request) :=
  requests.map (Session.new false, ·)

end Rstmdb

import NexusDb.Database.Database
import NexusDb.Buffer.Client

namespace NexusDb

-- The use of an open database: the users of its pool, with their handles, and its executor.
structure Session where
  client   : Client Disk
  executor : QueryExecutor

inductive Action
  | pool (op : PoolOp)
  | query (q : Query)

namespace Session

def start (db : Database) : Session where
  client   := { pool := db.pool }
  executor := db.executor

-- The users of the pool do not write to the storage themselves.
def step (s : Session) : Action → Session
  | .pool .allocate   => s
  | .pool (.write _)  => s
  | .pool op          => { s with client := (s.client.step op).snd }
  | .query q          =>
    match (q.run s.executor).exec s.client.pool with
    | (none, pool)               => { s with client := { s.client with pool } }
    | (some (_, executor), pool) => { client := { s.client with pool }, executor }

def run (s : Session) : List Action → Session
  | []      => s
  | a :: as => (s.step a).run as

-- What happened to the files since the pool was created.
def trace (s : Session) : List FileEvent :=
  s.client.pool.dev.trace

end Session
end NexusDb

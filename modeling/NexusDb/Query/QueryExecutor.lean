import NexusDb.Catalog.Catalog

namespace NexusDb

@[ext]
structure QueryExecutor where
  catalog : Catalog

namespace QueryExecutor

def create : Prog (Except Error QueryExecutor) := do
  match ← Catalog.create with
  | .error e    => return .error e
  | .ok catalog => return .ok { catalog }

def «open» (catalogRoot : PageId) : Prog (Except Error QueryExecutor) := do
  match ← Catalog.open catalogRoot with
  | .error e    => return .error e
  | .ok catalog => return .ok { catalog }

def tableExists (q : QueryExecutor) (name : Bytes) : Bool :=
  q.catalog.exists name

def listTables (q : QueryExecutor) : List Bytes :=
  q.catalog.listTables

def createTable (q : QueryExecutor) (name : Bytes) : Prog (Status × QueryExecutor) := do
  match ← q.catalog.createTable name with
  | (.error e, catalog) => return (.error e, { catalog })
  | (.ok _, catalog)    => return (.ok (), { catalog })

-- The name is looked up twice, here and in the catalog.
def openTable (q : QueryExecutor) (name : Bytes) : Prog (Except Error HeapTable) :=
  match q.catalog.findTable name with
  | .error e => return .error e
  | .ok _    => q.catalog.openTable name

def insert (q : QueryExecutor) (table : Bytes) (record : Option Bytes) (out : Bool) :
    Prog (Except Error RecordId) := do
  match ← q.openTable table with
  | .error e => return .error e
  | .ok heap => return (← heap.insert record out).fst

def get (q : QueryExecutor) (table : Bytes) (id : RecordId) (out : Bool) : Prog (Except Error Bytes) := do
  match ← q.openTable table with
  | .error e => return .error e
  | .ok heap => heap.get id out

def update (q : QueryExecutor) (table : Bytes) (id : RecordId) (record : Option Bytes) : Prog Status := do
  match ← q.openTable table with
  | .error e => return .error e
  | .ok heap => heap.update id record

def delete (q : QueryExecutor) (table : Bytes) (id : RecordId) : Prog Status := do
  match ← q.openTable table with
  | .error e => return .error e
  | .ok heap => heap.delete id

def scan (q : QueryExecutor) (table : Bytes) (fn : Option (σ → RecordId → Bytes → σ × Bool)) (ctx : σ) :
    Prog (Status × σ) := do
  match ← q.openTable table with
  | .error e => return (.error e, ctx)
  | .ok heap => heap.scan fn ctx

end QueryExecutor

-- The calls that a user of the executor makes. The visitor of a scan says whether to go on, the
-- records that it was called with are part of the answer.
inductive Query
  | createTable (name : Bytes)
  | listTables
  | insert (table : Bytes) (record : Option Bytes)
  | get (table : Bytes) (id : RecordId)
  | update (table : Bytes) (id : RecordId) (record : Option Bytes)
  | delete (table : Bytes) (id : RecordId)
  | scan (table : Bytes) (visitor : Option (RecordId → Bytes → Bool))

inductive Answer
  | status (s : Status)
  | tables (names : List Bytes)
  | inserted (r : Except Error RecordId)
  | record (r : Except Error Bytes)
  | visited (s : Status) (records : List (RecordId × Bytes))

-- The error that an answer reports.
def Answer.error? : Answer → Option Error
  | status (.error e)    => some e
  | inserted (.error e)  => some e
  | record (.error e)    => some e
  | visited (.error e) _ => some e
  | _                    => none

namespace Query

def collect (visitor : RecordId → Bytes → Bool) (seen : List (RecordId × Bytes)) (id : RecordId)
    (data : Bytes) : List (RecordId × Bytes) × Bool :=
  (seen ++ [(id, data)], visitor id data)

def run (q : QueryExecutor) : Query → Prog (Answer × QueryExecutor)
  | createTable name       => do
    let (s, q) ← q.createTable name
    return (.status s, q)
  | listTables             => return (.tables q.listTables, q)
  | insert table record    => return (.inserted (← q.insert table record true), q)
  | get table id           => return (.record (← q.get table id true), q)
  | update table id record => return (.status (← q.update table id record), q)
  | delete table id        => return (.status (← q.delete table id), q)
  | scan table visitor     => do
    let (s, seen) ← q.scan table (visitor.map collect) []
    return (.visited s seen, q)

end Query
end NexusDb

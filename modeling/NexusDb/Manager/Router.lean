import NexusDb.Manager.Host

namespace NexusDb.Cli

def hexVal (c : Char) : Option Nat :=
  if '0' ≤ c ∧ c ≤ '9' then
    some (c.toNat - '0'.toNat)
  else if 'a' ≤ c ∧ c ≤ 'f' then
    some (c.toNat - 'a'.toNat + 10)
  else if 'A' ≤ c ∧ c ≤ 'F' then
    some (c.toNat - 'A'.toNat + 10)
  else
    none

-- The loop of `HexDecode`, over the pairs of characters.
def hexPairs : Text → Option Bytes
  | hi :: lo :: cs =>
    match hexVal hi, hexVal lo with
    | some hi, some lo => (hexPairs cs).map (UInt8.ofNat (hi <<< 4 ||| lo) :: ·)
    | _,       _       => none
  | _              => some []

def hexDecode (text : Text) : Option Bytes :=
  if text.length % 2 ≠ 0 then none else hexPairs text

def hexDigit (i : UInt8) : Char :=
  "0123456789abcdef".toList.getD i.toNat '\x00'

def hexEncode (data : Bytes) : Text :=
  data.flatMap fun b : UInt8 => [hexDigit (b >>> 4 &&& 0xF), hexDigit (b &&& 0xF)]

-- The loop of `ParseUint`, with the arithmetic of `std::uint64_t`.
def uintDigits (max value : UInt64) : Text → Option UInt64
  | []      => some value
  | c :: cs =>
    if c < '0' ∨ c > '9' then
      none
    else
      let digit := UInt64.ofNat (c.toNat - '0'.toNat)
      if value > max / 10 then
        none
      else
        let value := value * 10
        if digit > max - value then none else uintDigits max (value + digit) cs

def parseUint (text : Text) (max : UInt64) : Option UInt64 :=
  if text = [] then none else uintDigits max 0 text

inductive CliExit
  | ok
  | error
  | usage
  | invalid
  | notFound
deriving DecidableEq

def CliExit.code : CliExit → Nat
  | ok       => 0
  | error    => 1
  | usage    => 2
  | invalid  => 3
  | notFound => 4

inductive CommandKind
  | help
  | containerCreate
  | containerStart
  | containerStop
  | containerStatus
  | containerDelete
  | dbInit
  | tableCreate
  | tableList
  | insert
  | get
  | update
  | delete
  | scan
deriving DecidableEq

structure Command where
  kind   : CommandKind := .help
  name   : Text   := []
  table  : Text   := []
  data   : Bytes  := []
  page   : PageId := 0
  slot   : SlotId := 0
  memory : UInt64 := 0
  cpu    : UInt32 := 0
  engine : Text   := []

structure Result where
  exitCode : CliExit := .ok
  output   : Text    := []

abbrev Parsed := Except Result

def usage (message : Text) : Parsed α :=
  .error ⟨.usage, message⟩

def invalid (message : Text) : Parsed α :=
  .error ⟨.invalid, message⟩

def mapStatus (e : Error) : Result where
  exitCode :=
    match e.code with
    | .invalidArgument => .invalid
    | .notFound        => .notFound
    | _                => .error
  output   := e.message.toList

-- The dash is three bytes.
def helpText : String :=
  "NexusDB \xe2\x80\x94 minimal end-to-end database CLI\n"
    ++ "\n"
    ++ "Usage:\n"
    ++ "  nexusdb help\n"
    ++ "  nexusdb container create <name> [--memory <bytes>] [--cpu <percent>] [--engine <path>]\n"
    ++ "  nexusdb container start <name>\n"
    ++ "  nexusdb container stop <name>\n"
    ++ "  nexusdb container status <name>\n"
    ++ "  nexusdb container delete <name>\n"
    ++ "  nexusdb db init <name>\n"
    ++ "  nexusdb table create <name> <table>\n"
    ++ "  nexusdb table list <name>\n"
    ++ "  nexusdb insert <name> <table> <hex-data>\n"
    ++ "  nexusdb get <name> <table> <page-id> <slot-id>\n"
    ++ "  nexusdb update <name> <table> <page-id> <slot-id> <hex-data>\n"
    ++ "  nexusdb delete <name> <table> <page-id> <slot-id>\n"
    ++ "  nexusdb scan <name> <table>\n"
    ++ "\n"
    ++ "Records are supplied/returned as hexadecimal (even length). The database\n"
    ++ "for <name> lives in $NEXUSDB_DATA_ROOT/<name> (default ./nexusdb_data).\n"
    ++ "A running container holds the database open; stop it before database\n"
    ++ "commands (there is no client/server protocol).\n"
    ++ "\n"
    ++ "Exit codes: 0 ok, 1 operational error, 2 usage, 3 invalid argument, 4 not found.\n"

def maxMemory : UInt64 := 0xFFFFFFFFFFFF

-- The options of `container create`.
def parseFlags (out : Command) : List Text → Parsed Command
  | []                  => .ok out
  | [flag]              => usage ("missing value for ".toList ++ flag)
  | flag :: val :: args =>
    if flag = "--memory".toList then
      match parseUint val maxMemory with
      | none   => invalid ("invalid --memory value: ".toList ++ val)
      | some v => parseFlags { out with memory := v } args
    else if flag = "--cpu".toList then
      match parseUint val 100 with
      | none   => invalid ("invalid --cpu value (0..100): ".toList ++ val)
      | some v => parseFlags { out with cpu := v.toUInt32 } args
    else if flag = "--engine".toList then
      parseFlags { out with engine := val } args
    else
      usage ("unknown flag: ".toList ++ flag)

-- What `get`, `update` and `delete` do with the two arguments that name a record.
def parseRecord (out : Command) (page slot : Text) : Parsed Command :=
  match parseUint page (invalidId.toUInt64 - 1) with
  | none   => invalid ("invalid page id: ".toList ++ page)
  | some v =>
    match parseUint slot 0xFFFF with
    | none    => invalid ("invalid slot id: ".toList ++ slot)
    | some v' => .ok { out with page := v.toUInt32, slot := v'.toUInt16 }

-- What `insert` and `update` do with the bytes of a record.
def parseData (out : Command) (hex : Text) : Parsed Command :=
  match hexDecode hex with
  | none      => invalid ("malformed hex data: ".toList ++ hex)
  | some []   => invalid "record data must be non-empty".toList
  | some data => .ok { out with data }

def parseContainer : List Text → Parsed Command
  | []          => usage "usage: nexusdb container <create|start|stop|status|delete> <name>".toList
  | sub :: args =>
    let only (kind : CommandKind) : Parsed Command :=
      match args with
      | [name] => .ok { kind, name }
      | _      => usage ("usage: nexusdb container ".toList ++ sub ++ " <name>".toList)
    if sub = "create".toList then
      match args with
      | []           => usage <| String.toList <|
        "usage: nexusdb container create <name> [--memory <bytes>] [--cpu <percent>] [--engine <path>]"
      | name :: args => parseFlags { kind := .containerCreate, name } args
    else if sub = "start".toList then
      only .containerStart
    else if sub = "stop".toList then
      only .containerStop
    else if sub = "status".toList then
      only .containerStatus
    else if sub = "delete".toList then
      only .containerDelete
    else
      usage ("unknown container subcommand: ".toList ++ sub)

def parseTable : List Text → Parsed Command
  | []          => usage "usage: nexusdb table <create|list> ...".toList
  | sub :: args =>
    if sub = "create".toList then
      match args with
      | [name, table] => .ok { kind := .tableCreate, name, table }
      | _             => usage "usage: nexusdb table create <name> <table>".toList
    else if sub = "list".toList then
      match args with
      | [name] => .ok { kind := .tableList, name }
      | _      => usage "usage: nexusdb table list <name>".toList
    else
      usage ("unknown table subcommand: ".toList ++ sub)

def parseArgs : List Text → Parsed Command
  | []          => usage "no command given (try `nexusdb help`)".toList
  | cmd :: args =>
    if cmd ∈ ["help".toList, "--help".toList, "-h".toList] then
      .ok { kind := .help }
    else if cmd = "container".toList then
      parseContainer args
    else if cmd = "db".toList then
      match args with
      | [sub, name] =>
        if sub = "init".toList then .ok { kind := .dbInit, name } else usage "usage: nexusdb db init <name>".toList
      | _           => usage "usage: nexusdb db init <name>".toList
    else if cmd = "table".toList then
      parseTable args
    else if cmd = "insert".toList then
      match args with
      | [name, table, hex] => parseData { kind := .insert, name, table } hex
      | _                  => usage "usage: nexusdb insert <name> <table> <hex-data>".toList
    else if cmd = "get".toList then
      match args with
      | [name, table, page, slot] => parseRecord { kind := .get, name, table } page slot
      | _                         => usage "usage: nexusdb get <name> <table> <page-id> <slot-id>".toList
    else if cmd = "update".toList then
      match args with
      | [name, table, page, slot, hex] => do parseData (← parseRecord { kind := .update, name, table } page slot) hex
      | _                              =>
        usage "usage: nexusdb update <name> <table> <page-id> <slot-id> <hex-data>".toList
    else if cmd = "delete".toList then
      match args with
      | [name, table, page, slot] => parseRecord { kind := .delete, name, table } page slot
      | _                         => usage "usage: nexusdb delete <name> <table> <page-id> <slot-id>".toList
    else if cmd = "scan".toList then
      match args with
      | [name, table] => .ok { kind := .scan, name, table }
      | _             => usage "usage: nexusdb scan <name> <table>".toList
    else
      usage ("unknown command: ".toList ++ cmd)

-- What is printed into a buffer of 64 bytes.
def buf (text : Text) : Text :=
  text.take 63

def location (page : PageId) (slot : SlotId) : Text :=
  "page=".toList ++ Decimal.padded 1 page.toNat ++ " slot=".toList ++ Decimal.padded 1 slot.toNat

-- A record as `get` and `scan` print it.
def recordText (page : PageId) (slot : SlotId) (data : Bytes) : Text :=
  buf (location page slot ++ " len=".toList ++ Decimal.padded 1 data.length ++ " hex=".toList) ++ hexEncode data

def scanText : List (RecordId × Bytes) → Text
  | []   => "no records".toList
  | rows => rows.flatMap fun r => recordText r.fst.page r.fst.slot r.snd ++ ['\n']

def tablesText : List Bytes → Text
  | []     => "no tables".toList
  | tables => ['\n'].intercalate (tables.map Bytes.text)

-- The result of a command, with the output when it has succeeded.
def report (output : α → Text) : Except Error α → Result
  | .error e => mapStatus e
  | .ok a    => { output := output a }

def dispatch (h : Host) (env : Environment) (cmd : Command) : Mem (Result × Host) :=
  let { name, table, data, .. } := cmd
  let record : RecordId := ⟨cmd.page, cmd.slot⟩
  let container (output : Text) : Status × World → Mem (Result × Host)
    | (s, world) => some (report (fun () => output) s, { h with world })
  match cmd.kind with
  | .help            => some ({ output := helpText.toList }, h)
  | .containerCreate =>
    container ("created container ".toList ++ name)
      (h.world.containerCreate name cmd.memory cmd.cpu cmd.engine env.outcome)
  | .containerStart  => container ("started container ".toList ++ name) (h.world.containerStart name env.outcome)
  | .containerStop   => container ("stopped container ".toList ++ name) (h.world.containerStop name env.outcome)
  | .containerDelete => container ("deleted container ".toList ++ name) (h.world.containerDelete name env.outcome)
  | .containerStatus =>
    let (s, world) := h.world.containerStatus name env.outcome
    some (report id s, { h with world })
  | .dbInit          => do
    let (s, h) ← h.dbInit name env
    return (report (fun () => "initialized database ".toList ++ name) s, h)
  | .tableCreate     => do
    let (s, h) ← h.tableCreate name table env
    return (report (fun () => "created table ".toList ++ name ++ '.' :: table) s, h)
  | .tableList       => do
    let (s, h) ← h.tableList name env
    return (report tablesText s, h)
  | .insert          => do
    let (s, h) ← h.insert name table data env
    return (report (fun id => buf ("inserted ".toList ++ location id.page id.slot)) s, h)
  | .get             => do
    let (s, h) ← h.get name table record env
    return (report (recordText cmd.page cmd.slot) s, h)
  | .update          => do
    let (s, h) ← h.update name table record data env
    return (report (fun () => buf ("updated ".toList ++ location cmd.page cmd.slot)) s, h)
  | .delete          => do
    let (s, h) ← h.delete name table record env
    return (report (fun () => buf ("deleted ".toList ++ location cmd.page cmd.slot)) s, h)
  | .scan            => do
    let (s, h) ← h.scan name table env
    return (report scanText s, h)

def run (h : Host) (env : Environment) (args : List Text) : Mem (Result × Host) :=
  match parseArgs args with
  | .error r => some (r, h)
  | .ok cmd  => dispatch h env cmd

-- Commands one after the other.
def runAll (h : Host) : List (Environment × List Text) → Mem Host
  | []                  => some h
  | (env, args) :: cmds => do
    let (_, h) ← run h env args
    runAll h cmds

end NexusDb.Cli

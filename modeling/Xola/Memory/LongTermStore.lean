import Mathlib.Order.OrderDual
import Xola.Memory.EpisodeStore

/-!
# Long-term memory

`runtime/src/memory/long_term.rs`: the methods of `LongTermMemory` over the table of
`migrations/0001_create_memories_table.sql`. `F` stands for `f32` and `D` for the distances.

`query` takes a connection out of the pool for its two statements, since the first one sets a parameter
of the session. A future may be dropped at each of its awaits; the answer there is then `none`, and what
is left is to give back the connection.

The database, its vector extension and the pool are not part of the repository. `Pool.Serves` is what
their documentation says, with the distance and what a document reads back as for parameters.
-/

namespace Xola.LongTermMemory

open Interaction

variable {F D : Type}

/-! ## Rows -/

inductive MemoryError where
  | database (msg : String)
  | dimensionMismatch (got : Nat)

def embeddingDim : Nat := 1536

structure MemoryRow (F : Type) where
  id : Uuid
  content : String
  embedding : List F
  metadata : Json
  createdAt : Timestamp

/-- The columns of the selection are the fields of a record. -/
structure MemoryRecord (D : Type) where
  id : Uuid
  content : String
  metadata : Json
  createdAt : Timestamp
  distance : D

/-! ## Statements -/

inductive Command (F : Type) where
  | insert (content : String) (embedding : List F) (metadata : Json)
  | acquire
  | setProbes (conn : Nat) (probes : Nat)
  | select (conn : Nat) (embedding : List F) (limit : Int)
  /-- `drop(conn)`. -/
  | release (conn : Nat)
  | delete (id : Uuid)

/-- What a statement results in; `delete` in the number of rows affected. -/
abbrev Command.Result (D : Type) : Command F → Type
  | .insert _ _ _ => Uuid
  | .acquire => Nat
  | .setProbes _ _ | .release _ => Unit
  | .select _ _ _ => List (MemoryRecord D)
  | .delete _ => Nat

/-- `none` when the future is dropped while it waits. -/
abbrev Command.Answer (D : Type) : Command F → Type
  | .release _ => Unit
  | c => Option (Except String (c.Result D))

inductive Reply (D : Type) where
  | stored (id : Uuid)
  | memories (records : List (MemoryRecord D))
  | deleted (deleted : Bool)
  | dropped

abbrev Db (F D α : Type) := Prog (Command F) (Command.Answer D) MemoryError α

/-! ## Methods -/

/-- What a method makes of the answer to its last statement. -/
def replied {α : Type} (reply : α → Reply D) : Option (Except String α) → Except MemoryError (Reply D)
  | none => .ok .dropped
  | some (.error e) => .error (.database e)
  | some (.ok a) => .ok (reply a)

def store (content : String) (embedding : List F) (metadata : Json) : Db F D (Reply D) :=
  if embedding.length ≠ embeddingDim then .err (.dimensionMismatch embedding.length)
  else .once (.insert content embedding metadata) (replied .stored)

/-- The two statements on the session of the connection. -/
def selectWithProbes (ivfflatProbes : Nat) (embedding : List F) (limit : Int) (conn : Nat) :
    Db F D (Option (Except String (List (MemoryRecord D)))) := do
  match ← Prog.perform (Command.setProbes conn ivfflatProbes) with
  | none => return none
  | some (.error e) => return some (.error e)
  | some (.ok ()) => Prog.perform (Command.select conn embedding limit)

/-- The limit is cast to `i64`. -/
def query (ivfflatProbes : Nat) (embedding : List F) (topK : UInt64) : Db F D (Reply D) :=
  if embedding.length ≠ embeddingDim then .err (.dimensionMismatch embedding.length)
  else do
    match ← Prog.perform Command.acquire with
    | none => return .dropped
    | some (.error e) => .err (.database e)
    | some (.ok conn) =>
      let answer ← selectWithProbes ivfflatProbes embedding topK.toInt64.toInt conn
      let _ ← Prog.perform (Command.release conn)
      Prog.ofExcept (replied .memories answer)

def delete (id : Uuid) : Db F D (Reply D) :=
  .once (.delete id) (replied fun affected : Nat => .deleted (decide (0 < affected)))

/-- A call of one of the methods; a query comes with the probe count of its instance. -/
inductive Call (F : Type) where
  | store (content : String) (embedding : List F) (metadata : Json)
  | query (ivfflatProbes : Nat) (embedding : List F) (topK : UInt64)
  | delete (id : Uuid)

def Call.run : Call F → Db F D (Reply D)
  | .store content embedding metadata => LongTermMemory.store content embedding metadata
  | .query ivfflatProbes embedding topK => LongTermMemory.query ivfflatProbes embedding topK
  | .delete id => LongTermMemory.delete id

/-! ## The database and its pool -/

/-- The lists of the index. -/
def lists : Nat := 100

structure Pgvector (F D : Type) where
  /-- `<=>`. -/
  distance : List F → List F → D
  /-- Nothing for a document that the column does not take. -/
  jsonb : Json → Option Json

/-- `probes` is the parameter of each session, and `held` are the connections that are taken. -/
structure Pool (F : Type) where
  table : List (MemoryRow F)
  probes : Nat → Nat
  held : List Nat

def MemoryRow.record (pg : Pgvector F D) (embedding : List F) (row : MemoryRow F) :
    MemoryRecord D :=
  ⟨row.id, row.content, row.metadata, row.createdAt, pg.distance row.embedding embedding⟩

/-- What a search over some of the lists finds; over all of them it is exact. -/
def Nearest [LE D] (pg : Pgvector F D) (probes : Nat) (embedding : List F) (limit : Nat)
    (rows : List (MemoryRow F)) (records : List (MemoryRecord D)) : Prop :=
  ∃ scanned found : List (MemoryRow F), scanned.Sublist rows ∧ (lists ≤ probes → scanned = rows) ∧
    scanned.Selects (fun row => OrderDual.toDual (pg.distance row.embedding embedding)) limit
      found ∧
    records = found.map (MemoryRow.record pg embedding)

namespace Pool

def setProbes (pool : Pool F) (conn probes : Nat) : Pool F :=
  { pool with probes := Function.update pool.probes conn probes }

/-- The statement succeeds at `now`. A connection may be a new one, so nothing is known of the session
of one that has just been taken. -/
def Executes [LE D] (pg : Pgvector F D) (now : Timestamp) (pool : Pool F) :
    (c : Command F) → c.Result D → Pool F → Prop
  | .insert content embedding metadata, id, pool' =>
    (∀ row ∈ pool.table, row.id ≠ id) ∧ ∃ stored, pg.jsonb metadata = some stored ∧
      pool' = { pool with table := pool.table ++ [⟨id, content, embedding, stored, now⟩] }
  | .acquire, conn, pool' =>
    conn ∉ pool.held ∧ ∃ probes,
      pool' = { pool.setProbes conn probes with held := conn :: pool.held }
  | .setProbes conn probes, _, pool' => pool' = pool.setProbes conn probes
  | .select conn embedding limit, records, pool' =>
    0 ≤ limit ∧ Nearest pg (pool.probes conn) embedding limit.toNat pool.table records ∧
      pool' = pool
  | .release conn, _, pool' => pool' = { pool with held := pool.held.erase conn }
  | .delete id, affected, pool' =>
    affected = pool.table.countP (·.id = id) ∧
      pool' = { pool with table := pool.table.filter (·.id ≠ id) }

/-- A statement that fails, or whose future is dropped, may have been executed, except that then no
connection has been taken. -/
def Unanswered [LE D] (pg : Pgvector F D) (now : Timestamp) (pool : Pool F) (c : Command F)
    (pool' : Pool F) : Prop :=
  pool' = pool ∨ c ≠ .acquire ∧ ∃ result : c.Result D, pool.Executes pg now c result pool'

def Serves [LE D] (pg : Pgvector F D) (now : Timestamp) (pool : Pool F) :
    (c : Command F) → c.Answer D → Pool F → Prop
  | .release conn, answer, pool' => pool.Executes pg now (.release conn) answer pool'
  | .insert content embedding metadata, answer, pool' =>
    served pg now pool (.insert content embedding metadata) answer pool'
  | .acquire, answer, pool' => served pg now pool .acquire answer pool'
  | .setProbes conn probes, answer, pool' => served pg now pool (.setProbes conn probes) answer pool'
  | .select conn embedding limit, answer, pool' =>
    served pg now pool (.select conn embedding limit) answer pool'
  | .delete id, answer, pool' => served pg now pool (.delete id) answer pool'
where
  served (pg : Pgvector F D) (now : Timestamp) (pool : Pool F) (c : Command F) :
      Option (Except String (c.Result D)) → Pool F → Prop
    | some (.ok result), pool' => pool.Executes pg now c result pool'
    | _, pool' => pool.Unanswered pg now c pool'

end Pool

end Xola.LongTermMemory

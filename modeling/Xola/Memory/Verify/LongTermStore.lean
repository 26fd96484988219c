import Xola.Interaction.Wp
import Xola.Memory.LongTermStore
import Xola.Memory.Verify.EpisodeStore

/-!
# Queries with probe counts of their own

The probe count of a query is a parameter of the session that its two statements share, and it outlives
the query. It does no harm: from the moment a query takes a connection until it gives it back, nobody
else has that connection, whatever futures are dropped at whatever await. So instances with different
probe counts can share one pool, and their calls are a history of one collection of memories in which
every query is answered with its own probe count.
-/

namespace Xola.LongTermMemory

open Interaction

variable {F D : Type}

/-! ## One call -/

abbrev Trace (F D : Type) := History (Command.Answer (F := F) D)

/-- The result that an exchange settles, if it settles one. -/
def verdict? : Exchange (Command.Answer (F := F) D) → Option (Except MemoryError (Reply D))
  | ⟨.insert _ _ _, answer⟩ => some (replied .stored answer)
  | ⟨.delete _, answer⟩ =>
    some (replied (fun affected : Nat => .deleted (decide (0 < affected))) answer)
  | ⟨.select _ _ _, answer⟩ => some (replied .memories answer)
  | ⟨.acquire, some (.ok _)⟩ | ⟨.setProbes _ _, some (.ok _)⟩ | ⟨.release _, _⟩ => none
  | ⟨.acquire, none⟩ | ⟨.setProbes _ _, none⟩ => some (.ok .dropped)
  | ⟨.acquire, some (.error e)⟩ | ⟨.setProbes _ _, some (.error e)⟩ => some (.error (.database e))

/-- The result of the call is settled. -/
def Decided (t : Trace F D) (res : Except MemoryError (Reply D)) : Prop :=
  ∃ x ∈ t, verdict? x = some res

theorem not_decided_nil {ι : Type} (_ : ι) (res : Except MemoryError (Reply D)) :
    ¬Decided ([] : Trace F D) res := by
  rintro ⟨x, hx, -⟩
  cases hx

theorem decided_concat {t : Trace F D} {e : Exchange (Command.Answer (F := F) D)}
    {res : Except MemoryError (Reply D)} :
    Decided (t ++ [e]) res ↔ Decided t res ∨ verdict? e = some res := by
  simp [Decided, or_and_right, exists_or]

/-- Where the statements of a call are made. -/
inductive At (call : Call F) : Trace F D → Command F → Prop
  | insert {content : String} {embedding : List F} {metadata : Json}
      (heq : call = .store content embedding metadata) (dim : embedding.length = embeddingDim) :
    At call [] (.insert content embedding metadata)
  | delete {id : Uuid} (heq : call = .delete id) : At call [] (.delete id)
  | acquire : At call [] .acquire
  | setProbes {conn ivfflatProbes : Nat} {embedding : List F} {topK : UInt64}
      (heq : call = .query ivfflatProbes embedding topK) :
    At call [⟨.acquire, some (.ok conn)⟩] (.setProbes conn ivfflatProbes)
  | select {conn ivfflatProbes : Nat} {embedding : List F} {topK : UInt64}
      (heq : call = .query ivfflatProbes embedding topK) (dim : embedding.length = embeddingDim) :
    At call [⟨.acquire, some (.ok conn)⟩, ⟨.setProbes conn ivfflatProbes, some (.ok ())⟩]
      (.select conn embedding topK.toInt64.toInt)
  | release {conn : Nat} {t : Trace F D} (rest : ∀ x ∈ t, x.1 ≠ .acquire ∧ x.1 ≠ .release conn) :
    At call (⟨.acquire, some (.ok conn)⟩ :: t) (.release conn)

/-- An embedding of another dimension is refused before any statement is made. -/
inductive Refused : Call F → Except MemoryError (Reply D) → Prop
  | store {content : String} {embedding : List F} {metadata : Json}
      (misfit : embedding.length ≠ embeddingDim) :
    Refused (.store content embedding metadata) (.error (.dimensionMismatch embedding.length))
  | query {ivfflatProbes : Nat} {embedding : List F} {topK : UInt64}
      (misfit : embedding.length ≠ embeddingDim) :
    Refused (.query ivfflatProbes embedding topK) (.error (.dimensionMismatch embedding.length))

/-- A call that has ended has been refused or has settled its result. -/
def Settled (call : Call F) (t : Trace F D) (e : Prog.Ending MemoryError (Reply D)) : Prop :=
  ∃ res, e = some res ∧ (Refused call res ∨ Decided t res)

theorem wp_ofExcept {I : Trace F D → Command F → Prop} {call : Call F} {t : Trace F D}
    {res : Except MemoryError (Reply D)} (h : Decided t res) :
    Prog.wp I (Settled call) (Prog.ofExcept res) t := by
  cases res <;> exact ⟨_, rfl, .inr h⟩

/-- A method of a single statement. -/
theorem wp_once {call : Call F} {c : Command F}
    {f : c.Answer D → Except MemoryError (Reply D)} (hat : At (D := D) call [] c)
    (hf : ∀ r, verdict? ⟨c, r⟩ = some (f r)) :
    Prog.wp (At call) (Settled call) (Prog.once c f) [] := by
  refine ⟨hat, ?_⟩
  intro r
  exact wp_ofExcept ⟨_, List.mem_singleton_self _, hf r⟩

theorem wp_query (ivfflatProbes : Nat) (embedding : List F) (topK : UInt64) :
    Prog.wp (At (D := D) (.query ivfflatProbes embedding topK))
      (Settled (.query ivfflatProbes embedding topK)) (query ivfflatProbes embedding topK) [] := by
  unfold query
  split
  next hdim => exact ⟨_, rfl, .inl (.query hdim)⟩
  next hdim =>
  have hdim : embedding.length = embeddingDim := by simpa using hdim
  have hrelease : ∀ {conn : Nat} {t : Trace F D}
      {answer : Option (Except String (List (MemoryRecord D)))},
      (∀ x ∈ t, x.1 ≠ Command.acquire ∧ x.1 ≠ Command.release conn) →
      Decided t (replied .memories answer) →
      Prog.wp (At (.query ivfflatProbes embedding topK))
        (Settled (.query ivfflatProbes embedding topK))
        (Prog.perform (Command.release conn) >>= fun _ =>
          Prog.ofExcept (replied .memories answer))
        (⟨.acquire, some (.ok conn)⟩ :: t) := by
    intro conn t answer ht hdecided
    refine ⟨.release ht, fun _ => wp_ofExcept ?_⟩
    obtain ⟨x, hx, hverdict⟩ := hdecided
    exact ⟨x, List.mem_append_left _ (List.mem_cons_of_mem _ hx), hverdict⟩
  refine ⟨.acquire, ?_⟩
  intro acquired
  rcases acquired with - | (e | conn)
  · exact ⟨_, rfl, .inr ⟨_, List.mem_singleton_self _, rfl⟩⟩
  · exact ⟨_, rfl, .inr ⟨_, List.mem_singleton_self _, rfl⟩⟩
  · refine ⟨.setProbes rfl, ?_⟩
    intro set
    rcases set with - | (e | _)
    · exact hrelease (by simp) ⟨_, List.mem_singleton_self _, rfl⟩
    · exact hrelease (by simp) ⟨_, List.mem_singleton_self _, rfl⟩
    · refine ⟨.select rfl hdim, ?_⟩
      intro answer
      exact hrelease (by simp) ⟨_, List.mem_cons_of_mem _ (List.mem_singleton_self _), rfl⟩

theorem wp_store (content : String) (embedding : List F) (metadata : Json) :
    Prog.wp (At (D := D) (.store content embedding metadata))
      (Settled (.store content embedding metadata)) (store content embedding metadata) [] := by
  unfold store
  split
  next hdim => exact ⟨_, rfl, .inl (.store hdim)⟩
  next hdim => exact wp_once (.insert rfl (by simpa using hdim)) fun _ => rfl

theorem wp_run (call : Call F) : Prog.wp (At (D := D) call) (Settled call) call.run [] := by
  cases call with
  | store content embedding metadata => exact wp_store content embedding metadata
  | query ivfflatProbes embedding topK => exact wp_query ivfflatProbes embedding topK
  | delete id => exact wp_once (.delete rfl) fun _ => rfl

/-! ## The pool -/

/-- The connection has been taken and not been given back. -/
def Holds (t : Trace F D) (conn : Nat) : Prop :=
  (⟨.acquire, some (.ok conn)⟩ : Exchange (Command.Answer (F := F) D)) ∈ t ∧
    (⟨.release conn, ()⟩ : Exchange (Command.Answer (F := F) D)) ∉ t

/-- The probe count has been set, and that has been acknowledged. -/
def Sets (t : Trace F D) (conn probes : Nat) : Prop :=
  (⟨.setProbes conn probes, some (.ok ())⟩ : Exchange (Command.Answer (F := F) D)) ∈ t

section Pool

variable {ι : Type} [DecidableEq ι] {log : PoolLog ι Timestamp (Command.Answer (F := F) D)}
  {pool pool' : Pool F}

/-- Nobody else has the connection that a call holds, and its session has the probe count of the
call. -/
structure Leased (log : PoolLog ι Timestamp (Command.Answer (F := F) D)) (pool : Pool F) :
    Prop where
  held : ∀ {i conn}, Holds (own i log) conn → conn ∈ pool.held
  apart : ∀ {i j conn}, Holds (own i log) conn → Holds (own j log) conn → i = j
  probes : ∀ {i conn probes}, Holds (own i log) conn → Sets (own i log) conn probes →
    pool.probes conn = probes

theorem leased_nil : Leased ([] : PoolLog ι Timestamp (Command.Answer (F := F) D)) pool :=
  ⟨fun hholds => (List.not_mem_nil hholds.1).elim, fun hholds => (List.not_mem_nil hholds.1).elim,
    fun hholds => (List.not_mem_nil hholds.1).elim⟩

section Concat

variable {i j : ι} {now : Timestamp} {e : Exchange (Command.Answer (F := F) D)} {conn probes : Nat}

/-- Who holds a connection has held it before, or has just taken it. -/
theorem Holds.before (h : Holds (own i (log ++ [⟨j, now, e⟩])) conn) :
    Holds (own i log) conn ∨ j = i ∧ e = ⟨.acquire, some (.ok conn)⟩ := by
  by_cases hj : j = i
  · subst hj
    rw [own_concat_self] at h
    obtain ⟨hacquired, hkept⟩ := h
    rcases List.mem_append.mp hacquired with hacquired | hacquired
    · exact .inl ⟨hacquired, fun hmem => hkept (List.mem_append_left _ hmem)⟩
    · exact .inr ⟨rfl, (List.mem_singleton.mp hacquired).symm⟩
  · rw [own_concat_of_ne hj] at h
    exact .inl h

theorem Sets.before (h : Sets (own i (log ++ [⟨j, now, e⟩])) conn probes) :
    Sets (own i log) conn probes ∨ j = i ∧ e = ⟨.setProbes conn probes, some (.ok ())⟩ := by
  by_cases hj : j = i
  · subst hj
    rw [own_concat_self] at h
    rcases List.mem_append.mp h with h | h
    · exact .inl h
    · exact .inr ⟨rfl, (List.mem_singleton.mp h).symm⟩
  · rw [own_concat_of_ne hj] at h
    exact .inl h

end Concat

namespace Leased

variable {j : ι} {now : Timestamp} {e : Exchange (Command.Answer (F := F) D)} {conn : Nat}

/-- An exchange that is not about connections. -/
theorem other (h : Leased log pool) (hacquire : ∀ conn, e ≠ ⟨.acquire, some (.ok conn)⟩)
    (hset : ∀ conn probes, e ≠ ⟨.setProbes conn probes, some (.ok ())⟩)
    (hheld : pool'.held = pool.held) (hprobes : pool'.probes = pool.probes) :
    Leased (log ++ [⟨j, now, e⟩]) pool' := by
  have hholds : ∀ {i conn}, Holds (own i (log ++ [⟨j, now, e⟩])) conn → Holds (own i log) conn :=
    fun hi => hi.before.resolve_right fun heq => hacquire _ heq.2
  constructor
  · intro i conn hi
    rw [hheld]
    exact h.held (hholds hi)
  · exact fun hi hi' => h.apart (hholds hi) (hholds hi')
  · intro i conn probes hi hsets
    rw [hprobes]
    exact h.probes (hholds hi) (hsets.before.resolve_right fun heq => hset _ _ heq.2)

/-- Nobody has the connection that is handed out. -/
theorem acquire (h : Leased log pool) (hj : own j log = []) (hfree : conn ∉ pool.held)
    (probes : Nat) : Leased (log ++ [⟨j, now, .acquire, some (.ok conn)⟩])
      { pool.setProbes conn probes with held := conn :: pool.held } := by
  have hnew : ∀ {i conn'},
      Holds (own i (log ++ [⟨j, now, .acquire, some (.ok conn)⟩])) conn' →
      Holds (own i log) conn' ∨ i = j ∧ conn' = conn := by
    intro i conn' hi
    rcases hi.before with hi | ⟨rfl, heq⟩
    · exact .inl hi
    · cases heq
      exact .inr ⟨rfl, rfl⟩
  constructor
  · intro i conn' hi
    rcases hnew hi with hi | ⟨-, rfl⟩
    · exact List.mem_cons_of_mem _ (h.held hi)
    · exact List.mem_cons_self
  · intro i i' conn' hi hi'
    rcases hnew hi with hold | ⟨rfl, rfl⟩ <;> rcases hnew hi' with hold' | ⟨rfl, heq⟩
    · exact h.apart hold hold'
    · exact absurd (h.held hold) (heq ▸ hfree)
    · exact absurd (h.held hold') hfree
    · rfl
  · intro i conn' n hi hsets
    have hsets' : Sets (own i log) conn' n := hsets.before.resolve_right nofun
    rcases hnew hi with hi | ⟨rfl, rfl⟩
    · have hne : conn' ≠ conn := fun heq => hfree (heq ▸ h.held hi)
      exact (Function.update_of_ne hne _ _).trans (h.probes hi hsets')
    · rw [Sets, hj] at hsets'
      cases hsets'

/-- The session of a connection that the call holds. -/
theorem setProbes (h : Leased log pool) (hj : Holds (own j log) conn)
    (hnot : ∀ conn' n, ¬Sets (own j log) conn' n) {probes : Nat}
    (answer : Option (Except String Unit)) :
    Leased (log ++ [⟨j, now, .setProbes conn probes, answer⟩]) (pool.setProbes conn probes) := by
  have hholds : ∀ {i conn'},
      Holds (own i (log ++ [⟨j, now, .setProbes conn probes, answer⟩])) conn' →
      Holds (own i log) conn' :=
    fun hi => hi.before.resolve_right nofun
  constructor
  · exact fun hi => h.held (hholds hi)
  · exact fun hi hi' => h.apart (hholds hi) (hholds hi')
  · intro i conn' n hi hsets
    rcases hsets.before with hset | ⟨-, heq⟩
    · have hne : conn' ≠ conn := by
        rintro rfl
        obtain rfl := h.apart (hholds hi) hj
        exact hnot conn' n hset
      exact (Function.update_of_ne hne _ _).trans (h.probes (hholds hi) hset)
    · cases heq
      exact Function.update_self _ _ _

/-- Giving back the only connection that the call has taken. -/
theorem release (h : Leased log pool) (hj : Holds (own j log) conn)
    (honly : ∀ conn', Holds (own j log) conn' → conn' = conn) :
    Leased (log ++ [⟨j, now, .release conn, ()⟩])
      { pool with held := pool.held.erase conn } := by
  have hholds : ∀ {i conn'}, Holds (own i (log ++ [⟨j, now, .release conn, ()⟩])) conn' →
      Holds (own i log) conn' :=
    fun hi => hi.before.resolve_right nofun
  constructor
  · intro i conn' hi
    have hne : conn' ≠ conn := by
      rintro rfl
      obtain rfl := h.apart (hholds hi) hj
      rw [own_concat_self] at hi
      exact hi.2 (List.mem_append_right _ (List.mem_singleton_self _))
    exact (List.mem_erase_of_ne hne).mpr (h.held (hholds hi))
  · exact fun hi hi' => h.apart (hholds hi) (hholds hi')
  · exact fun hi hsets => h.probes (hholds hi) (hsets.before.resolve_right nofun)

end Leased

end Pool

/-! ## The collection -/

/-- Nothing is known but that the statement failed or that its future was dropped. -/
def Unknown (res : Except MemoryError (Reply D)) : Prop :=
  res = .ok .dropped ∨ ∃ msg, res = .error (.database msg)

/-- What the methods are for: adding a memory, the nearest ones as far as the probe count of the query
reaches, and removing one. The database may fail, before the fact or after it. -/
inductive Spec [LE D] (pg : Pgvector F D) (now : Timestamp) : Call F → List (MemoryRow F) →
    Except MemoryError (Reply D) → List (MemoryRow F) → Prop
  | store {content : String} {embedding : List F} {metadata stored : Json}
      {rows : List (MemoryRow F)} {id : Uuid} (dim : embedding.length = embeddingDim)
      (fresh : ∀ row ∈ rows, row.id ≠ id) (kept : pg.jsonb metadata = some stored) :
    Spec pg now (.store content embedding metadata) rows (.ok (.stored id))
      (rows ++ [⟨id, content, embedding, stored, now⟩])
  | query {ivfflatProbes : Nat} {embedding : List F} {topK : UInt64} {rows : List (MemoryRow F)}
      {records : List (MemoryRecord D)} (dim : embedding.length = embeddingDim)
      (nearest : Nearest pg ivfflatProbes embedding topK.toNat rows records) :
    Spec pg now (.query ivfflatProbes embedding topK) rows (.ok (.memories records)) rows
  | delete {id : Uuid} {rows : List (MemoryRow F)} :
    Spec pg now (.delete id) rows (.ok (.deleted (decide (0 < rows.countP (·.id = id)))))
      (rows.filter (·.id ≠ id))
  | unanswered {call : Call F} {rows : List (MemoryRow F)} {res : Except MemoryError (Reply D)}
      (unknown : Unknown res) : Spec pg now call rows res rows
  | unacknowledged {call : Call F} {rows rows' : List (MemoryRow F)} {reply : Reply D}
      {res : Except MemoryError (Reply D)} (unknown : Unknown res)
      (done : Spec pg now call rows (.ok reply) rows') : Spec pg now call rows res rows'

section Refinement

variable [LE D] {pg : Pgvector F D} {now : Timestamp} {pool pool' : Pool F} {call : Call F}

/-- The effect of a statement is that of its call, and not on the connections. -/
structure Does (pg : Pgvector F D) (now : Timestamp) (call : Call F) (pool : Pool F)
    (res : Except MemoryError (Reply D)) (pool' : Pool F) : Prop where
  spec : Spec pg now call pool.table res pool'.table
  held : pool'.held = pool.held
  probes : pool'.probes = pool.probes

theorem does_served {c : Command F} (reply : c.Result D → Reply D)
    (hexec : ∀ result pool', pool.Executes pg now c result pool' →
      Does pg now call pool (.ok (reply result)) pool')
    {answer : Option (Except String (c.Result D))}
    (hserved : Pool.Serves.served pg now pool c answer pool') :
    Does pg now call pool (replied reply answer) pool' := by
  have hunanswered : ∀ {res}, Unknown res → pool.Unanswered pg now c pool' →
      Does pg now call pool res pool' := by
    intro res hunknown hpool
    rcases hpool with rfl | ⟨-, result, hpool⟩
    · exact ⟨.unanswered hunknown, rfl, rfl⟩
    · have hdoes := hexec result pool' hpool
      exact ⟨.unacknowledged hunknown hdoes.spec, hdoes.held, hdoes.probes⟩
  rcases answer with - | (msg | result)
  · exact hunanswered (.inl rfl) hserved
  · exact hunanswered (.inr ⟨msg, rfl⟩) hserved
  · exact hexec result pool' hserved

variable {ι : Type} [DecidableEq ι] {log : PoolLog ι Timestamp (Command.Answer (F := F) D)} {j : ι}

/-- The exchange keeps the connections apart. It does what the call is for and settles its result, or
neither. -/
def Steps (pg : Pgvector F D) (call : Call F) (log : PoolLog ι Timestamp (Command.Answer (F := F) D))
    (pool : Pool F) (j : ι) (now : Timestamp) (e : Exchange (Command.Answer (F := F) D))
    (pool' : Pool F) : Prop :=
  Leased (log ++ [⟨j, now, e⟩]) pool' ∧
    (verdict? e = none ∧ pool'.table = pool.table ∨
      (∀ res : Except MemoryError (Reply D), ¬Decided (own j log) res) ∧
        ∃ res, verdict? e = some res ∧ Spec pg now call pool.table res pool'.table)

theorem Does.steps {c : Command F} {answer : c.Answer D} {res : Except MemoryError (Reply D)}
    (hdoes : Does pg now call pool res pool') (h : Leased log pool)
    (hnot : ∀ res : Except MemoryError (Reply D), ¬Decided (own j log) res)
    (hverdict : verdict? ⟨c, answer⟩ = some res)
    (hacquire : ∀ conn, (⟨c, answer⟩ : Exchange (Command.Answer (F := F) D)) ≠
      ⟨.acquire, some (.ok conn)⟩)
    (hset : ∀ conn probes, (⟨c, answer⟩ : Exchange (Command.Answer (F := F) D)) ≠
      ⟨.setProbes conn probes, some (.ok ())⟩) :
    Steps pg call log pool j now ⟨c, answer⟩ pool' :=
  ⟨h.other hacquire hset hdoes.held hdoes.probes, .inr ⟨hnot, res, hverdict, hdoes.spec⟩⟩

theorem steps_insert {content : String} {embedding : List F} {metadata : Json}
    {answer : Option (Except String Uuid)} (h : Leased log pool) (hj : own j log = [])
    (dim : embedding.length = embeddingDim)
    (hserves : pool.Serves pg now (.insert content embedding metadata) answer pool') :
    Steps pg (.store content embedding metadata) log pool j now
      ⟨.insert content embedding metadata, answer⟩ pool' := by
  refine (does_served .stored ?_ hserves).steps h ?_ rfl nofun nofun
  · rintro id pool' ⟨hfresh, stored, hkept, rfl⟩
    exact ⟨.store dim hfresh hkept, rfl, rfl⟩
  · rw [hj]
    rintro res ⟨x, hx, -⟩
    cases hx

theorem steps_delete {id : Uuid} {answer : Option (Except String Nat)} (h : Leased log pool)
    (hj : own j log = []) (hserves : pool.Serves pg now (.delete id) answer pool') :
    Steps pg (.delete id) log pool j now ⟨.delete id, answer⟩ pool' := by
  refine (does_served (fun affected : Nat => .deleted (decide (0 < affected)))
    ?_ hserves).steps h ?_ rfl nofun nofun
  · rintro affected pool' ⟨rfl, rfl⟩
    exact ⟨.delete, rfl, rfl⟩
  · rw [hj]
    rintro res ⟨x, hx, -⟩
    cases hx

theorem steps_acquire {answer : Option (Except String Nat)} (h : Leased log pool)
    (hj : own j log = []) (hserves : pool.Serves pg now .acquire answer pool') :
    Steps pg call log pool j now ⟨.acquire, answer⟩ pool' := by
  have hnot : ∀ res : Except MemoryError (Reply D), ¬Decided (own j log) res := by
    rw [hj]
    rintro res ⟨x, hx, -⟩
    cases hx
  rcases answer with - | (msg | conn)
  · obtain rfl : pool' = pool := hserves.resolve_right fun hbad => hbad.1 rfl
    exact ⟨h.other nofun nofun rfl rfl, .inr ⟨hnot, _, rfl, .unanswered (.inl rfl)⟩⟩
  · obtain rfl : pool' = pool := hserves.resolve_right fun hbad => hbad.1 rfl
    exact ⟨h.other nofun nofun rfl rfl, .inr ⟨hnot, _, rfl, .unanswered (.inr ⟨msg, rfl⟩)⟩⟩
  · obtain ⟨hfree, probes, rfl⟩ := hserves
    exact ⟨h.acquire hj hfree probes, .inl ⟨rfl, rfl⟩⟩

theorem steps_setProbes {conn probes : Nat} {answer : Option (Except String Unit)}
    (h : Leased log pool) (hj : own j log = [⟨.acquire, some (.ok conn)⟩])
    (hserves : pool.Serves pg now (.setProbes conn probes) answer pool') :
    Steps pg call log pool j now ⟨.setProbes conn probes, answer⟩ pool' := by
  have hholds : Holds (own j log) conn := by
    rw [hj]
    exact ⟨List.mem_singleton_self _, by simp⟩
  have hsets : ∀ conn' n, ¬Sets (own j log) conn' n := by
    rw [hj]
    intro conn' n hset
    cases List.mem_singleton.mp hset
  have hnot : ∀ res : Except MemoryError (Reply D), ¬Decided (own j log) res := by
    rw [hj]
    rintro res ⟨x, hx, hverdict⟩
    obtain rfl := List.mem_singleton.mp hx
    cases hverdict
  have hleased : ∀ answer, Leased (log ++ [⟨j, now, .setProbes conn probes, answer⟩])
      (pool.setProbes conn probes) := h.setProbes hholds hsets
  rcases answer with - | (msg | _)
  · rcases hserves with rfl | ⟨-, _, rfl⟩
    · exact ⟨h.other nofun nofun rfl rfl, .inr ⟨hnot, _, rfl, .unanswered (.inl rfl)⟩⟩
    · exact ⟨hleased _, .inr ⟨hnot, _, rfl, .unanswered (.inl rfl)⟩⟩
  · rcases hserves with rfl | ⟨-, _, rfl⟩
    · exact ⟨h.other nofun nofun rfl rfl, .inr ⟨hnot, _, rfl, .unanswered (.inr ⟨msg, rfl⟩)⟩⟩
    · exact ⟨hleased _, .inr ⟨hnot, _, rfl, .unanswered (.inr ⟨msg, rfl⟩)⟩⟩
  · obtain rfl := hserves
    exact ⟨hleased _, .inl ⟨rfl, rfl⟩⟩

omit [LE D] in
theorem Leased.set {conn ivfflatProbes : Nat} (h : Leased log pool) (hj : own j log =
      [⟨.acquire, some (.ok conn)⟩, ⟨.setProbes conn ivfflatProbes, some (.ok ())⟩]) :
    Holds (own j log) conn ∧ pool.probes conn = ivfflatProbes := by
  have hholds : Holds (own j log) conn := by
    rw [hj]
    exact ⟨List.mem_cons_self, by simp⟩
  have hsets : Sets (own j log) conn ivfflatProbes := by
    rw [hj]
    exact List.mem_cons_of_mem _ (List.mem_singleton_self _)
  exact ⟨hholds, h.probes hholds hsets⟩

theorem steps_select {conn ivfflatProbes : Nat} {embedding : List F} {topK : UInt64}
    {answer : Option (Except String (List (MemoryRecord D)))} (h : Leased log pool)
    (hj : own j log = [⟨.acquire, some (.ok conn)⟩, ⟨.setProbes conn ivfflatProbes, some (.ok ())⟩])
    (dim : embedding.length = embeddingDim)
    (hserves : pool.Serves pg now (.select conn embedding topK.toInt64.toInt) answer pool') :
    Steps pg (.query ivfflatProbes embedding topK) log pool j now
      ⟨.select conn embedding topK.toInt64.toInt, answer⟩ pool' := by
  obtain ⟨-, hprobes⟩ := h.set hj
  refine (does_served .memories ?_ hserves).steps h ?_ rfl nofun nofun
  · rintro records pool' ⟨hlimit, hnearest, rfl⟩
    rw [hprobes, EpisodicLog.toNat_toInt64 hlimit] at hnearest
    exact ⟨.query dim hnearest, rfl, rfl⟩
  · rw [hj]
    rintro res ⟨x, hx, hverdict⟩
    rcases List.mem_cons.mp hx with rfl | hx
    · cases hverdict
    · obtain rfl := List.mem_singleton.mp hx
      cases hverdict

theorem steps_release {conn : Nat} {t : Trace F D} (h : Leased log pool)
    (hj : own j log = ⟨.acquire, some (.ok conn)⟩ :: t)
    (rest : ∀ x ∈ t, x.1 ≠ .acquire ∧ x.1 ≠ .release conn) {answer : Unit}
    (hserves : pool.Serves pg now (.release conn) answer pool') :
    Steps pg call log pool j now ⟨.release conn, answer⟩ pool' := by
  obtain rfl := hserves
  refine ⟨h.release ?_ ?_, .inl ⟨rfl, rfl⟩⟩
  · rw [hj]
    refine ⟨List.mem_cons_self, ?_⟩
    intro hmem
    rcases List.mem_cons.mp hmem with heq | hmem
    · cases heq
    · exact (rest _ hmem).2 rfl
  · rw [hj]
    rintro conn' ⟨hacquired, -⟩
    rcases List.mem_cons.mp hacquired with heq | hacquired
    · cases heq
      rfl
    · exact absurd rfl (rest _ hacquired).1

theorem steps {c : Command F} {answer : c.Answer D} (h : Leased log pool)
    (hat : At call (own j log) c) (hserves : pool.Serves pg now c answer pool') :
    Steps pg call log pool j now ⟨c, answer⟩ pool' := by
  generalize hj : own j log = t at hat
  cases hat with
  | insert heq dim =>
    subst heq
    exact steps_insert h hj dim hserves
  | delete heq =>
    subst heq
    exact steps_delete h hj hserves
  | acquire => exact steps_acquire h hj hserves
  | setProbes => exact steps_setProbes h hj hserves
  | select heq dim =>
    subst heq
    exact steps_select h hj dim hserves
  | release rest => exact steps_release h hj rest hserves

omit [LE D] in
/-- A query that is about to select has its connection, with its own probe count in the session. -/
theorem Leased.selecting {conn : Nat} {embedding : List F} {limit : Int} (h : Leased log pool)
    (hat : At call (own j log) (.select conn embedding limit)) :
    Holds (own j log) conn ∧ ∃ topK, call = .query (pool.probes conn) embedding topK := by
  generalize hj : own j log = t at hat
  cases hat with
  | select heq dim =>
    obtain ⟨hholds, hprobes⟩ := h.set hj
    rw [hprobes, ← hj]
    exact ⟨hholds, _, heq⟩

end Refinement

/-! Two queries use one connection in turn; the second one finds the probe count of the first in its
session, and the memory in the table. -/

def flat : Pgvector Nat Nat := ⟨fun _ _ => 0, some⟩

def origin : List Nat := List.replicate 1536 0

def memory : MemoryRow Nat := ⟨7, "The release is planned for May.", origin, .obj [], 1⟩

def twoQueries : Bool → Call Nat
  | true => .query 100 origin 5
  | false => .query 5 origin 5

/-- A pool of one connection to a table that is not written to. -/
def oneConnection (pool : Pool Nat) : (c : Command Nat) → Pool Nat × c.Answer Nat
  | .acquire =>
    if 3 ∈ pool.held then (pool, some (.error "pool timed out"))
    else ({ pool.setProbes 3 (pool.probes 3) with held := 3 :: pool.held }, some (.ok (3 : Nat)))
  | .setProbes conn probes => (pool.setProbes conn probes, some (.ok ()))
  | .select _ embedding limit =>
    if 0 ≤ limit then
      (pool, some (.ok ((pool.table.take limit.toNat).map (MemoryRow.record flat embedding))))
    else (pool, some (.error "LIMIT must not be negative"))
  | .release conn => ({ pool with held := pool.held.erase conn }, ())
  | .insert _ _ _ | .delete _ => (pool, some (.error "read only"))

theorem serves_oneConnection (pool : Pool Nat) (c : Command Nat) :
    pool.Serves flat 0 c (oneConnection pool c).2 (oneConnection pool c).1 := by
  cases c with
  | acquire =>
    by_cases hheld : 3 ∈ pool.held
    · rw [show oneConnection pool .acquire = (pool, some (.error "pool timed out")) from
        if_pos hheld]
      exact .inl rfl
    · rw [show oneConnection pool .acquire =
        ({ pool.setProbes 3 (pool.probes 3) with held := 3 :: pool.held }, some (.ok (3 : Nat))) from
        if_neg hheld]
      exact ⟨hheld, _, rfl⟩
  | select conn embedding limit =>
    by_cases hlimit : 0 ≤ limit
    · rw [show oneConnection pool (.select conn embedding limit) = (pool,
        some (.ok ((pool.table.take limit.toNat).map (MemoryRow.record flat embedding)))) from
        if_pos hlimit]
      -- all are at the same distance
      have hsorted : pool.table.Pairwise fun a b =>
          OrderDual.toDual (flat.distance b.embedding embedding) ≤
            OrderDual.toDual (flat.distance a.embedding embedding) :=
        List.pairwise_of_forall fun _ _ => le_rfl
      exact ⟨hlimit, ⟨pool.table, _, .refl _, fun _ => rfl, ⟨_, .refl _, hsorted, rfl⟩, rfl⟩, rfl⟩
    · rw [show oneConnection pool (.select conn embedding limit) =
        (pool, some (.error "LIMIT must not be negative")) from if_neg hlimit]
      exact .inl rfl
  | setProbes | release => rfl
  | insert | delete => exact .inl rfl

section Query

variable {n : Nat} {embedding : List Nat}

theorem query_not_refused (dim : embedding.length = embeddingDim)
    {res : Except MemoryError (Reply Nat)} : ¬Refused (.query n embedding 5) res := by
  rintro (_ | misfit)
  exact misfit dim

theorem query_runWith (dim : embedding.length = embeddingDim) (probes : Nat → Nat) :
    ∃ probes', (Call.query n embedding 5).run.runWith oneConnection ⟨[memory], probes, []⟩ =
      (⟨[memory], probes', []⟩, some (.ok (.memories [memory.record flat embedding]))) :=
  ⟨_, by simp only [Call.run, query, if_neg (not_not.mpr dim)]; rfl⟩

end Query

end Xola.LongTermMemory

import Xola.Data.Traverse
import Xola.Memory.EpisodeStore
import Xola.Memory.Verify.SimilarGoals

/-!
# The log as a collection of episodes

Behind the statements and the columns there is a collection of episodes, and `Spec` says what the
methods are for in its terms. A row that `insert` has written can be read: the outcome is one of the two
names, and the steps come back with the inputs as the database keeps them. So the errors of the read
path other than the database's own never occur, and any number of tasks that use the log side by side
see one history of the collection.
-/

namespace Xola

open Interaction

variable {pg : Postgres}

/-! ## Reading back -/

/-- The step as it is read back: the database keeps a value of its own for the input. -/
structure TaskStep.Restored (pg : Postgres) (s s' : TaskStep) : Prop where
  action : s'.action = s.action
  input : pg.jsonb s.input = some s'.input
  success : s'.success = s.success
  error : s'.error = s.error

theorem Outcome.fromStr_asStr (outcome : Outcome) : fromStr outcome.asStr = .ok outcome := by
  cases outcome <;> rfl

namespace Postgres.Documented

/-- What a field of a stored object is read as. -/
theorem field_some {stored fields : List (String × Json)}
    (hstored : ∀ key, (stored.lookup key).map some = (fields.lookup key).map pg.jsonb)
    (key : String) (value : Json) (hfield : fields.lookup key = some value) :
    ∃ value', stored.lookup key = some value' ∧ pg.jsonb value = some value' := by
  have hkey := hstored key
  rw [hfield, Option.map_some] at hkey
  obtain ⟨value', hlookup, hvalue⟩ := Option.map_eq_some_iff.mp hkey
  exact ⟨value', hlookup, hvalue.symm⟩

theorem field_none {stored fields : List (String × Json)}
    (hstored : ∀ key, (stored.lookup key).map some = (fields.lookup key).map pg.jsonb)
    (key : String) (hfield : fields.lookup key = none) : stored.lookup key = none := by
  have hkey := hstored key
  rwa [hfield, Option.map_none, Option.map_eq_none_iff] at hkey

variable (hpg : pg.Documented)

include hpg

theorem step {s : TaskStep} {v : Json} (hv : pg.jsonb s.toJson = some v) :
    ∃ s', TaskStep.ofJson v = some s' ∧ s.Restored pg s' := by
  obtain ⟨action, input, success, error⟩ := s
  obtain ⟨stored, rfl, hstored⟩ := hpg.obj (by cases error <;> simp) hv
  obtain ⟨action', haction, hact⟩ := field_some hstored "action" (.str action)
    (by cases error <;> rfl)
  obtain ⟨input', hinput, hin⟩ := field_some hstored "input" input
    (by cases error <;> rfl)
  obtain ⟨success', hsuccess, hsucc⟩ := field_some hstored "success" (.bool success)
    (by cases error <;> rfl)
  obtain rfl := hpg.str hact
  obtain rfl := hpg.bool hsucc
  have herror : optionalString (stored.lookup "error") = some error := by
    cases error with
    | none =>
      rw [field_none hstored "error" rfl]
      rfl
    | some e =>
      obtain ⟨error', herror, herr⟩ := field_some hstored "error" (.str e) rfl
      obtain rfl := hpg.str herr
      rw [herror]
      rfl
  refine ⟨⟨action, input', success, error⟩, ?_, rfl, hin, rfl, rfl⟩
  simp [TaskStep.ofJson, TaskStep.ofFields, haction, hinput, hsuccess, herror]

theorem steps {steps : List TaskStep} {v : Json} (hv : pg.jsonb (stepsJson steps) = some v) :
    ∃ steps', stepsOfJson v = some steps' ∧ List.Forall₂ (TaskStep.Restored pg) steps steps' := by
  obtain ⟨stored, hstored, rfl⟩ := hpg.arr hv
  rw [List.mapM_eq_some_iff, List.map_map] at hstored
  clear hv
  induction steps generalizing stored with
  | nil =>
    obtain rfl := List.map_eq_nil_iff.mp hstored.symm
    exact ⟨[], rfl, .nil⟩
  | cons s steps ih =>
    cases stored with
    | nil => cases hstored
    | cons v stored =>
      obtain ⟨hs, hsteps⟩ := List.cons.inj hstored
      obtain ⟨s', hs', hrestored⟩ := hpg.step hs
      obtain ⟨steps', hsteps', hall⟩ := ih stored hsteps
      refine ⟨s' :: steps', ?_, .cons hrestored hall⟩
      change List.mapM TaskStep.ofJson (v :: stored) = _
      rw [List.mapM_cons, hs', show List.mapM TaskStep.ofJson stored = some steps' from hsteps']
      rfl

end Postgres.Documented

/-! ## The collection -/

/-- The record is that of the task, as the database keeps it. -/
structure EpisodeInput.Recorded (pg : Postgres) (ep : EpisodeInput) (now : Timestamp)
    (e : EpisodeRecord) : Prop where
  taskGoal : e.taskGoal = ep.taskGoal
  steps : List.Forall₂ (TaskStep.Restored pg) ep.steps e.steps
  outcome : e.outcome = ep.outcome
  error : e.error = ep.error
  durationMs : e.durationMs = ep.durationMs
  createdAt : e.createdAt = now

namespace EpisodicLog

/-- The keyword occurs in the goal, whatever the case. -/
def Mentions (pg : Postgres) (keyword : String) (e : EpisodeRecord) : Prop :=
  keyword.toList.map pg.fold <:+: e.taskGoal.toList.map pg.fold

instance (pg : Postgres) (keyword : String) (e : EpisodeRecord) :
    Decidable (Mentions pg keyword e) :=
  inferInstanceAs (Decidable (_ <:+: _))

/-- What the methods are for: adding an episode, the newest of them, the newest of those that mention
a keyword, and removing one by its id. The database may fail, before the fact or after it. -/
inductive Spec (pg : Postgres) (now : Timestamp) : Call → List EpisodeRecord →
    Except EpisodeError Reply → List EpisodeRecord → Prop
  | insert {ep : EpisodeInput} {es : List EpisodeRecord} {e : EpisodeRecord}
      (fresh : ∀ e' ∈ es, e'.id ≠ e.id) (recorded : ep.Recorded pg now e) :
    Spec pg now (.insert ep) es (.ok (.inserted e.id)) (es ++ [e])
  | recent {limit : UInt64} {es found : List EpisodeRecord}
      (newest : es.Selects EpisodeRecord.createdAt limit.toNat found) :
    Spec pg now (.recent limit) es (.ok (.episodes found)) es
  | similar {keyword : String} {limit : UInt64} {es found : List EpisodeRecord}
      (newest : (es.filter (Mentions pg keyword)).Selects EpisodeRecord.createdAt limit.toNat
        found) :
    Spec pg now (.findSimilarGoals keyword limit) es (.ok (.episodes found)) es
  | delete {id : Uuid} {es : List EpisodeRecord} :
    Spec pg now (.delete id) es (.ok (.deleted (es.any (·.id = id)))) (es.filter (·.id ≠ id))
  | failed {call : Call} {es : List EpisodeRecord} (msg : String) :
    Spec pg now call es (.error (.database msg)) es
  | unacknowledged {call : Call} {es es' : List EpisodeRecord} {reply : Reply} (msg : String)
      (done : Spec pg now call es (.ok reply) es') :
    Spec pg now call es (.error (.database msg)) es'

/-- The rows are those of the collection. -/
def Holds (rows : List RawEpisodeRow) (es : List EpisodeRecord) : Prop :=
  List.Forall₂ (fun row e => mapEpisodeRow row = .ok e) rows es

/-! ## Rows -/

theorem mapEpisodeRow_ok {row : RawEpisodeRow} {e : EpisodeRecord} (h : mapEpisodeRow row = .ok e) :
    row.id = e.id ∧ row.taskGoal = e.taskGoal ∧ row.createdAt = e.createdAt := by
  unfold mapEpisodeRow at h
  cases ho : Outcome.fromStr row.outcome with
  | error msg =>
    rw [ho] at h
    cases h
  | ok outcome =>
    cases hs : stepsOfJson row.steps with
    | none =>
      rw [ho, hs] at h
      cases h
    | some steps =>
      rw [ho, hs] at h
      cases h
      exact ⟨rfl, rfl, rfl⟩

/-- A row that was written is read as the task that it records. -/
theorem mapEpisodeRow_written (hpg : pg.Documented) (ep : EpisodeInput) (id : Uuid)
    (now : Timestamp) {stored : Json} (hstored : pg.jsonb (stepsJson ep.steps) = some stored) :
    ∃ e, mapEpisodeRow
        ⟨id, ep.taskGoal, stored, ep.outcome.asStr, ep.error, ep.durationMs, now⟩ = .ok e ∧
      e.id = id ∧ ep.Recorded pg now e := by
  obtain ⟨steps, hsteps, hrestored⟩ := hpg.steps hstored
  refine ⟨⟨id, ep.taskGoal, steps, ep.outcome, ep.error, ep.durationMs, now⟩, ?_, rfl,
    rfl, hrestored, rfl, rfl, rfl, rfl⟩
  unfold mapEpisodeRow
  rw [Outcome.fromStr_asStr, hsteps]
  rfl

theorem ilike_pattern (keyword taskGoal : String) :
    pg.ilike (pattern keyword) taskGoal =
      some (decide (keyword.toList.map pg.fold <:+: taskGoal.toList.map pg.fold)) := by
  rw [Postgres.ilike, pattern_toList]
  exact Like.like_escape _ _ _

/-- A limit that the database takes is the one that was asked for. -/
theorem toNat_toInt64 {limit : UInt64} (h : 0 ≤ limit.toInt64.toInt) :
    limit.toInt64.toInt.toNat = limit.toNat := by
  have hcast : limit.toInt64.toInt = limit.toBitVec.toInt := rfl
  rw [hcast] at h ⊢
  rw [BitVec.toInt_eq_toNat_cond] at h ⊢
  have hlt := limit.toBitVec.isLt
  rw [UInt64.toNat_toBitVec] at *
  split at h <;> omega

namespace Holds

variable {rows found : List RawEpisodeRow} {es : List EpisodeRecord}

theorem ids (h : Holds rows es) : rows.map (·.id) = es.map (·.id) := by
  induction h with
  | nil => rfl
  | cons hrow _ ih => rw [List.map_cons, List.map_cons, (mapEpisodeRow_ok hrow).1, ih]

theorem countP_id (h : Holds rows es) (id : Uuid) :
    rows.countP (·.id = id) = es.countP (·.id = id) := by
  have hrows := List.countP_map (p := fun i => decide (i = id)) (f := RawEpisodeRow.id) (l := rows)
  rw [h.ids, List.countP_map] at hrows
  exact hrows.symm

theorem fetched (h : Holds rows es) : EpisodicLog.fetched (.ok rows) = .ok es :=
  List.mapM_eq_ok_iff.mpr h

theorem selects (h : Holds rows es) {n : Nat}
    (hfound : rows.Selects RawEpisodeRow.createdAt n found) :
    ∃ records, Holds found records ∧ es.Selects EpisodeRecord.createdAt n records :=
  hfound.rel (fun hrow => (mapEpisodeRow_ok hrow).2.2) h

theorem filter {p : RawEpisodeRow → Bool} {q : EpisodeRecord → Bool} (h : Holds rows es)
    (hpq : ∀ {row e}, mapEpisodeRow row = .ok e → p row = q e) :
    Holds (rows.filter p) (es.filter q) := by
  induction h with
  | nil => exact .nil
  | @cons row e rows es hrow _ ih =>
    rw [List.filter_cons, List.filter_cons, hpq hrow]
    split
    · exact .cons hrow ih
    · exact ih

end Holds

/-! ## Refinement -/

/-- The statement of a call. -/
def Call.query : Call → Query
  | .insert ep =>
    .insert ep.taskGoal (stepsJson ep.steps) ep.outcome.asStr ep.error ep.durationMs
  | .recent limit => .recent limit.toInt64.toInt
  | .findSimilarGoals keyword limit => .similar (pattern keyword) limit.toInt64.toInt
  | .delete id => .delete id

/-- What a call makes of the answer. -/
def Call.reply : (call : Call) → call.query.Answer → Except EpisodeError Reply
  | .insert _, answer => (answer.mapError .database).map .inserted
  | .recent _, answer | .findSimilarGoals _ _, answer => (EpisodicLog.fetched answer).map .episodes
  | .delete _, answer =>
    ((answer.mapError .database).map fun affected : Nat => decide (0 < affected)).map .deleted

theorem Call.run_eq_once (call : Call) : call.run = .once call.query call.reply := by
  cases call <;> exact Prog.map_once _

theorem Call.run_returns (call : Call) (answer : call.query.Answer) :
    Prog.Returns call.run [⟨call.query, answer⟩] (call.reply answer) := by
  rw [Call.run_eq_once]
  exact Prog.once_returns answer

theorem Call.reply_error (call : Call) (msg : String) :
    call.reply (.error msg) = .error (.database msg) := by
  cases call <;> rfl

theorem insert_returns (ep : EpisodeInput) (served : (Call.insert ep).query.Answer) :
    Prog.Returns (insert ep) [⟨_, served⟩] (served.mapError .database) := by
  unfold insert
  exact Prog.once_returns served

variable {now : Timestamp} {call : Call} {rows rows' : List RawEpisodeRow}
  {es : List EpisodeRecord}

/-- A statement that succeeds does what the call is for. -/
theorem Holds.executes (hpg : pg.Documented) (h : Holds rows es) {result : call.query.Result}
    (hexec : pg.Executes now rows call.query result rows') :
    ∃ reply es', call.reply (.ok result) = .ok reply ∧ Spec pg now call es (.ok reply) es' ∧
      Holds rows' es' := by
  cases call with
  | insert ep =>
    obtain ⟨hfresh, stored, hstored, rfl⟩ := hexec
    obtain ⟨e, he, rfl, hrecorded⟩ := mapEpisodeRow_written hpg ep result now hstored
    refine ⟨_, _, rfl, .insert ?_ hrecorded, List.rel_append h (.cons he .nil)⟩
    intro e' he'
    obtain ⟨row, hrow, hread⟩ := List.Forall₂.exists_of_mem_right h he'
    rw [← (mapEpisodeRow_ok hread).1]
    exact hfresh row hrow
  | recent limit =>
    obtain ⟨hlimit, hselects, rfl⟩ := hexec
    rw [toNat_toInt64 hlimit] at hselects
    obtain ⟨records, hrecords, hnewest⟩ := h.selects hselects
    refine ⟨_, _, ?_, .recent hnewest, h⟩
    exact congrArg (Except.map Reply.episodes) hrecords.fetched
  | findSimilarGoals keyword limit =>
    obtain ⟨hlimit, -, hselects, rfl⟩ := hexec
    rw [toNat_toInt64 hlimit] at hselects
    have hmatch : Holds (rows'.filter fun row => pg.ilike (pattern keyword) row.taskGoal = some true)
        (es.filter (Mentions pg keyword)) := by
      refine h.filter ?_
      intro row e hrow
      rw [ilike_pattern, (mapEpisodeRow_ok hrow).2.1, decide_eq_decide, Option.some.injEq,
        decide_eq_true_iff, Mentions]
    obtain ⟨records, hrecords, hnewest⟩ := hmatch.selects hselects
    refine ⟨_, _, ?_, .similar hnewest, h⟩
    exact congrArg (Except.map Reply.episodes) hrecords.fetched
  | delete id =>
    obtain ⟨rfl, rfl⟩ := hexec
    refine ⟨_, _, ?_, .delete, h.filter ?_⟩
    · have hdeleted : decide (0 < es.countP (·.id = id)) = es.any (·.id = id) := by
        rw [Bool.eq_iff_iff, decide_eq_true_iff, List.countP_pos_iff, List.any_eq_true]
      rw [h.countP_id, ← hdeleted]
      rfl
    · intro row e hrow
      rw [(mapEpisodeRow_ok hrow).1]

theorem Holds.serves (hpg : pg.Documented) (h : Holds rows es) {answer : call.query.Answer}
    (hserves : pg.Serves now rows call.query answer rows') :
    ∃ es', Spec pg now call es (call.reply answer) es' ∧ Holds rows' es' := by
  cases answer with
  | ok result =>
    obtain ⟨reply, es', hreply, hspec, hholds⟩ := h.executes hpg hserves
    rw [hreply]
    exact ⟨es', hspec, hholds⟩
  | error msg =>
    rw [Call.reply_error]
    rcases hserves with rfl | ⟨result, hexec⟩
    · exact ⟨es, .failed msg, h⟩
    · obtain ⟨reply, es', -, hspec, hholds⟩ := h.executes hpg hexec
      exact ⟨es', .unacknowledged msg hspec, hholds⟩

/-- **The log is a collection of episodes.** Whatever tasks call the log side by side, in whatever
order the database executes their statements, each call has the result that a history of the
collection gives it, and the table holds the episodes of that collection. -/
theorem calls_linearize {ι : Type} [DecidableEq ι] (hpg : pg.Documented) {calls : ι → Call}
    {log : PoolLog ι Timestamp Query.Answer} {rows : List RawEpisodeRow}
    (h : Interleaved (fun i => (calls i).run) pg.Serves [] log rows) :
    ∃ results es, Sequential (fun i now => Spec pg now (calls i)) [] results es ∧ Holds rows es ∧
      (results.map fun x => (x.1, x.2.1)).Sublist (log.map fun e => (e.task, e.moment)) ∧
      ∀ i res, Prog.Returns (calls i).run (own i log) res ↔ ∃ now, (i, now, res) ∈ results := by
  simp only [Call.run_eq_once] at h ⊢
  exact h.linearizes_once .nil fun habs hserves => habs.serves hpg hserves

/-! One task records an episode, then another searches for it. -/

/-- A database that folds the letters of ASCII and keeps documents as they are. -/
def plain : Postgres := ⟨Char, inferInstance, Char.toLower, some⟩

theorem plain_documented : plain.Documented where
  bool h := (Option.some.inj h).symm
  str h := (Option.some.inj h).symm
  arr {items _} h := ⟨items, List.mapM_eq_some_iff.mpr rfl, (Option.some.inj h).symm⟩
  obj {fields _} _ h := ⟨fields, (Option.some.inj h).symm, fun _ => rfl⟩

def reporting : EpisodeInput where
  taskGoal := "Weekly report"
  steps := [.succeeded "url_fetch" .null]
  outcome := .success
  error := none
  durationMs := 800
  error_iff := by decide

def reportingRow : RawEpisodeRow :=
  ⟨7, "Weekly report", stepsJson reporting.steps, "success", none, 800, 1⟩

def twoCalls : Bool → Call
  | true => .insert reporting
  | false => .findSimilarGoals "weekly" 10

def twoCallsLog : PoolLog Bool Timestamp Query.Answer :=
  [⟨true, 1, (twoCalls true).query, .ok (7 : Uuid)⟩,
    ⟨false, 2, (twoCalls false).query, .ok [reportingRow]⟩]

theorem interleaved_twoCalls :
    Interleaved (fun i => (twoCalls i).run) plain.Serves [] twoCallsLog [reportingRow] := by
  have hinsert : Interleaved (fun i => (twoCalls i).run) plain.Serves []
      [⟨true, 1, (twoCalls true).query, .ok (7 : Uuid)⟩] [reportingRow] :=
    .snoc true 1 .nil (.here _ _) ⟨nofun, _, rfl, rfl⟩
  refine hinsert.snoc false 2 (.here _ _) ?_
  have hmatch : ∀ row ∈ [reportingRow],
      plain.ilike (pattern "weekly") row.taskGoal = some true := by
    intro row hrow
    rw [List.mem_singleton.mp hrow, ilike_pattern]
    decide +kernel
  refine ⟨by decide, fun row hrow => ?_, ?_, rfl⟩
  · rw [hmatch row hrow]
    nofun
  · rw [List.filter_eq_self.mpr fun row hrow => decide_eq_true (hmatch row hrow)]
    exact ⟨[reportingRow], .refl _, by simp, rfl⟩

theorem calls_linearize_twoCalls :
    ∃ results es, Sequential (fun i now => Spec plain now (twoCalls i)) [] results es ∧
      Holds [reportingRow] es ∧ ∃ now, (true, now, .ok (.inserted 7)) ∈ results := by
  obtain ⟨results, es, hseq, hholds, -, hresults⟩ :=
    calls_linearize plain_documented interleaved_twoCalls
  have hreturns : Prog.Returns (twoCalls true).run (own true twoCallsLog)
      (.ok (.inserted 7)) := Call.run_returns (.insert reporting) (.ok (7 : Uuid))
  exact ⟨results, es, hseq, hholds, (hresults true _).mp hreturns⟩

end EpisodicLog

end Xola

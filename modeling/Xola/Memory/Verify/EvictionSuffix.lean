import Xola.Data.Replay
import Xola.Memory.ShortTerm

/-!
# The buffer is the longest fitting suffix

Eviction is incremental: `push` drops messages from the front of a buffer that earlier pushes have
already truncated. `Retains` is the invariant that makes this harmless: besides an exact token
count, the buffer still contains every suffix of the retained messages that fits the budget. One
lemma per operation preserves it, and after a push it is the maximality of the buffer.
-/

namespace Xola.ShortTermMemory

/-! ## Histories of operations -/

inductive Op where
  | push (msg : Message)
  | replaceWithSummary (summary : Message)
  | clear

/-- The token count an operation brings in. -/
def Op.incoming : Op → Nat
  | .push msg => msg.tokenCount
  | .replaceWithSummary summary => summary.tokenCount
  | .clear => 0

def apply (stm : ShortTermMemory) : Op → ShortTermMemory
  | .push msg => stm.push msg
  | .replaceWithSummary summary => stm.replaceWithSummary summary
  | .clear => stm.clear

def run (stm : ShortTermMemory) (ops : List Op) : ShortTermMemory := ops.foldl apply stm

/-- What a buffer without a budget would hold: the messages pushed since the last `clear`, or the
last summary and the messages pushed since. -/
def retained (ops : List Op) : List Message :=
  ops.foldl (fun kept op => match op with
    | .push msg => kept ++ [msg]
    | .replaceWithSummary summary => [summary]
    | .clear => []) []

@[simp] theorem retained_push (ops : List Op) (msg : Message) :
    retained (ops ++ [.push msg]) = retained ops ++ [msg] := by
  simp [retained]

@[simp] theorem retained_replaceWithSummary (ops : List Op) (summary : Message) :
    retained (ops ++ [.replaceWithSummary summary]) = [summary] := by
  simp [retained]

@[simp] theorem retained_clear (ops : List Op) : retained (ops ++ [.clear]) = [] := by
  simp [retained]

/-! ## Token sums -/

def tokens (msgs : List Message) : Nat := (msgs.map Message.tokenCount).sum

@[simp] theorem tokens_nil : tokens [] = 0 := rfl

@[simp] theorem tokens_cons (m : Message) (ms : List Message) :
    tokens (m :: ms) = m.tokenCount + tokens ms := by
  simp [tokens]

@[simp] theorem tokens_append (ms ms' : List Message) :
    tokens (ms ++ ms') = tokens ms + tokens ms' := by
  simp [tokens]

/-- The messages fit into `maxTokens`. -/
def Fits (maxTokens : Nat) (msgs : List Message) : Prop := tokens msgs ≤ maxTokens

instance (maxTokens : Nat) : DecidablePred (Fits maxTokens) :=
  fun msgs => inferInstanceAs (Decidable (tokens msgs ≤ maxTokens))

/-! ## The eviction loop -/

/-- There is room for `incoming` more tokens. -/
def Room (maxTokens incoming : Nat) (msgs : List Message) : Prop :=
  tokens msgs + incoming ≤ maxTokens

instance (maxTokens incoming : Nat) : DecidablePred (Room maxTokens incoming) :=
  fun msgs => inferInstanceAs (Decidable (tokens msgs + incoming ≤ maxTokens))

/-- On an exact count that cannot overflow, the loop drops messages until there is room, and its
count stays exact. -/
theorem evict_eq {maxTokens incoming : Nat} {msgs : List Message}
    (hsum : tokens msgs + incoming < 2 ^ 64) :
    evict maxTokens incoming msgs (tokens msgs) =
      (msgs.longestSuffix (Room maxTokens incoming),
        tokens (msgs.longestSuffix (Room maxTokens incoming))) := by
  induction msgs with
  | nil => rfl
  | cons m ms ih =>
    rw [tokens_cons] at hsum
    have hadd : usizeAdd (tokens (m :: ms)) incoming = tokens (m :: ms) + incoming :=
      Nat.mod_eq_of_lt (by rw [tokens_cons]; omega)
    unfold evict List.longestSuffix
    rw [hadd]
    by_cases hroom : Room maxTokens incoming (m :: ms)
    · rw [if_neg (Nat.not_lt.2 hroom), if_pos hroom]
    · rw [if_pos (Nat.lt_of_not_le hroom), if_neg hroom, tokens_cons, Nat.add_sub_cancel_left]
      exact ih (by omega)

/-! ## The invariant -/

/-- What the buffer has kept of the messages `kept` that an unbounded buffer would hold. -/
structure Retains (maxTokens : Nat) (kept : List Message) (stm : ShortTermMemory) : Prop where
  maxTokens_eq : stm.maxTokens = maxTokens
  count : stm.tokenCount = tokens stm.messages
  noOverflow : tokens stm.messages < 2 ^ 63
  suffix : stm.messages <:+ kept
  covers : ∀ t, t <:+ kept → Fits maxTokens t → t <:+ stm.messages

namespace Retains

variable {maxTokens : Nat} {kept : List Message} {stm : ShortTermMemory}

theorem clear (h : Retains maxTokens kept stm) : Retains maxTokens [] stm.clear :=
  ⟨h.maxTokens_eq, rfl, Nat.two_pow_pos 63, List.suffix_rfl, fun _ ht _ => ht⟩

theorem replaceWithSummary (h : Retains maxTokens kept stm) {summary : Message}
    (hs : summary.tokenCount < 2 ^ 63) :
    Retains maxTokens [summary] (stm.replaceWithSummary summary) :=
  ⟨h.maxTokens_eq, by simp [ShortTermMemory.replaceWithSummary],
    by simpa [ShortTermMemory.replaceWithSummary] using hs, List.suffix_rfl, fun _ ht _ => ht⟩

/-- What `push` computes under the invariant. -/
theorem push_eq (h : Retains maxTokens kept stm) {msg : Message}
    (hm : msg.tokenCount < 2 ^ 63) :
    (stm.push msg).messages =
        stm.messages.longestSuffix (Room maxTokens msg.tokenCount) ++ [msg] ∧
      (stm.push msg).tokenCount = tokens (stm.push msg).messages := by
  have hlt := h.noOverflow
  have hevict : evict maxTokens msg.tokenCount stm.messages (tokens stm.messages) = _ :=
    evict_eq (by omega)
  have hle : tokens (stm.messages.longestSuffix (Room maxTokens msg.tokenCount)) ≤
      tokens stm.messages := by
    obtain ⟨dropped, hd⟩ :=
      List.longestSuffix_suffix (p := Room maxTokens msg.tokenCount) stm.messages
    have := congrArg tokens hd
    rw [tokens_append] at this
    omega
  unfold ShortTermMemory.push
  rw [h.count, h.maxTokens_eq, hevict]
  refine ⟨rfl, ?_⟩
  simp only [tokens_append, tokens_cons, tokens_nil, Nat.add_zero]
  exact Nat.mod_eq_of_lt (by omega)

/-- A pushed message that fits leaves a buffer that fits. -/
theorem push_fits (h : Retains maxTokens kept stm) {msg : Message}
    (hm : msg.tokenCount < 2 ^ 63) (hfit : msg.tokenCount ≤ maxTokens) :
    Fits maxTokens (stm.push msg).messages := by
  rw [(h.push_eq hm).1]
  rcases List.longestSuffix_holds (p := Room maxTokens msg.tokenCount) stm.messages with he | hr
  · rw [he]
    simpa [Fits] using hfit
  · simpa [Fits, Room] using hr

/-- A pushed message larger than the budget is left alone in the buffer. -/
theorem push_oversized (h : Retains maxTokens kept stm) {msg : Message}
    (hm : msg.tokenCount < 2 ^ 63) (hbig : maxTokens < msg.tokenCount) :
    (stm.push msg).messages = [msg] := by
  rw [(h.push_eq hm).1]
  rcases List.longestSuffix_holds (p := Room maxTokens msg.tokenCount) stm.messages with he | hr
  · rw [he, List.nil_append]
  · unfold Room at hr
    omega

theorem push (h : Retains maxTokens kept stm) {msg : Message} (hm : msg.tokenCount < 2 ^ 63)
    (hmax : maxTokens < 2 ^ 63) : Retains maxTokens (kept ++ [msg]) (stm.push msg) := by
  obtain ⟨hmsgs, hcount⟩ := h.push_eq hm
  refine ⟨h.maxTokens_eq, hcount, ?_, ?_, ?_⟩
  · rcases Nat.lt_or_ge maxTokens msg.tokenCount with hbig | hfit
    · rw [h.push_oversized hm hbig]
      simpa using hm
    · exact Nat.lt_of_le_of_lt (h.push_fits hm hfit) hmax
  · rw [hmsgs]
    exact (List.suffix_append_self_iff).2 ((List.longestSuffix_suffix _).trans h.suffix)
  · intro t ht hfits
    rw [hmsgs]
    rcases List.suffix_concat_iff.1 ht with rfl | ⟨u, rfl, hu⟩
    · exact List.nil_suffix
    · -- a fitting suffix that ends in `msg` is a fitting suffix of `kept` with room for `msg`
      have hroom : Room maxTokens msg.tokenCount u := by
        simpa [Fits, Room] using hfits
      have hu' : Fits maxTokens u := by
        unfold Fits Room at *
        omega
      exact (List.suffix_append_self_iff).2
        (List.suffix_longestSuffix (h.covers u hu hu') hroom)

end Retains

/-- Every history of operations leaves the buffer in a state related to it by `Retains`. -/
theorem retains_run {maxTokens : Nat} (hmax : maxTokens < 2 ^ 63) {stm : ShortTermMemory}
    (hnew : new maxTokens = some stm) {ops : List Op} (hops : ∀ op ∈ ops, op.incoming < 2 ^ 63) :
    Retains maxTokens (retained ops) (stm.run ops) := by
  refine List.foldl_invariant (fun ops s => Retains maxTokens (retained ops) s) ?_ ?_ hops
  · simp only [new, Option.ite_none_right_eq_some, Option.some.injEq] at hnew
    obtain ⟨-, rfl⟩ := hnew
    exact ⟨rfl, rfl, Nat.two_pow_pos 63, List.suffix_rfl, fun _ ht _ => ht⟩
  · intro ops s op hop h
    cases op with
    | push msg => rw [retained_push]; exact h.push hop hmax
    | replaceWithSummary summary => rw [retained_replaceWithSummary]; exact h.replaceWithSummary hop
    | clear => rw [retained_clear]; exact h.clear

/-- **The buffer is the longest fitting suffix.** In every reachable state the cached token count
is exact, and right after a push the buffer is the longest suffix of the retained messages that
fits the budget, or the pushed message alone when it is larger than the budget. -/
theorem longest_fitting_suffix {maxTokens : Nat} (hmax : maxTokens < 2 ^ 63)
    {stm : ShortTermMemory} (hnew : new maxTokens = some stm) {ops : List Op}
    (hops : ∀ op ∈ ops, op.incoming < 2 ^ 63) :
    (stm.run ops).tokenCount = tokens (stm.run ops).messages ∧
      ∀ before msg, ops = before ++ [.push msg] →
        (msg.tokenCount ≤ maxTokens →
          List.IsLongestSuffix (Fits maxTokens) (retained ops) (stm.run ops).messages) ∧
        (maxTokens < msg.tokenCount → (stm.run ops).messages = [msg]) := by
  refine ⟨(retains_run hmax hnew hops).count, ?_⟩
  intro before msg heq
  subst heq
  have hmsg : msg.tokenCount < 2 ^ 63 := hops (.push msg) (by simp)
  have hbefore := retains_run hmax hnew fun op hop => hops op (List.mem_append_left _ hop)
  have hafter := retains_run hmax hnew hops
  have hrun : stm.run (before ++ [.push msg]) = (stm.run before).push msg := by
    simp [run, apply]
  constructor
  · intro hfit
    have hfits : Fits maxTokens (stm.run (before ++ [.push msg])).messages := by
      rw [hrun]
      exact hbefore.push_fits hmsg hfit
    exact ⟨hafter.suffix, hfits, fun t ht ht' => (hafter.covers t ht ht').length_le⟩
  · intro hbig
    rw [hrun]
    exact hbefore.push_oversized hmsg hbig

/-- A budget of 10: the third push evicts the first message, the last one replaces everything. -/
theorem longest_fitting_suffix_evicting :
    let msg := fun n => Message.mk .user "" n
    let stm := ShortTermMemory.mk [] 0 10
    (stm.run [.push (msg 4), .push (msg 5), .push (msg 3)]).messages = [msg 5, msg 3] ∧
      List.IsLongestSuffix (Fits 10) [msg 4, msg 5, msg 3]
        (stm.run [.push (msg 4), .push (msg 5), .push (msg 3)]).messages ∧
      (stm.run [.push (msg 4), .push (msg 12)]).messages = [msg 12] := by
  intro msg stm
  have h := @longest_fitting_suffix 10 (by decide) stm rfl
    [.push (msg 4), .push (msg 5), .push (msg 3)] (by decide)
  have h' := @longest_fitting_suffix 10 (by decide) stm rfl
    [.push (msg 4), .push (msg 12)] (by decide)
  exact ⟨by decide, (h.2 [.push (msg 4), .push (msg 5)] (msg 3) rfl).1 (by decide),
    (h'.2 [.push (msg 4)] (msg 12) rfl).2 (by decide)⟩

end Xola.ShortTermMemory

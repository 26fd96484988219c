import Mathlib.Data.List.Induction
import Xola.Reliability.LoopDetector

/-!
# The detector refines a sliding window

A detector is used by recording calls and clearing. Seen from outside it is the list of the calls
recorded since the last `clear`, of which the last `window_size` count. The window holds their hashes,
so without collisions it repeats exactly when they do.

`record` evicts before it inserts, and at most one hash. That keeps a window of any size but zero
within its bound: with `window_size` zero nothing is left to evict for the first call, which stays.
-/

namespace Xola.LoopDetector

inductive Operation where
  | record (toolName : String) (input : Json)
  | clear

def apply [SerdeJson] (hs : Hashing) (ld : LoopDetector) : Operation → LoopDetector
  | .record toolName input => ld.record hs toolName input
  | .clear => ld.clear

def after [SerdeJson] (hs : Hashing) (ld : LoopDetector) (ops : List Operation) : LoopDetector :=
  ops.foldl (apply hs) ld

/-- The calls recorded since the last `clear`. -/
def recorded (ops : List Operation) : List (String × Json) :=
  ops.foldl (fun calls op => match op with
    | .record toolName input => calls ++ [(toolName, input)]
    | .clear => []) []

/-- Calls with the same hash are the same call. -/
def CollisionFree [SerdeJson] (hs : Hashing) (calls : List (String × Json)) : Prop :=
  ∀ c ∈ calls, ∀ c' ∈ calls, hashCall hs c.1 c.2 = hashCall hs c'.1 c'.2 → c = c'

/-- The detector `ld` is a window over the last `K` of `calls` that tells when one of them occurs
`M` times in it. -/
structure Windows [SerdeJson] (hs : Hashing) (K M : Nat) (calls : List (String × Json))
    (ld : LoopDetector) : Prop where
  window_eq : ld.window = (calls.rtake K).map fun c => hashCall hs c.1 c.2
  length_le : ld.window.length ≤ K
  isLooping_iff : (ld.isLooping hs).isSome ↔ ∃ c, M ≤ (calls.rtake K).count c

/-- The detector made for `K` and `M` is one, after the operations. -/
def Refines [SerdeJson] (hs : Hashing) (K M : Nat) (ops : List Operation) : Prop :=
  ∀ ld, new K M = some ld → Windows hs K M (recorded ops) (after hs ld ops)

section Refines

variable [SerdeJson] {hs : Hashing} {K M : Nat} {ops : List Operation} {ld : LoopDetector}

/-- What a detector holds after the operations, whatever its size. -/
structure Holds (hs : Hashing) (K M : Nat) (ops : List Operation) (ld : LoopDetector) : Prop where
  windowSize : ld.windowSize = K
  repeatThreshold : ld.repeatThreshold = M
  window_eq : ld.window = ((recorded ops).map fun c => hashCall hs c.1 c.2).rtake (max K 1)

theorem Holds.apply (h : Holds hs K M ops ld) (op : Operation) :
    Holds hs K M (ops ++ [op]) (ld.apply hs op) := by
  cases op with
  | clear => exact ⟨h.windowSize, h.repeatThreshold, by simp [LoopDetector.apply, clear, recorded]⟩
  | record toolName input =>
    refine ⟨h.windowSize, h.repeatThreshold, ?_⟩
    have hrecorded : recorded (ops ++ [.record toolName input]) =
        recorded ops ++ [(toolName, input)] := by simp [recorded]
    have hwindow := h.window_eq
    rw [← h.windowSize] at hwindow ⊢
    rw [LoopDetector.apply, record_window hwindow, hrecorded, List.map_append]
    rfl

theorem holds_after (hld : new K M = some ld) (ops : List Operation) :
    Holds hs K M ops (after hs ld ops) := by
  induction ops using List.reverseRecOn with
  | nil =>
    unfold new at hld
    split at hld
    · cases hld
      exact ⟨rfl, rfl, by simp [after, recorded]⟩
    · cases hld
  | append_singleton ops op ih =>
    rw [after, List.foldl_append]
    exact ih.apply op

/-- Where the size makes no difference, the window is the one that is meant. -/
theorem Holds.windows (h : Holds hs K M ops ld) (hM : 1 ≤ M)
    (hfree : CollisionFree hs (recorded ops)) (hK : 1 ≤ K ∨ recorded ops = []) :
    Windows hs K M (recorded ops) ld := by
  have hwindow : ld.window = ((recorded ops).rtake K).map fun c => hashCall hs c.1 c.2 := by
    rw [h.window_eq]
    rcases hK with hK | hK
    · rw [Nat.max_eq_left hK, List.rtake_map]
    · simp [hK]
  refine ⟨hwindow, ?_, ?_⟩
  · rw [hwindow, List.length_map, List.rtake_length]
    exact Nat.min_le_left _ _
  · have hsuf := List.rtake_suffix (recorded ops) K
    rw [isLooping_isSome_iff, hwindow, h.repeatThreshold, List.exists_count_map_iff
      fun c hc c' hc' => hfree c (hsuf.mem hc) c' (hsuf.mem hc')]
    constructor
    · rintro ⟨c, -, hle⟩
      exact ⟨c, hle⟩
    · rintro ⟨c, hle⟩
      exact ⟨c, List.count_pos_iff.1 (by omega), hle⟩

/-- **When the detector is a window of its size.** After any operations, the window holds the hashes
of the last `K` calls since the last `clear`, at most `K` of them, and a loop is reported exactly if
one call occurs `M` times among these, unless `K` is zero and there is such a call. -/
theorem refines_iff (hnew : new K M ≠ none) (hM : 1 ≤ M)
    (hfree : CollisionFree hs (recorded ops)) :
    Refines hs K M ops ↔ 1 ≤ K ∨ recorded ops = [] := by
  constructor
  · intro hr
    obtain ⟨ld, hld⟩ := Option.ne_none_iff_exists'.1 hnew
    have hlen := (hr ld hld).length_le
    rw [(holds_after hld ops).window_eq, List.rtake_length, List.length_map] at hlen
    rcases Nat.eq_zero_or_pos (recorded ops).length with hnil | hpos
    · exact .inr (List.eq_nil_of_length_eq_zero hnil)
    · exact .inl (by omega)
  · intro hK ld hld
    exact (holds_after hld ops).windows hM hfree hK

end Refines

/-- A hash by length; it tells the calls below apart. -/
def lengthHash : Hashing :=
  ⟨fun toolName input => (1000 * toolName.length + input.length).toUInt64, List.reverse,
    List.reverse_perm⟩

def searchTwice : List Operation :=
  [.record "search" (.str "lean 4"), .clear, .record "search" (.str "rust"), .record "fetch" .null,
    .record "search" (.str "rust")]

attribute [local instance] SerdeJson.plain

theorem refines_iff_searchTwice :
    Refines lengthHash 2 2 searchTwice ∧
      recorded searchTwice =
        [("search", .str "rust"), ("fetch", .null), ("search", .str "rust")] := by
  have hfree : CollisionFree lengthHash (recorded searchTwice) := by
    unfold CollisionFree
    decide +kernel
  exact ⟨(refines_iff (by decide) (by decide) hfree).2 (.inl (by decide)), rfl⟩

/-- With `window_size` zero the first call stays in the window. -/
theorem zero_not_refines : ¬Refines lengthHash 0 3 [.record "search" (.str "lean 4")] := by
  intro hr
  have hlen := (hr _ rfl).length_le
  revert hlen
  decide +kernel

end Xola.LoopDetector

import Mathlib.Algebra.Ring.Nat
import Xola.Data.Window
import Xola.Json

/-!
# Loop detector

`runtime/src/reliability/loop_detector.rs`: a sliding window of call hashes. Two facts of the
standard library are left open in `Hashing`: the values of `DefaultHasher`, and the order in which
a `HashMap` is iterated, which is some permutation of its entries.

`VecDeque::with_capacity` panics when the buffer would exceed `isize::MAX` bytes; this is the `none`
of `LoopDetector.new`.
-/

namespace Xola

structure Hashing where
  /-- `DefaultHasher` after hashing a tool name and a canonical input. -/
  hash : String → String → UInt64
  /-- The iteration order of a `HashMap<u64, usize>` with the given entries. -/
  order : List (UInt64 × Nat) → List (UInt64 × Nat)
  order_perm : ∀ entries, (order entries).Perm entries

structure LoopDetectorConfig where
  windowSize : Nat
  repeatThreshold : Nat
  deriving DecidableEq, Repr

/-- `impl Default for LoopDetectorConfig`. -/
def LoopDetectorConfig.default : LoopDetectorConfig := ⟨10, 3⟩

structure LoopDetector where
  window : List UInt64
  windowSize : Nat
  repeatThreshold : Nat
  deriving DecidableEq, Repr

namespace LoopDetector

def new (windowSize repeatThreshold : Nat) : Option LoopDetector :=
  if windowSize * 8 < 2 ^ 63 then some ⟨[], windowSize, repeatThreshold⟩ else none

def fromConfig (config : LoopDetectorConfig) : Option LoopDetector :=
  new config.windowSize config.repeatThreshold

def hashCall [SerdeJson] (hs : Hashing) (toolName : String) (input : Json) : UInt64 :=
  hs.hash toolName (SerdeJson.toString input)

def record [SerdeJson] (hs : Hashing) (ld : LoopDetector) (toolName : String) (input : Json) :
    LoopDetector :=
  let window := if ld.windowSize ≤ ld.window.length then ld.window.drop 1 else ld.window
  { ld with window := window ++ [hashCall hs toolName input] }

/-- `*counts.entry(hash).or_insert(0) += 1`. -/
def countEntry : List (UInt64 × Nat) → UInt64 → List (UInt64 × Nat)
  | [], hash => [(hash, 1)]
  | (k, n) :: rest, hash =>
    if k = hash then (k, n + 1) :: rest else (k, n) :: countEntry rest hash

def counts (window : List UInt64) : List (UInt64 × Nat) := window.foldl countEntry []

def loopMessage (hash : UInt64) (count : Nat) : String :=
  "Detected loop: tool called " ++ toString count ++ " times with identical input (hash: " ++
    toString hash ++ ")"

def isLooping (hs : Hashing) (ld : LoopDetector) : Option String :=
  ((hs.order (counts ld.window)).find? fun e => ld.repeatThreshold ≤ e.2).map
    fun e => loopMessage e.1 e.2

def clear (ld : LoopDetector) : LoopDetector := { ld with window := [] }

/-- One step of the window. The check comes before the push, so that a window of size zero works as
one of size one. -/
theorem record_window [SerdeJson] {hs : Hashing} {ld : LoopDetector} {hashes : List UInt64}
    (h : ld.window = hashes.rtake (max ld.windowSize 1)) (toolName : String) (input : Json) :
    (ld.record hs toolName input).window =
      (hashes ++ [hashCall hs toolName input]).rtake (max ld.windowSize 1) := by
  have hdrop : (if ld.windowSize ≤ ld.window.length then ld.window.drop 1 else ld.window) =
      if max ld.windowSize 1 ≤ ld.window.length then ld.window.drop 1 else ld.window := by
    cases ld.window with
    | nil => simp
    | cons x xs =>
      have hmax : ld.windowSize ≤ xs.length + 1 ↔ max ld.windowSize 1 ≤ xs.length + 1 := by
        omega
      simp only [List.length_cons, hmax]
  rw [record, hdrop, List.rtake_concat (Nat.le_max_right _ _), h]

/-! ## Counting -/

/-- A count table of the window: every hash in it once, with the number of its occurrences. -/
structure Tallies (window : List UInt64) (entries : List (UInt64 × Nat)) : Prop where
  nodup : (entries.map Prod.fst).Nodup
  mem_iff : ∀ hash n, (hash, n) ∈ entries ↔ hash ∈ window ∧ n = window.count hash

theorem countEntry_of_notMem {entries : List (UInt64 × Nat)} {hash : UInt64}
    (h : hash ∉ entries.map Prod.fst) : countEntry entries hash = entries ++ [(hash, 1)] := by
  induction entries with
  | nil => rfl
  | cons e rest ih =>
    rw [List.map_cons, List.mem_cons, not_or] at h
    rw [countEntry, if_neg fun he => h.1 he.symm, ih h.2, List.cons_append]

theorem countEntry_of_mem {entries : List (UInt64 × Nat)} {hash : UInt64} {n : Nat}
    (hnd : (entries.map Prod.fst).Nodup) (h : (hash, n) ∈ entries) :
    countEntry entries hash =
      entries.map fun e => if e.1 = hash then (hash, n + 1) else e := by
  induction entries with
  | nil => cases h
  | cons e rest ih =>
    obtain ⟨k, m⟩ := e
    rw [List.map_cons, List.nodup_cons] at hnd
    by_cases hk : k = hash
    · subst hk
      obtain rfl : n = m := by
        rcases List.mem_cons.1 h with h | h
        · cases h; rfl
        · exact absurd (List.mem_map_of_mem h) hnd.1
      have hrest : (rest.map fun e => if e.1 = k then (k, n + 1) else e) = rest := by
        apply (List.map_congr_left _).trans (List.map_id rest)
        intro e he
        have hmem : e.1 ∈ rest.map Prod.fst := List.mem_map_of_mem he
        exact if_neg fun hek : e.1 = k => hnd.1 (hek ▸ hmem)
      rw [countEntry, if_pos rfl, List.map_cons, if_pos rfl, hrest]
    · have hr : (hash, n) ∈ rest := by
        rcases List.mem_cons.1 h with h | h
        · cases h; exact absurd rfl hk
        · exact h
      rw [countEntry, if_neg hk, List.map_cons, if_neg hk, ih hnd.2 hr]

theorem count_concat_of_ne {window : List UInt64} {k hash : UInt64} (hk : k ≠ hash) :
    (window ++ [hash]).count k = window.count k := by
  have hzero : [hash].count k = 0 := List.count_eq_zero.2 (by simpa using hk)
  rw [List.count_append, hzero, Nat.add_zero]

/-- A hash that has been counted gets one more. -/
theorem Tallies.seen {window : List UInt64} {entries : List (UInt64 × Nat)} {hash : UInt64}
    (h : Tallies window entries) (hmem : hash ∈ window) :
    Tallies (window ++ [hash]) (countEntry entries hash) := by
  have he : (hash, window.count hash) ∈ entries := (h.mem_iff _ _).2 ⟨hmem, rfl⟩
  rw [countEntry_of_mem h.nodup he]
  constructor
  · have hkeys : (entries.map fun e =>
        if e.1 = hash then (hash, window.count hash + 1) else e).map Prod.fst =
          entries.map Prod.fst := by
      rw [List.map_map]
      apply List.map_congr_left
      intro e _
      by_cases hk : e.1 = hash <;> simp [hk]
    rw [hkeys]
    exact h.nodup
  · intro k n
    rw [List.mem_map, List.mem_append]
    by_cases hk : k = hash
    · subst hk
      rw [List.count_append, List.count_singleton_self]
      constructor
      · intro hin
        obtain ⟨e, hm, heq⟩ := hin
        by_cases hek : e.1 = k
        · rw [if_pos hek] at heq
          cases heq
          exact ⟨.inl hmem, rfl⟩
        · rw [if_neg hek] at heq
          subst heq
          exact absurd rfl hek
      · intro hin
        obtain ⟨-, hn⟩ := hin
        exact ⟨_, he, by rw [if_pos rfl, hn]⟩
    · rw [count_concat_of_ne hk]
      constructor
      · intro hin
        obtain ⟨e, hm, heq⟩ := hin
        by_cases hek : e.1 = hash
        · rw [if_pos hek] at heq
          cases heq
          exact absurd rfl hk
        · rw [if_neg hek] at heq
          subst heq
          obtain ⟨hw, hn⟩ := (h.mem_iff _ _).1 hm
          exact ⟨.inl hw, hn⟩
      · intro hin
        obtain ⟨hw, hn⟩ := hin
        rcases hw with hw | hw
        · exact ⟨(k, n), (h.mem_iff _ _).2 ⟨hw, hn⟩, if_neg hk⟩
        · exact absurd (List.mem_singleton.1 hw) hk

/-- A hash that has not been counted gets an entry. -/
theorem Tallies.unseen {window : List UInt64} {entries : List (UInt64 × Nat)} {hash : UInt64}
    (h : Tallies window entries) (hmem : hash ∉ window) :
    Tallies (window ++ [hash]) (countEntry entries hash) := by
  have hkeys : hash ∉ entries.map Prod.fst := by
    intro hk
    obtain ⟨⟨k, n⟩, he, rfl⟩ := List.mem_map.1 hk
    exact hmem ((h.mem_iff _ _).1 he).1
  rw [countEntry_of_notMem hkeys]
  constructor
  · rw [List.map_append, List.nodup_append]
    refine ⟨h.nodup, by simp, ?_⟩
    intro a ha b hb hab
    rw [List.map_singleton, List.mem_singleton] at hb
    subst hab hb
    exact hkeys ha
  · intro k n
    rw [List.mem_append, List.mem_append, List.mem_singleton, List.mem_singleton,
      Prod.mk.injEq, h.mem_iff]
    by_cases hk : k = hash
    · subst hk
      simp [hmem, List.count_append, List.count_eq_zero.2 hmem]
    · simp [hk, count_concat_of_ne hk]

theorem Tallies.countEntry {window : List UInt64} {entries : List (UInt64 × Nat)}
    (h : Tallies window entries) (hash : UInt64) :
    Tallies (window ++ [hash]) (countEntry entries hash) := by
  by_cases hmem : hash ∈ window
  · exact h.seen hmem
  · exact h.unseen hmem

theorem tallies_counts (window : List UInt64) : Tallies window (counts window) := by
  unfold counts
  induction window using List.reverseRecOn with
  | nil => exact ⟨List.nodup_nil, by simp⟩
  | append_singleton w hash ih =>
    rw [List.foldl_append]
    exact ih.countEntry hash

/-- The verdict does not depend on the iteration order: a loop is reported when some hash of the
window reaches the threshold, and only then. -/
theorem isLooping_isSome_iff (hs : Hashing) (ld : LoopDetector) :
    (ld.isLooping hs).isSome ↔
      ∃ hash ∈ ld.window, ld.repeatThreshold ≤ ld.window.count hash := by
  have ht := tallies_counts ld.window
  unfold isLooping
  rw [Option.isSome_map, List.find?_isSome]
  constructor
  · intro hsome
    obtain ⟨e, he, hle⟩ := hsome
    obtain ⟨hw, hn⟩ := (ht.mem_iff e.1 e.2).1 ((hs.order_perm _).mem_iff.1 he)
    exact ⟨e.1, hw, hn ▸ of_decide_eq_true hle⟩
  · intro hsome
    obtain ⟨hash, hw, hle⟩ := hsome
    have he := (ht.mem_iff hash _).2 ⟨hw, rfl⟩
    exact ⟨_, (hs.order_perm _).mem_iff.2 he, decide_eq_true hle⟩

end LoopDetector

end Xola

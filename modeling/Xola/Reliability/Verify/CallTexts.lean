import Mathlib.Data.Set.Function
import Xola.Reliability.Verify.SlidingWindow

/-!
# When the detector is exact

`hash_call` gives the hasher two strings, the name of the tool and the printed input. So there are two
places where different calls can become one, the printer and the hasher, and a detector that is not
to be mistaken about some calls needs both to keep them apart. It also suffices: with a collision,
`M - 1` copies of one call and one of the other are reported as a loop, and they are none.
-/

namespace Xola.LoopDetector

section Exact

variable [SerdeJson] {hs : Hashing} {K M : Nat} {S : Set (String × Json)}

/-- What the hasher is given for a call. -/
def hashed (c : String × Json) : String × String := (c.1, SerdeJson.toString c.2)

/-- As long as only calls of `S` are recorded, a loop is reported exactly if one of them occurs `M`
times among the last `K`. -/
def Exact (hs : Hashing) (K M : Nat) (S : Set (String × Json)) : Prop :=
  ∀ ld, new K M = some ld → ∀ ops, (∀ c ∈ recorded ops, c ∈ S) →
    (((after hs ld ops).isLooping hs).isSome ↔ ∃ c, M ≤ ((recorded ops).rtake K).count c)

omit [SerdeJson] in
theorem recorded_map_record (calls : List (String × Json)) :
    recorded (calls.map fun c => .record c.1 c.2) = calls := by
  induction calls using List.reverseRecOn with
  | nil => rfl
  | append_singleton calls c ih =>
    rw [List.map_append, recorded, List.foldl_append]
    exact congrArg (· ++ [c]) ih

/-- A window of one hash is reported. -/
theorem isLooping_of_collision {ld : LoopDetector} {calls : List (String × Json)} {hash : UInt64}
    (hnew : new K M = some ld) (hM : 1 ≤ M) (hMK : M ≤ K) (hlen : calls.length = M)
    (hcollide : ∀ c ∈ calls, hashCall hs c.1 c.2 = hash) :
    ((after hs ld (calls.map fun c => .record c.1 c.2)).isLooping hs).isSome := by
  have hholds : Holds hs K M _ _ := holds_after hnew (calls.map fun c => .record c.1 c.2)
  have hmap : calls.map (fun c => hashCall hs c.1 c.2) = List.replicate M hash := by
    rw [← hlen]
    exact List.map_eq_replicate_iff.2 hcollide
  have hwindow := hholds.window_eq
  rw [recorded_map_record, hmap, Nat.max_eq_left (hM.trans hMK), List.rtake,
    List.length_replicate, Nat.sub_eq_zero_of_le hMK, List.drop_zero] at hwindow
  rw [isLooping_isSome_iff, hwindow, hholds.repeatThreshold]
  refine ⟨hash, List.mem_replicate.2 ⟨by omega, rfl⟩, ?_⟩
  rw [List.count_replicate_self]

/-- Two calls with one hash give it away: the one `M - 1` times and then the other. -/
theorem Exact.injOn (hexact : Exact hs K M S) (hnew : new K M ≠ none) (hM : 2 ≤ M) (hMK : M ≤ K) :
    Set.InjOn (fun c => hashCall hs c.1 c.2) S := by
  intro c hc c' hc' heq
  by_contra hne
  obtain ⟨ld, hld⟩ := Option.ne_none_iff_exists'.1 hnew
  let calls := List.replicate (M - 1) c ++ [c']
  have hlen : calls.length = M := by simp [calls]; omega
  have hmem : ∀ d ∈ calls, d = c ∨ d = c' := by
    intro d hd
    rcases List.mem_append.1 hd with hd | hd
    · exact .inl (List.eq_of_mem_replicate hd)
    · exact .inr (List.mem_singleton.1 hd)
  have hcollide : ∀ d ∈ calls, hashCall hs d.1 d.2 = hashCall hs c.1 c.2 := by
    intro d hd
    rcases hmem d hd with rfl | rfl
    · rfl
    · exact heq.symm
  have hS : ∀ d ∈ recorded (calls.map fun c => .record c.1 c.2), d ∈ S := by
    rw [recorded_map_record]
    intro d hd
    rcases hmem d hd with rfl | rfl
    · exact hc
    · exact hc'
  have hreported := isLooping_of_collision hld (by omega) hMK hlen hcollide
  obtain ⟨d, hd⟩ := (hexact ld hld _ hS).1 hreported
  rw [recorded_map_record, List.rtake, hlen, Nat.sub_eq_zero_of_le hMK, List.drop_zero,
    List.count_append, List.count_replicate, List.count_singleton] at hd
  by_cases hdc : c = d
  · have hdc' : (c' == d) = false := beq_false_of_ne fun h => hne (hdc.trans h.symm)
    simp only [hdc', Bool.false_eq_true, ↓reduceIte] at hd
    split at hd <;> omega
  · have hfalse : (c == d) = false := beq_false_of_ne hdc
    simp only [hfalse, Bool.false_eq_true, ↓reduceIte] at hd
    split at hd <;> omega

/-- **When the detector is exact.** On the calls of `S`, a loop is reported exactly if one call occurs
`M` times among the last `K`, in every use of the detector, if and only if the printer keeps the
calls of `S` apart and the hasher what is printed for them. -/
theorem exact_iff (hnew : new K M ≠ none) (hM : 2 ≤ M) (hMK : M ≤ K) :
    Exact hs K M S ↔
      Set.InjOn hashed S ∧ Set.InjOn (fun p => hs.hash p.1 p.2) (hashed '' S) := by
  have hcomp : (fun c : String × Json => hashCall hs c.1 c.2) =
      (fun p : String × String => hs.hash p.1 p.2) ∘ hashed := rfl
  constructor
  · intro hexact
    have hinj := hexact.injOn hnew hM hMK
    rw [hcomp] at hinj
    exact ⟨hinj.of_comp, hinj.image_of_comp⟩
  · rintro ⟨hprinter, hhasher⟩ ld hld ops hops
    have hinj : Set.InjOn (fun c : String × Json => hashCall hs c.1 c.2) S :=
      hprinter.comp_iff.2 hhasher
    have hfree : CollisionFree hs (recorded ops) :=
      fun c hc c' hc' heq => hinj (hops c hc) (hops c' hc') heq
    exact ((holds_after hld ops).windows (by omega) hfree (.inl (by omega))).isLooping_iff

end Exact

/-! Two calls under the default configuration, with a hash that tells them apart and one that does
not. -/

def constantHash : Hashing := { lengthHash with hash := fun _ _ => 0 }

def searches : Set (String × Json) := {("search", .str "lean 4"), ("search", .str "rust")}

attribute [local instance] SerdeJson.plain

theorem exact_iff_searches :
    Exact lengthHash 10 3 searches ∧ ¬Exact constantHash 10 3 searches := by
  have hne : ("search", JsonOf.str "lean 4") ≠ ("search", JsonOf.str "rust") := by decide
  constructor
  · refine (exact_iff (by decide) (by decide) (by decide)).2 ⟨?_, ?_⟩
    · exact Set.injOn_pair.2 fun h => absurd h (by decide +kernel)
    · rw [searches, Set.image_pair]
      exact Set.injOn_pair.2 fun h => absurd h (by decide +kernel)
  · intro hexact
    have hboth := (exact_iff (by decide) (by decide) (by decide)).1 hexact
    have hhashed := hboth.2 (Set.mem_image_of_mem hashed (Set.mem_insert _ _))
      (Set.mem_image_of_mem hashed (Set.mem_insert_of_mem _ rfl)) rfl
    exact hne (hboth.1 (Set.mem_insert _ _) (Set.mem_insert_of_mem _ rfl) hhashed)

end Xola.LoopDetector

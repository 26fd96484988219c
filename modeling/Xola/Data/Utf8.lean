import Mathlib.Data.List.Induction

/-!
# Lossy UTF-8 decoding

Decoding a byte at a time. The state is the beginning of a character: the bytes that have been read
of it. A byte that cannot go on with them ends the attempt, which is replaced by U+FFFD as a whole,
and is looked at afresh; so is what is left at the end of the input.

`lossy` is not a homomorphism: decoding two parts on their own differs from decoding the whole where
the second part goes on with a character that the first one leaves unfinished
(`length_lossy_append_lt`), and only there (`lossy_append`). `lossy_flatten_iff` says so of any
number of parts. Well-formed input is decoded as it is (`lossy_toByteArray`).
-/

namespace Utf8

/-- The length of a character that begins with `b`; zero if none does. -/
def width (b : UInt8) : Nat :=
  if b.toNat < 0x80 then 1
  else if 0xC2 ≤ b.toNat ∧ b.toNat ≤ 0xDF then 2
  else if 0xE0 ≤ b.toNat ∧ b.toNat ≤ 0xEF then 3
  else if 0xF0 ≤ b.toNat ∧ b.toNat ≤ 0xF4 then 4
  else 0

/-- The bytes that may follow the first one: no overlong forms, no surrogates, nothing above
U+10FFFF. -/
def second (a : UInt8) : Nat × Nat :=
  if a = 0xE0 then (0xA0, 0xBF)
  else if a = 0xED then (0x80, 0x9F)
  else if a = 0xF0 then (0x90, 0xBF)
  else if a = 0xF4 then (0x80, 0x8F)
  else (0x80, 0xBF)

/-- Does `b` go on with the character that begins with `q`? -/
def Continues (q : List UInt8) (b : UInt8) : Prop :=
  match q with
  | [] => False
  | [a] => (second a).1 ≤ b.toNat ∧ b.toNat ≤ (second a).2
  | _ :: _ :: _ => 0x80 ≤ b.toNat ∧ b.toNat ≤ 0xBF

instance : (q : List UInt8) → (b : UInt8) → Decidable (Continues q b)
  | [], _ => inferInstanceAs (Decidable False)
  | [_], _ => inferInstanceAs (Decidable (_ ∧ _))
  | _ :: _ :: _, _ => inferInstanceAs (Decidable (_ ∧ _))

def codePoint : List UInt8 → Nat
  | [a] => a.toNat
  | [a, b] => a.toNat % 32 * 64 + b.toNat % 64
  | [a, b, c] => a.toNat % 16 * 4096 + b.toNat % 64 * 64 + c.toNat % 64
  | [a, b, c, d] =>
    a.toNat % 8 * 262144 + b.toNat % 64 * 4096 + c.toNat % 64 * 64 + d.toNat % 64
  | _ => 0

def replacement : Char := Char.ofNat 0xFFFD

/-- An unfinished character is replaced. -/
def flush (q : List UInt8) : List Char := if q = [] then [] else [replacement]

/-- A byte that is the first of what it belongs to: what is put out, and the new state. -/
def start (b : UInt8) : List Char × List UInt8 :=
  if width b = 0 then ([replacement], [])
  else if width b = 1 then ([Char.ofNat (codePoint [b])], [])
  else ([], [b])

def step (q : List UInt8) (b : UInt8) : List Char × List UInt8 :=
  if Continues q b then
    if (q.head?.map width) = some (q.length + 1) then
      ([Char.ofNat (codePoint (q ++ [b]))], [])
    else ([], q ++ [b])
  else (flush q ++ (start b).1, (start b).2)

/-- What is put out before the end of the input. -/
def emit : List UInt8 → List UInt8 → List Char
  | _, [] => []
  | q, b :: bs => (step q b).1 ++ emit (step q b).2 bs

/-- The state at the end of the input. -/
def pending : List UInt8 → List UInt8 → List UInt8
  | q, [] => q
  | q, b :: bs => pending (step q b).2 bs

def decode (q bs : List UInt8) : List Char := emit q bs ++ flush (pending q bs)

def lossy (bs : List UInt8) : List Char := decode [] bs

example : lossy [0x48, 0xF0, 0x90, 0x80, 0x57] = ['H', replacement, 'W'] := by decide

/-! ## Splitting the input -/

section Split

variable {q a b bs : List UInt8} {c : UInt8}

theorem emit_append (q a b : List UInt8) : emit q (a ++ b) = emit q a ++ emit (pending q a) b := by
  induction a generalizing q with
  | nil => rfl
  | cons c a ih => rw [List.cons_append, emit, emit, pending, ih, List.append_assoc]

theorem pending_append (q a b : List UInt8) : pending q (a ++ b) = pending (pending q a) b := by
  induction a generalizing q with
  | nil => rfl
  | cons c a ih => exact ih _

theorem decode_append (q a b : List UInt8) :
    decode q (a ++ b) = emit q a ++ decode (pending q a) b := by
  rw [decode, emit_append, pending_append, List.append_assoc, decode]

theorem decode_cons (q : List UInt8) (c : UInt8) (bs : List UInt8) :
    decode q (c :: bs) = (step q c).1 ++ decode (step q c).2 bs := by
  rw [decode, emit, pending, List.append_assoc, decode]

theorem step_nil (c : UInt8) : step [] c = start c := rfl

theorem decode_of_not_continues (h : ¬Continues q c) :
    decode q (c :: bs) = flush q ++ decode [] (c :: bs) := by
  rw [decode_cons, decode_cons, step_nil, step, if_neg h, List.append_assoc]

theorem continues_singleton {a b : UInt8} : Continues [a] b ↔
    0x80 ≤ b.toNat ∧ b.toNat ≤ 0xBF ∧ (a.toNat = 0xE0 → 0xA0 ≤ b.toNat) ∧
      (a.toNat = 0xED → b.toNat ≤ 0x9F) ∧ (a.toNat = 0xF0 → 0x90 ≤ b.toNat) ∧
      (a.toNat = 0xF4 → b.toNat ≤ 0x8F) := by
  simp only [Continues, second, ← UInt8.toNat_inj]
  have hE0 : (0xE0 : UInt8).toNat = 0xE0 := rfl
  have hED : (0xED : UInt8).toNat = 0xED := rfl
  have hF0 : (0xF0 : UInt8).toNat = 0xF0 := rfl
  have hF4 : (0xF4 : UInt8).toNat = 0xF4 := rfl
  rw [hE0, hED, hF0, hF4]
  split
  · omega
  split
  · omega
  split
  · omega
  split <;> omega

theorem Continues.range (h : Continues q c) : 0x80 ≤ c.toNat ∧ c.toNat ≤ 0xBF := by
  match q with
  | [] => exact h.elim
  | [a] =>
    obtain ⟨hlow, hhigh, -⟩ := continues_singleton.mp h
    exact ⟨hlow, hhigh⟩
  | _ :: _ :: _ => exact h

theorem Continues.ne_nil (h : Continues q c) : q ≠ [] := by
  rintro rfl
  exact h

/-- A byte that continues a character begins none. -/
theorem start_of_continues (h : Continues q c) : start c = ([replacement], []) := by
  have hrange := h.range
  have hwidth : width c = 0 := by
    unfold width
    rw [if_neg (by omega), if_neg (by omega), if_neg (by omega), if_neg (by omega)]
  rw [start, if_pos hwidth]

theorem length_decode_le (q bs : List UInt8) :
    (decode q bs).length ≤ (decode [] bs).length + 1 := by
  induction bs generalizing q with
  | nil =>
    unfold decode flush emit pending
    split <;> simp
  | cons c bs ih =>
    by_cases hc : Continues q c
    · rw [decode_cons [], step_nil, start_of_continues hc, decode_cons, step, if_pos hc]
      split
      · simp
      · have := ih (q ++ [c])
        simp
        omega
    · rw [decode_of_not_continues hc, List.length_append]
      unfold flush
      split <;> simp
      omega

/-- Decoded afresh, a byte that goes on with a character costs at least one character more. -/
theorem length_decode_lt (h : Continues q c) :
    (decode q (c :: bs)).length < (flush q ++ decode [] (c :: bs)).length := by
  have hflush : flush q = [replacement] := if_neg h.ne_nil
  have hrest := length_decode_le (q ++ [c]) bs
  rw [hflush, decode_cons [], step_nil, start_of_continues h, decode_cons, step, if_pos h]
  split
  · simp
  · simp only [List.length_append, List.length_cons, List.length_nil]
    omega

/-- `b` goes on with a character that `a` leaves unfinished. -/
def Cuts (a b : List UInt8) : Prop := ∃ c ∈ b.head?, Continues (pending [] a) c

theorem lossy_append_eq (a b : List UInt8) : lossy a ++ lossy b =
    emit [] a ++ (flush (pending [] a) ++ lossy b) := by
  rw [lossy, decode, List.append_assoc]

theorem lossy_append (h : ¬Cuts a b) : lossy (a ++ b) = lossy a ++ lossy b := by
  rw [lossy_append_eq, lossy, decode_append]
  congr 1
  cases b with
  | nil => exact (List.append_nil _).symm
  | cons c b =>
    have hc : ¬Continues (pending [] a) c := fun hc => h ⟨c, rfl, hc⟩
    exact decode_of_not_continues hc

theorem length_lossy_append_lt (h : Cuts a b) :
    (lossy (a ++ b)).length < (lossy a ++ lossy b).length := by
  obtain ⟨c, hhead, hc⟩ := h
  obtain ⟨b, rfl⟩ := List.head?_eq_some_iff.mp hhead
  rw [lossy_append_eq, lossy, decode_append, List.length_append, List.length_append]
  exact Nat.add_lt_add_left (length_decode_lt hc) _

theorem length_lossy_append_le (a b : List UInt8) :
    (lossy (a ++ b)).length ≤ (lossy a ++ lossy b).length := by
  by_cases h : Cuts a b
  · exact Nat.le_of_lt (length_lossy_append_lt h)
  · exact Nat.le_of_eq (congrArg List.length (lossy_append h))

theorem length_lossy_flatten_le (fs : List (List UInt8)) :
    (lossy fs.flatten).length ≤ (fs.map lossy).flatten.length := by
  induction fs with
  | nil => exact Nat.le_refl _
  | cons f fs ih =>
    have happ := length_lossy_append_le f fs.flatten
    rw [List.length_append] at happ
    rw [List.flatten_cons, List.map_cons, List.flatten_cons, List.length_append]
    omega

/-- No character is cut at a boundary between two of the parts. -/
def Unbroken (fs : List (List UInt8)) : Prop :=
  ∀ before after, fs = before ++ after → ¬Cuts before.flatten after.flatten

theorem Unbroken.of_concat {fs : List (List UInt8)} {f : List UInt8} (h : Unbroken (fs ++ [f])) :
    Unbroken fs := by
  intro before after heq hcut
  refine h before (after ++ [f]) (by rw [heq, List.append_assoc]) ?_
  obtain ⟨c, hhead, hc⟩ := hcut
  refine ⟨c, ?_, hc⟩
  rw [List.flatten_append, List.head?_append, hhead]
  rfl

/-- The parts are decoded like the whole exactly when no boundary cuts a character. -/
theorem lossy_flatten_iff {fs : List (List UInt8)} :
    (fs.map lossy).flatten = lossy fs.flatten ↔ Unbroken fs := by
  constructor
  · rintro heq before after rfl hcut
    have hbefore := length_lossy_flatten_le before
    have hafter := length_lossy_flatten_le after
    have hlt := length_lossy_append_lt hcut
    have hlen := congrArg List.length heq
    rw [List.map_append, List.flatten_append, List.flatten_append, List.length_append] at hlen
    rw [List.length_append] at hlt
    omega
  · intro h
    -- from the end: the parts before the last one are decoded like their concatenation
    induction fs using List.reverseRecOn with
    | nil => rfl
    | append_singleton fs f ih =>
      have hcut : ¬Cuts fs.flatten f := by
        have := h fs [f] rfl
        rwa [List.flatten_singleton] at this
      rw [List.map_append, List.flatten_append, List.flatten_append, ih h.of_concat,
        List.map_singleton, List.flatten_singleton, List.flatten_singleton, lossy_append hcut]

end Split

/-! ## Well-formed input -/

section RoundTrip

variable {q bs : List UInt8} {a b c d : UInt8}

theorem decode_single (h : width a = 1) :
    decode [] (a :: bs) = Char.ofNat a.toNat :: decode [] bs := by
  rw [decode_cons, step_nil, start, if_neg (by omega), if_pos h]
  rfl

theorem decode_first (h : 1 < width a) : decode [] (a :: bs) = decode [a] bs := by
  rw [decode_cons, step_nil, start, if_neg (by omega), if_neg (by omega)]
  rfl

theorem continues_cons_cons (hl : 0x80 ≤ c.toNat) (hh : c.toNat ≤ 0xBF) :
    Continues (a :: b :: q) c := ⟨hl, hh⟩

theorem decode_middle (hc : Continues q b) (hw : q.head?.map width ≠ some (q.length + 1)) :
    decode q (b :: bs) = decode (q ++ [b]) bs := by
  rw [decode_cons, step, if_pos hc, if_neg hw]
  rfl

theorem decode_last (hc : Continues q b) (hw : q.head?.map width = some (q.length + 1)) :
    decode q (b :: bs) = Char.ofNat (codePoint (q ++ [b])) :: decode [] bs := by
  rw [decode_cons, step, if_pos hc, if_pos hw]
  rfl

/-! Characters of two, three and four bytes. -/

theorem decode_two (hw : width a = 2) (hb : Continues [a] b) :
    decode [] (a :: b :: bs) = Char.ofNat (codePoint [a, b]) :: decode [] bs := by
  rw [decode_first (by omega)]
  exact decode_last hb (congrArg some hw)

theorem decode_three (hw : width a = 3) (hb : Continues [a] b) (hc : Continues [a, b] c) :
    decode [] (a :: b :: c :: bs) = Char.ofNat (codePoint [a, b, c]) :: decode [] bs := by
  have hmore : [a].head?.map width ≠ some ([a].length + 1) := by simp [hw]
  rw [decode_first (by omega), decode_middle hb hmore]
  exact decode_last hc (congrArg some hw)

theorem decode_four (hw : width a = 4) (hb : Continues [a] b) (hc : Continues [a, b] c)
    (hd : Continues [a, b, c] d) :
    decode [] (a :: b :: c :: d :: bs) = Char.ofNat (codePoint [a, b, c, d]) :: decode [] bs := by
  have hmore : [a].head?.map width ≠ some ([a].length + 1) := by simp [hw]
  have hmore' : [a, b].head?.map width ≠ some ([a, b].length + 1) := by simp [hw]
  rw [decode_first (by omega), decode_middle hb hmore]
  exact (decode_middle hc hmore').trans (decode_last hd (congrArg some hw))

theorem width_eq_one (h : a.toNat < 0x80) : width a = 1 := if_pos h

theorem width_eq_two (hl : 0xC2 ≤ a.toNat) (hh : a.toNat ≤ 0xDF) : width a = 2 := by
  rw [width, if_neg (by omega), if_pos ⟨hl, hh⟩]

theorem width_eq_three (hl : 0xE0 ≤ a.toNat) (hh : a.toNat ≤ 0xEF) : width a = 3 := by
  rw [width, if_neg (by omega), if_neg (by omega), if_pos ⟨hl, hh⟩]

theorem width_eq_four (hl : 0xF0 ≤ a.toNat) (hh : a.toNat ≤ 0xF4) : width a = 4 := by
  rw [width, if_neg (by omega), if_neg (by omega), if_neg (by omega), if_pos ⟨hl, hh⟩]

theorem toNat_ofNat {n : Nat} (h : n < 256) : (UInt8.ofNat n).toNat = n := by
  rw [UInt8.toNat_ofNat']
  exact Nat.mod_eq_of_lt h

theorem decode_utf8EncodeChar (c : Char) (bs : List UInt8) :
    decode [] (String.utf8EncodeChar c ++ bs) = c :: decode [] bs := by
  have hvalid : c.val.toNat < 0xD800 ∨ 0xDFFF < c.val.toNat ∧ c.val.toNat < 0x110000 := c.valid
  have hchar : Char.ofNat c.val.toNat = c := Char.ofNat_toNat c
  unfold String.utf8EncodeChar
  generalize c.val.toNat = v at hvalid hchar
  have hlow : (UInt8.ofNat (v % 64 + 0x80)).toNat = v % 64 + 0x80 := toNat_ofNat (by omega)
  have hmid : (UInt8.ofNat (v / 64 % 64 + 0x80)).toNat = v / 64 % 64 + 0x80 :=
    toNat_ofNat (by omega)
  have hhigh : (UInt8.ofNat (v / 4096 % 64 + 0x80)).toNat = v / 4096 % 64 + 0x80 :=
    toNat_ofNat (by omega)
  dsimp only
  split
  · have hfirst : (UInt8.ofNat v).toNat = v := toNat_ofNat (by omega)
    rw [List.singleton_append, decode_single (width_eq_one (by omega)), hfirst, hchar]
  split
  · have hfirst : (UInt8.ofNat (v / 64 % 32 + 0xC0)).toNat = v / 64 % 32 + 0xC0 :=
      toNat_ofNat (by omega)
    have hwidth : width (UInt8.ofNat (v / 64 % 32 + 0xC0)) = 2 :=
      width_eq_two (by omega) (by omega)
    have hpoint : codePoint
        [UInt8.ofNat (v / 64 % 32 + 0xC0), UInt8.ofNat (v % 64 + 0x80)] = v := by
      rw [codePoint, hfirst, hlow]
      omega
    rw [List.cons_append, List.singleton_append]
    refine (decode_two hwidth (continues_singleton.mpr ?_)).trans ?_
    · omega
    · rw [hpoint, hchar]
  split
  · have hfirst : (UInt8.ofNat (v / 4096 % 16 + 0xE0)).toNat = v / 4096 % 16 + 0xE0 :=
      toNat_ofNat (by omega)
    have hwidth : width (UInt8.ofNat (v / 4096 % 16 + 0xE0)) = 3 :=
      width_eq_three (by omega) (by omega)
    have hpoint : codePoint [UInt8.ofNat (v / 4096 % 16 + 0xE0),
        UInt8.ofNat (v / 64 % 64 + 0x80), UInt8.ofNat (v % 64 + 0x80)] = v := by
      rw [codePoint, hfirst, hmid, hlow]
      omega
    rw [List.cons_append, List.cons_append, List.singleton_append]
    refine (decode_three hwidth (continues_singleton.mpr ?_) ?_).trans ?_
    · omega
    · exact continues_cons_cons (by omega) (by omega)
    · rw [hpoint, hchar]
  · have hfirst : (UInt8.ofNat (v / 262144 % 8 + 0xF0)).toNat = v / 262144 % 8 + 0xF0 :=
      toNat_ofNat (by omega)
    have hwidth : width (UInt8.ofNat (v / 262144 % 8 + 0xF0)) = 4 :=
      width_eq_four (by omega) (by omega)
    have hpoint : codePoint [UInt8.ofNat (v / 262144 % 8 + 0xF0),
        UInt8.ofNat (v / 4096 % 64 + 0x80), UInt8.ofNat (v / 64 % 64 + 0x80),
        UInt8.ofNat (v % 64 + 0x80)] = v := by
      rw [codePoint, hfirst, hhigh, hmid, hlow]
      omega
    rw [List.cons_append, List.cons_append, List.cons_append, List.singleton_append]
    refine (decode_four hwidth (continues_singleton.mpr ?_) ?_ ?_).trans ?_
    · omega
    · exact continues_cons_cons (by omega) (by omega)
    · exact continues_cons_cons (by omega) (by omega)
    · rw [hpoint, hchar]

theorem lossy_flatMap_utf8EncodeChar (l : List Char) :
    lossy (l.flatMap String.utf8EncodeChar) = l := by
  induction l with
  | nil => rfl
  | cons c l ih =>
    rw [List.flatMap_cons, lossy, decode_utf8EncodeChar]
    exact congrArg (c :: ·) ih

/-- Well-formed input is decoded as it is. -/
theorem lossy_toByteArray (s : String) : lossy s.toByteArray.data.toList = s.toList := by
  rw [← String.utf8Encode_toList, List.utf8Encode, List.toList_data_toByteArray]
  exact lossy_flatMap_utf8EncodeChar s.toList

end RoundTrip

end Utf8

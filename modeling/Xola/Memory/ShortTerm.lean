import Mathlib.Algebra.Ring.Nat
import Xola.Data.LongestSuffix

/-!
# Short-term memory

`runtime/src/memory/short_term.rs`: the message buffer capped by a token budget. `usize` arithmetic
is taken modulo `2 ^ 64`, as a release build computes it; the `debug_assert!` of `Message::new` is
absent there too. `ShortTermMemory::new` panics on a zero budget, which is `none` here.

`needs_summarization` compares two `f64`s. Both are non-negative dyadic numbers, so they are
computed exactly: `f64OfNat` rounds an integer to 53 significant bits, ties to even.
-/

namespace Xola

inductive Role where
  | system
  | user
  | assistant
  deriving DecidableEq, Repr

/-- `impl Display for Role`. -/
def Role.toString : Role → String
  | .system => "system"
  | .user => "user"
  | .assistant => "assistant"

structure Message where
  role : Role
  content : String
  tokenCount : Nat
  deriving DecidableEq, Repr

/-- `a + b` on `usize`. -/
def usizeAdd (a b : Nat) : Nat := (a + b) % 2 ^ 64

/-- The nearest integer with at most 53 significant bits (ties to even): `n as f64`. -/
def f64OfNat (n : Nat) : Nat :=
  let unit := 2 ^ (Nat.log2 n + 1 - 53)
  let q := n / unit
  let r := n % unit
  if unit < 2 * r ∨ (2 * r = unit ∧ q % 2 = 1) then (q + 1) * unit else q * unit

/-- The `f64` constant `SUMMARIZATION_THRESHOLD = 0.80`, in units of `2 ^ -53`. -/
def summarizationThreshold : Nat := 7205759403792794

structure ShortTermMemory where
  messages : List Message
  tokenCount : Nat
  maxTokens : Nat
  deriving DecidableEq, Repr

namespace ShortTermMemory

/-- `none` is the panic of `assert!(max_tokens > 0)`. -/
def new (maxTokens : Nat) : Option ShortTermMemory :=
  if 0 < maxTokens then some ⟨[], 0, maxTokens⟩ else none

/-- The `while` loop of `push`: pop from the front until the incoming message fits. -/
def evict (maxTokens incoming : Nat) : List Message → Nat → List Message × Nat
  | [], count => ([], count)
  | m :: ms, count =>
    if usizeAdd count incoming > maxTokens then
      evict maxTokens incoming ms (count - m.tokenCount) -- `saturating_sub`
    else (m :: ms, count)

def push (stm : ShortTermMemory) (msg : Message) : ShortTermMemory :=
  let kept := evict stm.maxTokens msg.tokenCount stm.messages stm.tokenCount
  { stm with
    messages := kept.1 ++ [msg]
    tokenCount := usizeAdd kept.2 msg.tokenCount }

/-- `token_count as f64 >= max_tokens as f64 * SUMMARIZATION_THRESHOLD`, both sides in units of
`2 ^ -53`. -/
def needsSummarization (stm : ShortTermMemory) : Bool :=
  f64OfNat (f64OfNat stm.maxTokens * summarizationThreshold) ≤ f64OfNat stm.tokenCount * 2 ^ 53

def replaceWithSummary (stm : ShortTermMemory) (summary : Message) : ShortTermMemory :=
  { stm with messages := [summary], tokenCount := summary.tokenCount }

def clear (stm : ShortTermMemory) : ShortTermMemory :=
  { stm with messages := [], tokenCount := 0 }

example : (ShortTermMemory.mk [] 800 1000).needsSummarization = true := by decide
example : (ShortTermMemory.mk [] 799 1000).needsSummarization = false := by decide

end ShortTermMemory

end Xola

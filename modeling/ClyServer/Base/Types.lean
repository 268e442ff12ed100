import Mathlib.Tactic.Common

/-!
# Bytes, and what ends the process

The sources are built with assertions on (`CMAKE_BUILD_TYPE "Debug"`), so a
failed `assert` ends the process; so does a log record of level FATAL, whose
destructor calls `abort`. An access outside an array or through a null pointer
is undefined and is counted here as an end too. `Checked` is the type of a
computation that either answers or ends in one of these ways, and `check` is
the `assert` statement.
-/

namespace ClyServer

/-- Bytes, the carrier of every text and message of the server. -/
abbrev Bytes := List UInt8

/-- A literal of the source as its bytes. The sources' literals are ASCII. -/
def ascii (s : String) : Bytes := s.toList.map fun c => c.toNat.toUInt8

/-- The decimal text of a number, as `%d` and `%zd` print one that is not negative. -/
def decimal (n : Nat) : Bytes := (Nat.toDigits 10 n).map fun c => c.toNat.toUInt8

/-- The number a decimal text names. -/
def decimalValue (bytes : Bytes) : Nat := bytes.foldl (fun v b => 10 * v + (b.toNat - 48)) 0

theorem decimalValue_digit {d : Nat} (h : d < 10) :
    ((d.digitChar.toNat.toUInt8).toNat - 48 : Nat) = d := by
  rw [Nat.toNat_digitChar_of_lt_ten h, Nat.toUInt8_eq, UInt8.toNat_ofNat']
  omega

/-- A decimal text names the number it was made from. -/
theorem decimalValue_decimal (n : Nat) : decimalValue (decimal n) = n := by
  induction n using Nat.strongRecOn with
  | ind n ih =>
    unfold decimal decimalValue
    rw [Nat.toDigits_eq_if (by omega)]
    by_cases hn : n < 10
    · rw [if_pos hn]
      simp only [List.map_cons, List.map_nil, List.foldl_cons, List.foldl_nil,
        decimalValue_digit hn]
      omega
    · have hprefix := ih (n / 10) (by omega)
      unfold decimal decimalValue at hprefix
      rw [if_neg hn, List.map_append, List.foldl_append, hprefix]
      simp only [List.map_cons, List.map_nil, List.foldl_cons, List.foldl_nil,
        decimalValue_digit (Nat.mod_lt n (by omega))]
      omega

theorem decimal_injective {n k : Nat} (h : decimal n = decimal k) : n = k := by
  rw [← decimalValue_decimal n, h, decimalValue_decimal]

theorem length_decimal_le {n k : Nat} (hk : 0 < k) (h : n < Nat.pow 10 k) :
    (decimal n).length ≤ k := by
  rw [decimal, List.length_map]
  exact (Nat.length_toDigits_le_iff (by decide) hk).mpr h

/-- The assertions of the modelled functions, by the function they stand in. -/
inductive Assertion where
  | bufferInit
  | retrieve
  | retrieveUntil
  | retrieveAsString
  | ensureWritableBytes
  | hasWritten
  | unwrite
  | prepend
  | makeSpace
  | peekInt
  | setMethod
  | connectEstablished
  | handleClose
  | removeConnectionInLoop
  | removeChannel
  | fillActiveChannels
  | newBuffer1
  | newBuffer2
  | writeLogEmpty
  | writeLogRefill
  | join
  | T
  | appendFile
  | logFile
  | connecting
  | startInLoop
  | handleWrite
  deriving DecidableEq, Repr

/-- How a computation can end without an answer. -/
inductive Fault where
  | assertion (site : Assertion)
  | outOfRange
  | nullPointer
  | fatalLog
  | diverged
  deriving DecidableEq, Repr

/-- A computation that answers or ends the process. -/
abbrev Checked (α : Type) := Except Fault α

/-- `assert(p)`. -/
def check (p : Prop) [Decidable p] (site : Assertion) : Checked Unit :=
  if p then .ok () else .error (.assertion site)

@[simp] theorem check_pos {p : Prop} [Decidable p] (h : p) (site : Assertion) :
    check p site = .ok () := if_pos h

@[simp] theorem check_neg {p : Prop} [Decidable p] (h : ¬ p) (site : Assertion) :
    check p site = .error (.assertion site) := if_neg h

/-- A sequence answers exactly when its first half does and its second half,
from that answer, does too. -/
theorem bind_eq_ok {α β : Type} {x : Checked α} {f : α → Checked β} {b : β} :
    x >>= f = .ok b ↔ ∃ a, x = .ok a ∧ f a = .ok b := by
  constructor
  · intro h
    cases x with
    | error e => cases h
    | ok a => exact ⟨a, rfl, h⟩
  · rintro ⟨a, rfl, h⟩
    exact h

@[simp] theorem ok_bind {α β : Type} (a : α) (f : α → Checked β) :
    (Except.ok a : Checked α) >>= f = f a := rfl

theorem error_bind {α β : Type} (e : Fault) (f : α → Checked β) :
    (Except.error e : Checked α) >>= f = .error e := rfl

@[simp] theorem pure_eq_ok {α : Type} (a : α) : (pure a : Checked α) = .ok a := rfl

end ClyServer

import Mathlib.Data.Int.Notation
import Mathlib.Data.Nat.Notation
import Mathlib.Logic.Function.Basic

/-!
# Strings, bytes, errors and panics

A Go string is a byte sequence, and that is what topics, filters, client ids and payloads
are here. `str` writes a literal as such a sequence.
-/

namespace MqttBroker

/-- A Go `string` (or `[]byte`): any bytes, no encoding promised. -/
abbrev GoString := List UInt8

/-- A string literal of the source as bytes. -/
def str (s : String) : GoString := s.toList.map fun c => UInt8.ofNat c.toNat

/-- `fmt.Sprintf("%d", n)` for an unsigned integer. -/
def decimal (n : ℕ) : GoString := (Nat.toDigits 10 n).map fun c => UInt8.ofNat c.toNat

/-- `store.Error` (ErrDupMsg = 1, ErrNoExsit = 2). -/
inductive StoreError
  | errDupMsg
  | errNoExsit
deriving DecidableEq, Repr

/-- The error values the broker compares, returns or stores. -/
inductive GoError
  /-- A `store.Error`. -/
  | store (e : StoreError)
  /-- `packets.ConnErrors[code]` for a code that the table maps to an error. -/
  | conn (code : UInt8)
  /-- `errors.New(text)`, and any error of code outside the broker. -/
  | new (text : String)
deriving DecidableEq, Repr

/-- The run-time panics the modelled code can run into. -/
inductive Panic
  | typeAssertion
  | indexOutOfRange
  | closeOfClosedChannel
deriving DecidableEq, Repr

/-! ## Decimal notation -/

/-- A digit is recovered from its byte. -/
private theorem ofNat_toNat_digit_byte {c : Char} (hc : c.isDigit) :
    Char.ofNat (UInt8.ofNat c.toNat).toNat = c := by
  have hlt : c.toNat < UInt8.size := by
    simp only [Char.isDigit, Bool.and_eq_true, decide_eq_true_eq] at hc
    have h57 : c.toNat ≤ 57 := hc.2
    have : UInt8.size = 256 := rfl
    omega
  rw [UInt8.toNat_ofNat_of_lt' hlt, Char.ofNat_toNat]

/-- Different numbers have different decimal notations. -/
theorem decimal_injective : Function.Injective decimal := by
  intro m n h
  have decode : ∀ k, (decimal k).map (fun b => Char.ofNat b.toNat) = Nat.toDigits 10 k := by
    intro k
    rw [decimal, List.map_map]
    refine (List.map_congr_left fun c hc => ?_).trans (List.map_id _)
    exact ofNat_toNat_digit_byte (Nat.isDigit_of_mem_toDigits (by decide) (by decide) hc)
  calc m = Nat.ofDigitChars 10 (Nat.toDigits 10 m) 0 := Nat.ofDigitChars_ten_toDigits.symm
    _ = Nat.ofDigitChars 10 (Nat.toDigits 10 n) 0 := by rw [← decode m, ← decode n, h]
    _ = n := Nat.ofDigitChars_ten_toDigits

end MqttBroker

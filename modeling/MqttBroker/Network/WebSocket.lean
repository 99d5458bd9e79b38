import Mathlib.Data.List.Flatten
import MqttBroker.Lib.StepSystem
import MqttBroker.Basic

/-!
# Reading from a WebSocket connection

`wsReadWriteCloser.Read` makes a byte stream of a sequence of messages: it reads from the
reader of the current message and asks the connection for the next one when that reader is at
its end. A reader may hand out its message in chunks of any size, and it may give its last
bytes together with `io.EOF` or signal the end by a read of its own.

The named results of `Read` outlive a turn of its loop: bytes that came with `io.EOF` stay in
the buffer, are returned if the connection then fails, and are overwritten if it does not.
-/

namespace MqttBroker
namespace Ws

/-- What a reader or the connection returns besides bytes. -/
inductive IoError
  | eof
  | other (text : GoString)
  deriving DecidableEq, Repr

/-- A running call of `Read`: the length of its buffer `p` and what is in `p[:n]`. -/
structure Call where
  len : ℕ
  read : List UInt8
  deriving DecidableEq, Repr

/-- `wsReadWriteCloser`, with the messages that the connection has not handed out. -/
structure Rwc where
  messages : List (List UInt8)
  /-- what the reader of the current message has not given out -/
  reader : Option (List UInt8)
  call : Option Call
  /-- the results of the calls that have returned -/
  returned : List (List UInt8 × Option IoError)
  /-- the errors of `NextReader` -/
  failures : List IoError
  deriving DecidableEq, Repr

/-- A new connection. -/
def Rwc.new (messages : List (List UInt8)) : Rwc := ⟨messages, none, none, [], []⟩

inductive Turn
  | call (len : ℕ)
  /-- `NextReader` returns a reader or an error. -/
  | nextReader (err : Option IoError)
  /-- The reader returns `n` bytes and an error or none. -/
  | read (n : ℕ) (err : Option IoError)
  deriving DecidableEq, Repr

/-- The running call returns. -/
def Rwc.ret (bytes : List UInt8) (err : Option IoError) (s : Rwc) : Rwc :=
  { s with call := none, returned := s.returned ++ [(bytes, err)] }

def Rwc.step : Turn → Rwc → Option Rwc
  | .call len, s =>
    if 0 < len ∧ s.call = none then some { s with call := some ⟨len, []⟩ } else none
  | .nextReader none, s =>
    match s.call, s.reader, s.messages with
    | some _, none, message :: messages => some { s with reader := some message, messages }
    | _, _, _ => none
  | .nextReader (some err), s =>
    match s.call, s.reader with
    | some c, none => some ({ s with failures := s.failures ++ [err] }.ret c.read (some err))
    | _, _ => none
  | .read n err, s =>
    match s.call, s.reader with
    | some c, some unread =>
      -- the contract of `io.Reader`, with `io.EOF` at the end of the message only
      if n ≤ c.len ∧ n ≤ unread.length ∧ (err = some .eof → n = unread.length) then
        if err = some .eof then
          some { s with reader := none, call := some { c with read := unread.take n } }
        else some ({ s with reader := some (unread.drop n) }.ret (unread.take n) err)
      else none
    | _, _ => none

def system (payloads : List (List UInt8)) : StepSystem Rwc Turn where
  init s := s = Rwc.new payloads
  step := Rwc.step

/-! ## What is to hold -/

/-- The bytes that calls have returned. -/
def Rwc.received (s : Rwc) : List UInt8 := (s.returned.map Prod.fst).flatten

/-- The bytes in the buffer of the running call. -/
def Rwc.held (s : Rwc) : List UInt8 := (s.call.map Call.read).getD []

/-- The bytes that have not been read. -/
def Rwc.left (s : Rwc) : List UInt8 := s.reader.getD [] ++ s.messages.flatten

/-- The errors that calls have returned. -/
def Rwc.errors (s : Rwc) : List IoError := s.returned.filterMap Prod.snd

/-- Every byte of the messages is returned, held or left, in order, and a call returns `io.EOF`
only when the connection itself has failed with it. -/
structure Transparent (payloads : List (List UInt8)) (s : Rwc) : Prop where
  bytes : s.received ++ s.held ++ s.left = payloads.flatten
  eofs : s.errors.count .eof = s.failures.count .eof

/-- The reader of a message is called when the buffer has no bytes of the reader before. -/
def StartsEmpty (s : Rwc) : Turn → Prop
  | .read n err => (s.step (.read n err)).isSome → s.held = []
  | _ => True

instance (s : Rwc) : ∀ t : Turn, Decidable (StartsEmpty s t)
  | .read n err => inferInstanceAs (Decidable ((s.step (.read n err)).isSome → s.held = []))
  | .call _ => isTrue trivial
  | .nextReader _ => isTrue trivial

/-- What is returned is a prefix of what was sent. -/
theorem Transparent.received_prefix {payloads : List (List UInt8)} {s : Rwc}
    (h : Transparent payloads s) : s.received <+: payloads.flatten := by
  rw [← h.bytes, List.append_assoc]
  exact List.prefix_append _ _

theorem transparent_new (payloads : List (List UInt8)) :
    Transparent payloads (Rwc.new payloads) := ⟨rfl, rfl⟩

section ret

variable (bytes : List UInt8) (err : Option IoError) (s : Rwc)

@[simp] theorem received_ret : (s.ret bytes err).received = s.received ++ bytes := by
  simp [Rwc.ret, Rwc.received]

@[simp] theorem errors_ret : (s.ret bytes err).errors = s.errors ++ err.toList := by
  cases err with
  | none => simp [Rwc.ret, Rwc.errors]
  | some err => simp [Rwc.ret, Rwc.errors]

@[simp] theorem held_ret : (s.ret bytes err).held = [] := rfl

@[simp] theorem left_ret : (s.ret bytes err).left = s.left := rfl

@[simp] theorem failures_ret : (s.ret bytes err).failures = s.failures := rfl

end ret

/-! ## One turn -/

variable {payloads : List (List UInt8)} {s s' : Rwc}

theorem step_call {len : ℕ} (hs : s.step (.call len) = some s') :
    s.call = none ∧ s' = { s with call := some ⟨len, []⟩ } := by
  rw [Rwc.step] at hs
  by_cases hc : 0 < len ∧ s.call = none
  · rw [if_pos hc] at hs
    exact ⟨hc.2, (Option.some.inj hs).symm⟩
  · rw [if_neg hc] at hs
    exact absurd hs (by simp)

theorem step_nextReader_ok (hs : s.step (.nextReader none) = some s') :
    ∃ message messages, s.reader = none ∧ s.messages = message :: messages ∧
      s' = { s with reader := some message, messages } := by
  rw [Rwc.step] at hs
  split at hs
  · next message messages _ hreader hmessages =>
    exact ⟨message, messages, hreader, hmessages, (Option.some.inj hs).symm⟩
  · exact absurd hs (by simp)

theorem step_nextReader_error {err : IoError} (hs : s.step (.nextReader (some err)) = some s') :
    ∃ c, s.call = some c ∧ s.reader = none ∧
      s' = { s with failures := s.failures ++ [err] }.ret c.read (some err) := by
  rw [Rwc.step] at hs
  split at hs
  · next c hc hreader => exact ⟨c, hc, hreader, (Option.some.inj hs).symm⟩
  · exact absurd hs (by simp)

theorem step_read {n : ℕ} {err : Option IoError} (hs : s.step (.read n err) = some s') :
    ∃ c unread, s.call = some c ∧ s.reader = some unread ∧
      (err = some .eof ∧ n = unread.length ∧
          s' = { s with reader := none, call := some { c with read := unread.take n } } ∨
        err ≠ some .eof ∧
          s' = { s with reader := some (unread.drop n) }.ret (unread.take n) err) := by
  rw [Rwc.step] at hs
  split at hs
  · next c unread hc hreader =>
    refine ⟨c, unread, hc, hreader, ?_⟩
    by_cases hcontract : n ≤ c.len ∧ n ≤ unread.length ∧ (err = some .eof → n = unread.length)
    · rw [if_pos hcontract] at hs
      by_cases heof : err = some .eof
      · rw [if_pos heof] at hs
        exact .inl ⟨heof, hcontract.2.2 heof, (Option.some.inj hs).symm⟩
      · rw [if_neg heof] at hs
        exact .inr ⟨heof, (Option.some.inj hs).symm⟩
    · rw [if_neg hcontract] at hs
      exact absurd hs (by simp)
  · exact absurd hs (by simp)

/-- What a read takes and what is left are what was left before it: bytes are lost when there
were some in the buffer, and only then. -/
theorem transparent_read_iff (h : Transparent payloads s) {n : ℕ} {err : Option IoError}
    (hs : s.step (.read n err) = some s') : Transparent payloads s' ↔ s.held = [] := by
  obtain ⟨c, unread, hc, hreader, hcase⟩ := step_read hs
  have hleft : s.left = unread ++ s.messages.flatten := by
    unfold Rwc.left
    rw [hreader]
    rfl
  -- without the buffer, the bytes are those of the state before
  have hbytes : s'.received ++ s'.held ++ s'.left = s.received ++ s.left := by
    rw [hleft]
    obtain ⟨-, hn, hs'⟩ | ⟨-, hs'⟩ := hcase
    · rw [hs', hn, List.take_length]
      simp [Rwc.received, Rwc.held, Rwc.left]
    · rw [hs', received_ret, held_ret, left_ret]
      unfold Rwc.left Rwc.received
      rw [Option.getD_some, List.append_nil, List.append_assoc, ← List.append_assoc (unread.take n),
        List.take_append_drop]
  have heofs : s'.errors.count .eof = s'.failures.count .eof := by
    obtain ⟨-, -, hs'⟩ | ⟨heof, hs'⟩ := hcase
    · rw [hs']
      exact h.eofs
    · rw [hs', errors_ret, failures_ret, List.count_append]
      have hnone : err.toList.count .eof = 0 := by
        rw [List.count_eq_zero]
        exact fun hmem => heof (Option.mem_toList.mp hmem)
      rw [hnone]
      exact h.eofs
  constructor
  · intro h'
    have hsame := h'.bytes.trans h.bytes.symm
    rw [hbytes, List.append_assoc] at hsame
    have hlen := congrArg List.length (List.append_cancel_left hsame)
    rw [List.length_append] at hlen
    exact List.eq_nil_of_length_eq_zero (by omega)
  · intro hheld
    refine ⟨?_, heofs⟩
    rw [hbytes, ← h.bytes, hheld, List.append_nil]

/-- The other turns neither lose nor repeat a byte; a failure of the connection returns what the
buffer has. -/
theorem Transparent.step_of_not_read (h : Transparent payloads s) {t : Turn}
    (hs : s.step t = some s') (ht : ∀ n err, t ≠ .read n err) : Transparent payloads s' := by
  cases t with
  | call len =>
    obtain ⟨hc, hs'⟩ := step_call hs
    refine ⟨?_, ?_⟩
    · rw [← h.bytes, hs']
      simp [Rwc.received, Rwc.held, Rwc.left, hc]
    · rw [hs']
      exact h.eofs
  | nextReader err =>
    cases err with
    | none =>
      obtain ⟨message, messages, hreader, hmessages, hs'⟩ := step_nextReader_ok hs
      refine ⟨?_, ?_⟩
      · rw [← h.bytes, hs']
        simp [Rwc.received, Rwc.held, Rwc.left, hreader, hmessages]
      · rw [hs']
        exact h.eofs
    | some err =>
      obtain ⟨c, hc, hreader, hs'⟩ := step_nextReader_error hs
      refine ⟨?_, ?_⟩
      · rw [← h.bytes, hs', received_ret, held_ret, left_ret]
        simp [Rwc.received, Rwc.held, Rwc.left, hc]
      · rw [hs', errors_ret, failures_ret, List.count_append, List.count_append,
          Option.toList_some]
        exact congrArg (· + _) h.eofs
  | read n err => exact absurd rfl (ht n err)

/-! ## Whole runs -/

/-- In a run, whatever the messages, the chunks, the buffers and the way in which readers signal
the end: after every turn each byte of the messages has been returned, in order, or is still
to be, and no end of a message has been returned as `io.EOF`, if and only if no reader is
called while the buffer holds the last bytes of the message before, which came with `io.EOF`. -/
theorem read_transparent_iff (payloads : List (List UInt8)) (turns : List Turn) :
    (system payloads).Always (Transparent payloads) turns (Rwc.new payloads) ↔
      (system payloads).Along StartsEmpty turns (Rwc.new payloads) := by
  refine StepSystem.always_iff_along ?_ turns _ (transparent_new payloads)
  intro s t h
  show StartsEmpty s t ↔ ∀ s', s.step t = some s' → Transparent payloads s'
  cases t with
  | read n err =>
    constructor
    · intro hok s' hs
      exact (transparent_read_iff h hs).mpr (hok (by rw [hs]; rfl))
    · intro hall hsome
      obtain ⟨s', hs⟩ := Option.isSome_iff_exists.mp hsome
      exact (transparent_read_iff h hs).mp (hall s' hs)
  | call len => exact ⟨fun _ s' hs => h.step_of_not_read hs (by simp), fun _ => trivial⟩
  | nextReader err => exact ⟨fun _ s' hs => h.step_of_not_read hs (by simp), fun _ => trivial⟩

/-- The reader of the message "ab" returns both bytes with `io.EOF`, and the same call goes on
with the message "c": it returns "c", and "ab" is gone. -/
theorem read_drops_last_chunk :
    ∃ s, (system [str "ab", str "c"]).exec
        [.call 4096, .nextReader none, .read 2 (some .eof), .nextReader none, .read 1 none]
        (Rwc.new [str "ab", str "c"]) = some s ∧
      s.returned = [(str "c", none)] ∧ ¬ s.received <+: [str "ab", str "c"].flatten :=
  ⟨_, rfl, by decide, by decide⟩

end Ws
end MqttBroker

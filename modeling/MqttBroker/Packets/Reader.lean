import Mathlib.Data.List.Basic
import MqttBroker.Basic

/-!
# Readers

`ReadPacket` takes an `io.Reader` and reads from it with `io.ReadFull` only. A connection is such
a reader: its `Read` returns what has arrived, in pieces that the network chooses, and its error
once the bytes are used up. What `ReadFull` returns depends on the bytes and the error and not on
the pieces: a connection reads like a `ByteStream`, which is the bytes in one piece.
-/

namespace MqttBroker

/-- `io.EOF`. -/
def errEof : GoError := .new "EOF"

/-- `io.ErrUnexpectedEOF`. -/
def errUnexpectedEof : GoError := .new "unexpected EOF"

/-- An `io.Reader` as `io.ReadFull` uses it: what a call with a buffer of length `n` puts into the
buffer, with the error that the call returns, and the reader after it. -/
structure IoReader (ρ : Type) where
  readFull : ℕ → ρ → (GoString × Option GoError) × ρ

/-- The end of `io.ReadFull`: `io.EOF` in the middle of the buffer becomes another error. -/
def readFullErr (bytes : GoString) (err : Option GoError) : Option GoError :=
  if err = some errEof ∧ bytes ≠ [] then some errUnexpectedEof else err

theorem readFullErr_some (bytes : GoString) (err : GoError) :
    ∃ err', readFullErr bytes (some err) = some err' := by
  unfold readFullErr
  split
  · exact ⟨errUnexpectedEof, rfl⟩
  · exact ⟨err, rfl⟩

/-! ## Connections -/

/-- A connection: the pieces that its `Read` returns if the buffer has room for them, and the
error that it returns after the last one. -/
structure Conn where
  chunks : List GoString
  err : GoError
deriving DecidableEq

/-- The loop of `io.ReadFull` with the `Read` of a connection: a piece that does not fit is cut,
and its rest is what the next `Read` returns. -/
def readLoop (err : GoError) : ℕ → List GoString → (GoString × Option GoError) × List GoString
  | 0, chunks => (([], none), chunks)
  | _ + 1, [] => (([], some err), [])
  | n + 1, chunk :: chunks =>
    if chunk.length ≤ n + 1 then
      let r := readLoop err (n + 1 - chunk.length) chunks
      ((chunk ++ r.1.1, r.1.2), r.2)
    else
      ((chunk.take (n + 1), none), chunk.drop (n + 1) :: chunks)

/-- `io.ReadFull` on a connection. -/
def Conn.readFull (n : ℕ) (c : Conn) : (GoString × Option GoError) × Conn :=
  let r := readLoop c.err n c.chunks
  ((r.1.1, readFullErr r.1.1 r.1.2), { c with chunks := r.2 })

def Conn.reader : IoReader Conn := ⟨Conn.readFull⟩

/-! ## Streams -/

/-- The bytes that a reader has, and the error behind them. -/
structure ByteStream where
  bytes : GoString
  err : GoError
deriving DecidableEq

/-- `io.ReadFull` on a stream. -/
def ByteStream.readFull (n : ℕ) (s : ByteStream) : (GoString × Option GoError) × ByteStream :=
  ((s.bytes.take n,
    if s.bytes.length < n then readFullErr s.bytes (some s.err) else none),
    { s with bytes := s.bytes.drop n })

def ByteStream.reader : IoReader ByteStream := ⟨ByteStream.readFull⟩

/-- What a connection will return, in one piece. -/
def Conn.stream (c : Conn) : ByteStream := ⟨c.chunks.flatten, c.err⟩

/-! ## Pieces do not matter -/

/-- The loop takes bytes from the front of what the pieces are together. -/
theorem readLoop_eq (err : GoError) (chunks : List GoString) : ∀ n : ℕ,
    (readLoop err n chunks).1.1 = chunks.flatten.take n ∧
      (readLoop err n chunks).1.2 = (if chunks.flatten.length < n then some err else none) ∧
      (readLoop err n chunks).2.flatten = chunks.flatten.drop n := by
  induction chunks with
  | nil =>
    intro n
    cases n with
    | zero => exact ⟨rfl, rfl, rfl⟩
    | succ n =>
      refine ⟨rfl, ?_, rfl⟩
      rw [if_pos (show ([] : List GoString).flatten.length < n + 1 from Nat.succ_pos n)]
      rfl
  | cons chunk chunks ih =>
    intro n
    cases n with
    | zero =>
      refine ⟨rfl, ?_, rfl⟩
      rw [if_neg (by omega)]
      rfl
    | succ n =>
      rw [readLoop, List.flatten_cons, List.length_append]
      by_cases hfits : chunk.length ≤ n + 1
      · obtain ⟨hbytes, herr, hrest⟩ := ih (n + 1 - chunk.length)
        rw [if_pos hfits]
        refine ⟨?_, ?_, ?_⟩
        · show chunk ++ _ = _
          rw [hbytes, List.take_append, List.take_of_length_le hfits]
        · show (readLoop err (n + 1 - chunk.length) chunks).1.2 = _
          rw [herr]
          by_cases hmore : chunks.flatten.length < n + 1 - chunk.length
          · rw [if_pos hmore, if_pos (by omega)]
          · rw [if_neg hmore, if_neg (by omega)]
        · show (readLoop err (n + 1 - chunk.length) chunks).2.flatten = _
          rw [hrest, List.drop_append, List.drop_of_length_le hfits, List.nil_append]
      · rw [if_neg hfits]
        refine ⟨?_, ?_, ?_⟩
        · rw [List.take_append_of_le_length (by omega)]
        · rw [if_neg (by omega)]
        · rw [List.flatten_cons, List.drop_append_of_le_length (by omega)]

/-- One reader shows another one: their calls of `ReadFull` return the same. -/
def IoReader.Shows {ρ ρ' : Type} (R : IoReader ρ) (R' : IoReader ρ') (f : ρ → ρ') : Prop :=
  ∀ n r, R'.readFull n (f r) = ((R.readFull n r).1, f (R.readFull n r).2)

/-- A connection reads like the stream of its bytes. -/
theorem conn_shows_stream : Conn.reader.Shows ByteStream.reader Conn.stream := by
  intro n c
  obtain ⟨hbytes, herr, hrest⟩ := readLoop_eq c.err c.chunks n
  show ((c.chunks.flatten.take n,
      if c.chunks.flatten.length < n then readFullErr c.chunks.flatten (some c.err) else none),
      (⟨c.chunks.flatten.drop n, c.err⟩ : ByteStream)) =
    (((readLoop c.err n c.chunks).1.1,
      readFullErr (readLoop c.err n c.chunks).1.1 (readLoop c.err n c.chunks).1.2),
      ⟨(readLoop c.err n c.chunks).2.flatten, c.err⟩)
  rw [hbytes, herr, hrest]
  by_cases hmore : c.chunks.flatten.length < n
  · rw [if_pos hmore, if_pos hmore, List.take_of_length_le (by omega)]
  · rw [if_neg hmore, if_neg hmore]
    unfold readFullErr
    rw [if_neg (by simp)]

/-! ## Reading from the front of a stream -/

@[simp] theorem ByteStream.reader_readFull (n : ℕ) (s : ByteStream) :
    ByteStream.reader.readFull n s = ByteStream.readFull n s := rfl

/-- What is there is read without an error. -/
theorem ByteStream.readFull_append (bytes rest : GoString) (err : GoError) :
    ByteStream.readFull bytes.length ⟨bytes ++ rest, err⟩ = ((bytes, none), ⟨rest, err⟩) := by
  unfold ByteStream.readFull
  rw [List.take_left, List.drop_left, if_neg (by rw [List.length_append]; omega)]

/-- One byte. -/
theorem ByteStream.readFull_cons (b : UInt8) (rest : GoString) (err : GoError) :
    ByteStream.readFull 1 ⟨b :: rest, err⟩ = (([b], none), ⟨rest, err⟩) :=
  ByteStream.readFull_append [b] rest err

/-- At the end nothing is read, and the error is returned. -/
theorem ByteStream.readFull_nil (n : ℕ) (err : GoError) :
    ByteStream.readFull (n + 1) ⟨[], err⟩ = (([], some err), ⟨[], err⟩) := by
  show (([], if 0 < n + 1 then readFullErr [] (some err) else none), (⟨[], err⟩ : ByteStream)) = _
  unfold readFullErr
  rw [if_pos (Nat.succ_pos n), if_neg (by simp)]

end MqttBroker

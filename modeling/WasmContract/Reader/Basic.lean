import WasmContract.DecodeError

/-!
# Readers

A `Reader` takes an item from the front of a list of bytes and leaves the rest, or fails with a
`DecodeError`. Readers compose in `do` notation. This module holds the basic ones: single bytes,
runs of bytes, little-endian words, repetition, reading within a slice, and keeping the bytes that
an item was read from.

Bytes are a `List UInt8`, and what a reader leaves is always an end of what it was given.
-/

namespace WasmContract

/-- A reader of items of type `α` from the front of a list of bytes. -/
abbrev Reader (α : Type) := StateT (List UInt8) (Except DecodeError) α

namespace Reader

variable {α : Type}

/-- Reads one byte. -/
def byte : Reader UInt8
  | [] => throw (.ofParseFailure .eof)
  | b :: rest => pure (b, rest)

/-- Reads the next `n` bytes. -/
def bytes (n : Nat) : Reader (List UInt8) := fun input =>
  if n ≤ input.length then pure (input.take n, input.drop n)
  else throw (.ofParseFailure .eof)

/-- Reads a 32-bit word, low byte first. -/
def word32 : Reader UInt32 := do
  let b₀ ← byte
  let b₁ ← byte
  let b₂ ← byte
  let b₃ ← byte
  return b₀.toUInt32 ||| b₁.toUInt32 <<< 8 ||| b₂.toUInt32 <<< 16 ||| b₃.toUInt32 <<< 24

/-- Reads `n` items one after the other. -/
def many (item : Reader α) : Nat → Reader (List α)
  | 0 => pure []
  | n + 1 => do
    let first ← item
    let others ← many item n
    return first :: others

/-- Reads from a slice of its own, and gives what was read with what is left of the slice. -/
def within (slice : List UInt8) (item : Reader α) : Reader (α × List UInt8) :=
  fun input => do
    let inner ← item slice
    pure (inner, input)

/-- Reads an item and gives it together with the bytes it was read from. -/
def captured (item : Reader α) : Reader (α × List UInt8) := fun input => do
  let (a, rest) ← item input
  pure ((a, input.take (input.length - rest.length)), rest)

@[simp] theorem byte_nil : byte [] = .error .unexpectedEnd := rfl

@[simp] theorem byte_cons (b : UInt8) (rest : List UInt8) : byte (b :: rest) = .ok (b, rest) := rfl

theorem bytes_append {n : Nat} {front : List UInt8} (h : front.length = n) (rest : List UInt8) :
    bytes n (front ++ rest) = .ok (front, rest) := by
  subst h
  simp [bytes, pure, Except.pure]

/-- Bytes cannot be read only if there are too few. -/
theorem bytes_eq_error_iff {n : Nat} {input : List UInt8} {e : DecodeError} :
    bytes n input = .error e ↔ input.length < n ∧ e = .unexpectedEnd := by
  unfold bytes
  split
  · simp [pure, Except.pure]
    omega
  · simp only [throw, throwThe, MonadExceptOf.throw, Except.error.injEq,
      DecodeError.ofParseFailure]
    exact ⟨fun h => ⟨by omega, h.symm⟩, fun h => h.2.symm⟩

end Reader

end WasmContract

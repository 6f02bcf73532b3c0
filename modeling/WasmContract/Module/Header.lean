import WasmContract.Reader.Basic

/-!
# Module headers

A module opens with four fixed bytes and a version number, eight bytes in all.
-/

namespace WasmContract

/-- The header of a module. -/
structure Header where
  /-- The version of the format. -/
  version : UInt32 := 1
deriving DecidableEq, Repr, Inhabited

namespace Header

/-- The bytes that open every module. -/
def magic : List UInt8 := [0x00, 0x61, 0x73, 0x6d]

/-- The number of bytes in a header. -/
def size : Nat := 8

/-- Reads a header. Any version is accepted. -/
def reader : Reader Header := do
  let found ← Reader.bytes 4
  if found ≠ magic then throw (.invalidMagic found)
  let version ← Reader.word32
  return { version }

/-- The bytes of a header. -/
def encode (header : Header) : List UInt8 :=
  magic ++ [header.version.toUInt8, (header.version >>> 8).toUInt8,
    (header.version >>> 16).toUInt8, (header.version >>> 24).toUInt8]

example : encode {} = [0x00, 0x61, 0x73, 0x6d, 0x01, 0x00, 0x00, 0x00] := by decide

end Header

end WasmContract

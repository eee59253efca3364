import Stencil.Text.Basic

/-!
# UTF-8

A row of bytes is read character by character. The first bytes that are no
character end the reading, with the reason why and the place where they stand.
-/

namespace Stencil
namespace Text

inductive ByteFault where
  /-- A byte that no character begins with. -/
  | start
  /-- A byte that does not go on with the character begun. -/
  | continuation
  /-- The bytes end inside a character. -/
  | ending
deriving DecidableEq, Repr

structure DecodeError where
  fault : ByteFault
  /-- The first byte at fault. -/
  byte : UInt8
  position : Nat
  /-- How many bytes are at fault. -/
  count : Nat
deriving DecidableEq, Repr

def byteCount? (lead : UInt8) : Option Nat :=
  if lead < 0x80 then some 1
  else if lead < 0xC2 then none
  else if lead < 0xE0 then some 2
  else if lead < 0xF0 then some 3
  else if lead < 0xF5 then some 4
  else none

def leadBits (lead : UInt8) : Nat :=
  if lead < 0x80 then lead.toNat
  else if lead < 0xE0 then lead.toNat - 0xC0
  else if lead < 0xF0 then lead.toNat - 0xE0
  else lead.toNat - 0xF0

/-- The second bytes that may follow a first byte: no character has two forms. -/
def secondRange (lead : UInt8) : UInt8 × UInt8 :=
  if lead == 0xE0 then (0xA0, 0xBF)
  else if lead == 0xED then (0x80, 0x9F)
  else if lead == 0xF0 then (0x90, 0xBF)
  else if lead == 0xF4 then (0x80, 0x8F)
  else (0x80, 0xBF)

/--
Reads the bytes of a character after the first. The range is that of the next byte;
`seen` counts the bytes read so far.
-/
def readTail (range : UInt8 × UInt8) (code seen : Nat) :
    Nat → List UInt8 → Except (ByteFault × Nat) Nat
  | 0, _ => .ok code
  | _ + 1, [] => .error (.ending, seen)
  | left + 1, b :: rest =>
      if range.1 ≤ b && b ≤ range.2 then
        readTail (0x80, 0xBF) (code * 64 + (b.toNat - 0x80)) (seen + 1) left rest
      else .error (.continuation, seen)

def readChar (lead : UInt8) (rest : List UInt8) : Except (ByteFault × Nat) (Char × Nat) :=
  match byteCount? lead with
  | none => .error (.start, 1)
  | some count =>
      (readTail (secondRange lead) (leadBits lead) 1 (count - 1) rest).map fun code =>
        (Char.ofNat code, count)

/-- Reads bytes from a position on; `skip` bytes belong to a character read before. -/
def decodeFrom (position skip : Nat) : List UInt8 → Except DecodeError (List Char)
  | [] => .ok []
  | b :: rest =>
      match skip with
      | more + 1 => decodeFrom (position + 1) more rest
      | 0 =>
          match readChar b rest with
          | .error (fault, count) => .error ⟨fault, b, position, count⟩
          | .ok (c, count) => (decodeFrom (position + 1) (count - 1) rest).map (c :: ·)

def decode (bytes : List UInt8) : Except DecodeError (List Char) :=
  decodeFrom 0 0 bytes

/-! # Writing -/

/--
The bytes of a code point, if it has any. Some low surrogates stand for single bytes
that belong to no character; the other surrogates have no bytes.
-/
def pointBytes? : CodePoint → Option (List UInt8)
  | .char c => some (String.singleton c).toUTF8.toList
  | .surrogate index =>
      if 0x480 ≤ index.val && index.val < 0x500 then some [UInt8.ofNat (index.val - 0x400)]
      else none

def bytes? (t : Text) : Option (List UInt8) :=
  (t.points.mapM pointBytes?).map List.flatten

/-! # Line breaks -/

def plainBreaks : List Char → List Char
  | [] => []
  | '\r' :: '\n' :: rest => '\n' :: plainBreaks rest
  | c :: rest => (if c == '\r' then '\n' else c) :: plainBreaks rest

end Text
end Stencil

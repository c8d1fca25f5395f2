import Assay.Syntax.Node
import Assay.Text.Quoted

/-!
# Source files

The text of a Java file with its syntax tree. Nodes name parts of the text by bytes, so a part may
cut a character in two; it is then not text.
-/

namespace Assay

structure Source where
  text : String
  root : Node
  deriving Inhabited

namespace Source

/-- How many bytes the character that begins with this byte has, if one can. -/
def widthOf? (b : UInt8) : Option Nat :=
  if b < 0x80 then some 1
  else if 0xc2 ≤ b ∧ b < 0xe0 then some 2
  else if 0xe0 ≤ b ∧ b < 0xf0 then some 3
  else if 0xf0 ≤ b ∧ b < 0xf5 then some 4
  else none

def byteText (b : UInt8) : String := String.ofList ('0' :: 'x' :: Text.hexDigits 2 b.toNat)

/-- Where the bytes stop being text, and why. Only the first and the last character can be cut. -/
def decodeFault (bytes : List UInt8) (offset : Nat) : Nat → String
  | 0 => ""
  | fuel + 1 =>
    match bytes with
    | [] => ""
    | b :: rest =>
      match widthOf? b with
      | none =>
        s!"'utf-8' codec can't decode byte {byteText b} in position {offset}: invalid start byte"
      | some w =>
        if bytes.length < w then
          let reason := "unexpected end of data"
          if rest.isEmpty then
            s!"'utf-8' codec can't decode byte {byteText b} in position {offset}: {reason}"
          else
            let last := offset + rest.length
            s!"'utf-8' codec can't decode bytes in position {offset}-{last}: {reason}"
        else decodeFault (bytes.drop w) (offset + w) fuel

/-- Bytes as text. -/
def decode (bytes : ByteArray) : Except Fault String :=
  match String.fromUTF8? bytes with
  | some s => .ok s
  | none => .error ⟨.badEncoding, decodeFault bytes.toList 0 (bytes.size + 1)⟩

/-- A part of the text, by bytes. -/
def part (s : Source) (start stop : Nat) : Except Fault String :=
  let bytes := s.text.toUTF8
  decode (bytes.extract start (min stop bytes.size))

/-- The text of a node. -/
def textOf (s : Source) (n : Node) : Except Fault String := s.part n.start n.stop

/-- How many line feeds stand before a byte. -/
def rowAt (text : String) (byte : Nat) : Nat :=
  (text.toUTF8.toList.take byte |>.filter (· = 10)).length

end Source

end Assay

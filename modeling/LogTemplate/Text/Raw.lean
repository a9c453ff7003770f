import LogTemplate.Text.Utf8

/-! Texts as a file system has them: bytes, which need not be the encoding of characters. Names and
paths are such texts. For people they are shown with a mark in place of what is no character. -/

namespace LogTemplate

structure RawText where
  bytes : List UInt8
  deriving DecidableEq, Repr, Inhabited

namespace Text

def firstChar? (bs : List UInt8) : Option Char :=
  ByteArray.utf8DecodeChar? (bs.take 4).toByteArray 0

def isContinuation (b : UInt8) : Bool := 0x80 ≤ b && b ≤ 0xbf

def beginsLong (first second : UInt8) : Bool :=
  0xe0 ≤ first && first ≤ 0xf4 && isContinuation second &&
    (first ≠ 0xe0 || 0xa0 ≤ second) && (first ≠ 0xed || second ≤ 0x9f) &&
    (first ≠ 0xf0 || 0x90 ≤ second) && (first ≠ 0xf4 || second ≤ 0x8f)

/-- How many bytes belong to a character that is broken off or wrong: the first byte, and those behind
it that a character could go on with. -/
def strayLength : List UInt8 → Nat
  | first :: second :: rest =>
    if beginsLong first second then
      if 0xf0 ≤ first && rest.head?.any isContinuation then 3 else 2
    else 1
  | _ => 1

/-- The characters in bytes of which the first ones are passed over; what is none is marked. -/
def charsAfter : Nat → List UInt8 → List Char
  | _, [] => []
  | skipped + 1, _ :: rest => charsAfter skipped rest
  | 0, b :: rest =>
    match firstChar? (b :: rest) with
    | some c => c :: charsAfter (c.utf8Size - 1) rest
    | none => '\ufffd' :: charsAfter (strayLength (b :: rest) - 1) rest

end Text

namespace RawText

def ofText (s : String) : RawText := ⟨Text.bytes s⟩

instance : Coe String RawText := ⟨ofText⟩

instance : Append RawText := ⟨fun a b => ⟨a.bytes ++ b.bytes⟩⟩

instance : Ord RawText := ⟨fun a b => List.compareLex (compareOn UInt8.toNat) a.bytes b.bytes⟩

def isEmpty (r : RawText) : Bool := r.bytes.isEmpty

def size (r : RawText) : Nat := r.bytes.length

def toText? (r : RawText) : Option String := Text.ofBytes? r.bytes

/-- The text that is shown, and that stands for the name or path where a text is asked for. -/
def display (r : RawText) : String := String.ofList (Text.charsAfter 0 r.bytes)

theorem bytes_inj {r s : RawText} : r.bytes = s.bytes ↔ r = s :=
  ⟨fun h => by cases r; cases s; cases h; rfl, congrArg bytes⟩

theorem isEmpty_iff {r : RawText} : r.isEmpty = true ↔ r = "" :=
  List.isEmpty_iff.trans bytes_inj

@[simp] theorem bytes_append (r s : RawText) : (r ++ s).bytes = r.bytes ++ s.bytes := rfl

theorem size_append (r s : RawText) : (r ++ s).size = r.size + s.size := List.length_append

end RawText

example : (RawText.mk [0x64, 0xfe]).display = (RawText.mk [0x64, 0xff]).display := by decide +kernel

example : (RawText.mk [0xe2, 0x82, 0x61, 0xf0, 0x9f, 0x98, 0xed, 0xa0]).display
    = "\ufffda\ufffd\ufffd\ufffd" := by decide +kernel

end LogTemplate

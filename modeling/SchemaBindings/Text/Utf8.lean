namespace SchemaBindings.Text

/-- Reads a byte that continues a character: its six bits. -/
def continuation? (b : UInt8) : Option Nat :=
  if 0x80 ≤ b ∧ b ≤ 0xbf then some (b.toNat - 0x80) else none

/-- A character with the number of bytes it takes, if the code point is one and needs that many. -/
def encodedChar? (code width least : Nat) : Option (Char × Nat) :=
  if least ≤ code ∧ code.isValidChar then some (Char.ofNat code, width) else none

/-- The character whose encoding the bytes start with, and how many bytes it takes. -/
def leadingChar? : List UInt8 → Option (Char × Nat)
  | [] => none
  | b :: bs =>
    if b < 0x80 then encodedChar? b.toNat 1 0
    else if 0xc0 ≤ b ∧ b < 0xe0 then
      match bs with
      | c :: _ => do
        encodedChar? ((b.toNat - 0xc0) * 0x40 + (← continuation? c)) 2 0x80
      | _ => none
    else if 0xe0 ≤ b ∧ b < 0xf0 then
      match bs with
      | c :: d :: _ => do
        encodedChar? (((b.toNat - 0xe0) * 0x40 + (← continuation? c)) * 0x40
          + (← continuation? d)) 3 0x800
      | _ => none
    else if 0xf0 ≤ b ∧ b < 0xf8 then
      match bs with
      | c :: d :: e :: _ => do
        encodedChar? ((((b.toNat - 0xf0) * 0x40 + (← continuation? c)) * 0x40
          + (← continuation? d)) * 0x40 + (← continuation? e)) 4 0x10000
      | _ => none
    else none

/-- Stands for bytes that belong to no character. -/
def replacement : Char := Char.ofNat 0xfffd

/-- The characters of the bytes after the first `skipped` ones. Every byte that belongs to no
character is read as a replacement character. -/
def lossyFrom : Nat → List UInt8 → List Char
  | _, [] => []
  | skipped + 1, _ :: bs => lossyFrom skipped bs
  | 0, b :: bs =>
    match leadingChar? (b :: bs) with
    | some (c, width) => c :: lossyFrom (width - 1) bs
    | none => replacement :: lossyFrom 0 bs

/-- Reads bytes as characters without ever failing. -/
def lossyChars (bytes : List UInt8) : List Char :=
  lossyFrom 0 bytes

/-- The characters of the bytes, if they are well-formed throughout. -/
def chars? (bytes : List UInt8) : Option (List Char) :=
  (String.fromUTF8? (ByteArray.mk bytes.toArray)).map String.toList

end SchemaBindings.Text

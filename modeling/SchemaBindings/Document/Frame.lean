namespace SchemaBindings.Document.Frame

/-- The number that bytes denote, the lowest first. -/
def littleEndian : List UInt8 → Nat
  | [] => 0
  | b :: bs => b.toNat + 256 * littleEndian bs

/-- The first `n` bytes and the rest. -/
def take? (n : Nat) (bytes : List UInt8) : Option (List UInt8 × List UInt8) :=
  if n ≤ bytes.length then some (bytes.splitAt n) else none

/-- A number of `n` bytes. -/
def number? (n : Nat) (bytes : List UInt8) : Option (Nat × List UInt8) := do
  let (first, rest) ← take? n bytes
  return (littleEndian first, rest)

/-- The bytes that a frame starts with. -/
def magic : List UInt8 := [0x28, 0xb5, 0x2f, 0xfd]

def isFramed (bytes : List UInt8) : Bool :=
  magic.isPrefixOf bytes

/-- No block holds more bytes than this. -/
def blockLimit : Nat := 0x20000

/-- The blocks of a frame up to its last one: stored as they are, or one byte repeated. A block of
the third kind, whose content is compressed, is not unpacked here: a frame that has one is refused.
Every block takes bytes, so their number is enough fuel. -/
def blocks? : Nat → List UInt8 → Option (List UInt8 × List UInt8)
  | 0, _ => none
  | fuel + 1, bytes => do
    let (header, rest) ← number? 3 bytes
    let size := header / 8
    if blockLimit < size then none
    let (content, rest) ← match header / 2 % 4 with
      | 0 => take? size rest
      | 1 => do
        let (repeated, rest) ← take? 1 rest
        pure ((repeated.map (List.replicate size)).flatten, rest)
      | _ => none
    if header % 2 = 1 then return (content, rest)
    else
      let (more, rest) ← blocks? fuel rest
      return (content ++ more, rest)

/-- What the first byte of a frame's header tells about the rest of it. -/
structure Descriptor where
  sizeBytes : Nat
  hasWindow : Bool
  dictionaryBytes : Nat
  hasChecksum : Bool
  deriving DecidableEq, Repr

def Descriptor.ofByte? (b : Nat) : Option Descriptor :=
  let isSingle := b / 32 % 2 == 1
  if b / 8 % 2 = 1 then none
  else some
    { sizeBytes := match b / 64 with
        | 0 => if isSingle then 1 else 0
        | 1 => 2
        | 2 => 4
        | _ => 8
      hasWindow := !isSingle
      dictionaryBytes := match b % 4 with
        | 3 => 4
        | n => n
      hasChecksum := b / 4 % 2 == 1 }

/-- The content of a frame after its first four bytes. A stated size must be the content's, and no
dictionary is known. -/
def frame? (bytes : List UInt8) : Option (List UInt8 × List UInt8) := do
  let (first, rest) ← number? 1 bytes
  let d ← Descriptor.ofByte? first
  let (_, rest) ← take? (if d.hasWindow then 1 else 0) rest
  let (dictionary, rest) ← number? d.dictionaryBytes rest
  if dictionary ≠ 0 then none
  let (stated, rest) ← number? d.sizeBytes rest
  let size := if d.sizeBytes = 2 then stated + 256 else stated
  let (content, rest) ← blocks? (rest.length + 1) rest
  if d.sizeBytes ≠ 0 ∧ content.length ≠ size then none
  let (_, rest) ← take? (if d.hasChecksum then 4 else 0) rest
  return (content, rest)

/-- The contents of frames one after the other. A frame of the skippable kind holds nothing. -/
def frames? : Nat → List UInt8 → Option (List UInt8)
  | _, [] => some []
  | 0, _ => none
  | fuel + 1, bytes => do
    let (start, rest) ← take? 4 bytes
    if start = magic then
      let (content, rest) ← frame? rest
      return content ++ (← frames? fuel rest)
    else if littleEndian start / 16 = 0x184d2a5 then
      let (size, rest) ← number? 4 rest
      let (_, rest) ← take? size rest
      frames? fuel rest
    else none

/-- The bytes that frames hold. -/
def unpack? (bytes : List UInt8) : Option (List UInt8) :=
  frames? (bytes.length + 1) bytes

end SchemaBindings.Document.Frame

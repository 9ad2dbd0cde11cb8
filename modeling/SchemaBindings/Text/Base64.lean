namespace SchemaBindings.Text.Base64

/-- The six bits a letter of the alphabet stands for. -/
def sextet? (b : UInt8) : Option Nat :=
  let n := b.toNat
  if 65 ≤ n ∧ n ≤ 90 then some (n - 65)
  else if 97 ≤ n ∧ n ≤ 122 then some (n - 71)
  else if 48 ≤ n ∧ n ≤ 57 then some (n + 4)
  else if n = 43 then some 62
  else if n = 47 then some 63
  else none

def isLineBreak (b : UInt8) : Bool :=
  b == 10 || b == 13

def padding : UInt8 := 61

/-- The whole bytes that the sextets of one group carry; bits left over are dropped. -/
def groupBytes : List Nat → List UInt8
  | [a, b] => [UInt8.ofNat ((a * 4 + b / 16) % 256)]
  | [a, b, c] => [UInt8.ofNat ((a * 4 + b / 16) % 256), UInt8.ofNat ((b * 16 + c / 4) % 256)]
  | [a, b, c, d] =>
    [UInt8.ofNat ((a * 4 + b / 16) % 256), UInt8.ofNat ((b * 16 + c / 4) % 256),
      UInt8.ofNat ((c * 64 + d) % 256)]
  | _ => []

/-- After the padding only line breaks may follow; the index of the first other byte is the error. -/
def finish (index : Nat) : List UInt8 → Except Nat Unit
  | [] => .ok ()
  | b :: bs => if isLineBreak b then finish (index + 1) bs else .error index

/-- The second padding character, line breaks before it skipped. A different byte is reported at
the place of the first padding character when it follows directly. -/
def secondPadding (index : Nat) : List UInt8 → Except Nat Unit
  | [] => .error index
  | b :: bs =>
    if isLineBreak b then secondPadding (index + 1) bs
    else if b = padding then finish (index + 1) bs
    else .error (index - 1)

/-- Decodes from byte `index` on; `group` holds the sextets of the unfinished group. A failure
gives the index of the offending byte. -/
def decodeFrom (index : Nat) (group : List Nat) : List UInt8 → Except Nat (List UInt8)
  | [] => if group.isEmpty then .ok [] else .error (index - group.length)
  | b :: bs =>
    if isLineBreak b then decodeFrom (index + 1) group bs
    else match sextet? b with
      | some v =>
        let group' := group ++ [v]
        if group'.length = 4 then do
          return groupBytes group' ++ (← decodeFrom (index + 1) [] bs)
        else decodeFrom (index + 1) group' bs
      | none =>
        if b ≠ padding then .error index
        else match group.length with
          | 2 => do
            secondPadding (index + 1) bs
            return groupBytes group
          | 3 => do
            finish (index + 1) bs
            return groupBytes group
          | _ => .error index

/-- The bytes a padded text denotes, or the index at which it goes wrong. -/
def decode (s : String) : Except Nat (List UInt8) :=
  decodeFrom 0 [] s.toUTF8.toList

end SchemaBindings.Text.Base64

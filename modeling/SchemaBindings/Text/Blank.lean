namespace SchemaBindings.Text

/-- White space of every script: the ASCII controls from tab to carriage return, the blank, the
next-line control, and the space, line and paragraph separators. -/
def isBlank (c : Char) : Bool :=
  let n := c.toNat
  (9 ≤ n && n ≤ 13) || n == 0x20 || n == 0x85 || n == 0xa0 || n == 0x1680
    || (0x2000 ≤ n && n ≤ 0x200a) || n == 0x2028 || n == 0x2029 || n == 0x202f
    || n == 0x205f || n == 0x3000

/-- Splits off words: maximal runs of characters that are not blank. `word` holds the current run
in reverse. -/
def wordsFrom (word : List Char) : List Char → List (List Char)
  | [] => if word.isEmpty then [] else [word.reverse]
  | c :: cs =>
    if isBlank c then
      if word.isEmpty then wordsFrom [] cs else word.reverse :: wordsFrom [] cs
    else wordsFrom (c :: word) cs

/-- The words of a text, in order. -/
def words (s : String) : List String :=
  (wordsFrom [] s.toList).map String.ofList

end SchemaBindings.Text

/-! Blank characters and the words between them. Every part of the engine that trims, splits at
blanks or asks for a blank neighbour means the one class defined here. -/

namespace Stencil.Text

/-- the code points with the Unicode property White_Space -/
def isBlank (c : Char) : Bool :=
  let n := c.toNat
  (9 ≤ n && n ≤ 13) || n == 0x20 || n == 0x85 || n == 0xa0 || n == 0x1680 ||
    (0x2000 ≤ n && n ≤ 0x200a) || n == 0x2028 || n == 0x2029 || n == 0x202f || n == 0x205f ||
    n == 0x3000

def trimStart (cs : List Char) : List Char := cs.dropWhile isBlank

def trimEnd (cs : List Char) : List Char := (cs.reverse.dropWhile isBlank).reverse

def trim (cs : List Char) : List Char := trimEnd (trimStart cs)

/-- the first word, and what follows it from the next word on -/
def firstWord (cs : List Char) : List Char × List Char :=
  let cs := trimStart cs
  (cs.takeWhile (!isBlank ·), trimStart (cs.dropWhile (!isBlank ·)))

/-- a letter, digit or underscore of ASCII: what names of variables are made of -/
def isWordChar (c : Char) : Bool := c.isAlphanum || c == '_'

def isWord (cs : List Char) : Bool := !cs.isEmpty && cs.all isWordChar

theorem length_trimStart_le (cs : List Char) : (trimStart cs).length ≤ cs.length :=
  (List.dropWhile_suffix _).length_le

theorem length_trimEnd_le (cs : List Char) : (trimEnd cs).length ≤ cs.length := by
  have := (List.dropWhile_suffix (l := cs.reverse) isBlank).length_le
  simpa [trimEnd] using this

theorem length_trim_le (cs : List Char) : (trim cs).length ≤ cs.length :=
  Nat.le_trans (length_trimEnd_le _) (length_trimStart_le cs)

end Stencil.Text

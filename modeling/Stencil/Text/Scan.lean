import Stencil.Text.Blank

/-! Walking over an expression with an eye on string literals and parentheses. A character is at
the top level if it stands in neither and is itself no quote and no parenthesis. Separators and
operators count only there. -/

namespace Stencil.Text

/-- What a scan remembers: the quote that is open, how many parentheses are, and the character
before. A quote closes at the same quote, unless a backslash stands before it; a closing
parenthesis with none open is ignored. -/
structure Scan where
  quote : Option Char
  depth : Nat
  prev : Option Char

namespace Scan

def start : Scan := ⟨none, 0, none⟩

/-- is the next character at the top level? -/
def atTop (st : Scan) (c : Char) : Bool :=
  st.quote.isNone && st.depth == 0 && c != '"' && c != '\'' && c != '(' && c != ')'

def feed (st : Scan) (c : Char) : Scan :=
  match st.quote with
  | some q => ⟨if c == q && st.prev != some '\\' then none else some q, st.depth, some c⟩
  | none =>
    if c == '"' || c == '\'' then ⟨some c, st.depth, some c⟩
    else if c == '(' then ⟨none, st.depth + 1, some c⟩
    else if c == ')' then ⟨none, st.depth - 1, some c⟩
    else ⟨none, st.depth, some c⟩

def afterBlank (st : Scan) : Bool := st.prev.any isBlank

/-- cuts at every separator at the top level -/
def split (sep : Char) : Scan → List Char → List (List Char)
  | _, [] => [[]]
  | st, c :: cs =>
    if st.atTop c && c == sep then [] :: split sep (st.feed c) cs
    else (split sep (st.feed c) cs).modifyHead (c :: ·)

/-- the first top-level place where `p` holds of the scan and of the text from there on, as the
text before it and from it on -/
def find? (p : Scan → List Char → Bool) : Scan → List Char → Option (List Char × List Char)
  | _, [] => none
  | st, c :: cs =>
    if st.atTop c && p st (c :: cs) then some ([], c :: cs)
    else (find? p (st.feed c) cs).map fun (before, rest) => (c :: before, rest)

theorem split_ne_nil (sep : Char) (st : Scan) (cs : List Char) : split sep st cs ≠ [] := by
  induction cs generalizing st with
  | nil => simp [split]
  | cons c cs ih =>
    rw [split]
    split
    · simp
    · cases h : split sep (st.feed c) cs with
      | nil => exact absurd h (ih _)
      | cons _ _ => simp

theorem length_le_of_mem_split {sep : Char} {st : Scan} {cs p : List Char}
    (h : p ∈ split sep st cs) : p.length ≤ cs.length := by
  induction cs generalizing st p with
  | nil => simp [split] at h; simp [h]
  | cons c cs ih =>
    rw [split] at h
    split at h
    · rcases List.mem_cons.1 h with rfl | h
      · simp
      · exact Nat.le_succ_of_le (ih h)
    · cases hs : split sep (st.feed c) cs with
      | nil => simp [hs] at h
      | cons a as =>
        simp only [hs, List.modifyHead_cons, List.mem_cons] at h
        rcases h with rfl | h
        · exact Nat.succ_le_succ (ih (by rw [hs]; exact List.mem_cons_self))
        · exact Nat.le_succ_of_le (ih (by rw [hs]; exact List.mem_cons_of_mem _ h))

theorem append_of_find? {p : Scan → List Char → Bool} {st : Scan} {cs before rest : List Char}
    (h : find? p st cs = some (before, rest)) : cs = before ++ rest := by
  induction cs generalizing st before with
  | nil => simp [find?] at h
  | cons c cs ih =>
    rw [find?] at h
    split at h
    · simp only [Option.some.injEq, Prod.mk.injEq] at h
      obtain ⟨rfl, rfl⟩ := h
      rfl
    · obtain ⟨⟨b, r⟩, hf, he⟩ := Option.map_eq_some_iff.1 h
      simp only [Prod.mk.injEq] at he
      obtain ⟨rfl, rfl⟩ := he
      simp [← ih hf]

end Scan

/-- cuts at every separator outside quotes and parentheses; `n` cuts make `n + 1` pieces -/
def splitTop (sep : Char) (cs : List Char) : List (List Char) := Scan.split sep .start cs

/-- the pieces between top-level commas, trimmed; an empty one counts unless it is the last -/
def splitArguments (cs : List Char) : List (List Char) :=
  let pieces := (splitTop ',' cs).map trim
  if pieces.getLast?.any List.isEmpty then pieces.dropLast else pieces

/-- the first top-level occurrence of an operator: the text before it and from it on -/
def findTop? (operator cs : List Char) : Option (List Char × List Char) :=
  Scan.find? (fun _ rest => operator.isPrefixOf rest) .start cs

/-- is `rest`, which the scan has reached, the keyword with a blank on both sides? -/
def isKeywordAt (word : List Char) (st : Scan) (rest : List Char) : Bool :=
  st.afterBlank && word.isPrefixOf rest && (rest.drop word.length).head?.any isBlank

/-- the first top-level occurrence of a keyword between blanks -/
def findKeyword? (word cs : List Char) : Option (List Char × List Char) :=
  Scan.find? (isKeywordAt word) .start cs

/-- A keyword has something before it, a blank. -/
theorem before_ne_nil_of_findKeyword? {word cs before rest : List Char}
    (h : findKeyword? word cs = some (before, rest)) : before ≠ [] := by
  cases cs with
  | nil => simp [findKeyword?, Scan.find?] at h
  | cons c cs =>
    rw [findKeyword?, Scan.find?] at h
    split at h
    · rename_i hk; simp [isKeywordAt, Scan.afterBlank, Scan.start] at hk
    · obtain ⟨⟨b, r⟩, -, he⟩ := Option.map_eq_some_iff.1 h
      simp only [Prod.mk.injEq] at he
      rw [← he.1]
      exact List.cons_ne_nil _ _

theorem length_after_findKeyword? {word cs before rest : List Char}
    (h : findKeyword? word cs = some (before, rest)) :
    (rest.drop word.length).length < cs.length := by
  have hc := congrArg List.length (Scan.append_of_find? h)
  have hb := List.length_pos_iff.2 (before_ne_nil_of_findKeyword? h)
  simp only [List.length_append] at hc
  simp only [List.length_drop]
  omega

/-- cuts at every top-level occurrence of a keyword between blanks; the scan starts anew after
each cut -/
def splitKeyword (word cs : List Char) : List (List Char) :=
  match _h : findKeyword? word cs with
  | none => [cs]
  | some (before, rest) => before :: splitKeyword word (rest.drop word.length)
termination_by cs.length
decreasing_by exact length_after_findKeyword? _h

def isQuote (c : Char) : Bool := c == '"' || c == '\''

/-- Takes one layer of quotes off. The two quotes need not match, and a lone quote is both. -/
def unquote (cs : List Char) : List Char :=
  if cs.head?.any isQuote && cs.getLast?.any isQuote then (cs.drop 1).dropLast else cs

end Stencil.Text

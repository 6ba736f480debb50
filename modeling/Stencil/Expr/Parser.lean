import Stencil.Decimal.Numeral
import Stencil.Expr.Basic
import Stencil.Text.Scan
import Stencil.Text.Search

/-! Reading expressions. Every text is one: what is no literal is a path. -/

namespace Stencil.Expr

open Text (trim splitTop splitArguments)

/-- the text between two equal quotes, as it stands -/
def literalText? (token : List Char) : Option (List Char) :=
  match token.head?, token.getLast? with
  | some q, some r =>
    if 2 ≤ token.length && Text.isQuote q && q == r then some ((token.drop 1).dropLast) else none
  | _, _ => none

/-- A word that is a literal. -/
def literalWord? (token : List Char) : Option Value :=
  if token == "true".toList then some (.bool true)
  else if token == "false".toList then some (.bool false)
  else if token == "nil".toList || token == "null".toList then some .nil
  else none

def ofNumeral : Decimal.Numeral → Value
  | .whole n => .int (.ofInt n)
  | .real x => .float x

/-- A literal or a path. Nothing at all is nil. -/
def readTerm (cs : List Char) : Expr :=
  let token := trim cs
  if token.isEmpty then const .nil
  else match literalText? token with
  | some s => const (.text (.ofList s))
  | none => match Decimal.Numeral.read? token with
  | some n => const (ofNumeral n)
  | none => match literalWord? token with
  | some v => const v
  | none => path ((Text.pieces '.' token).map .ofList)

/-- The name and the texts of the arguments of a filter. A colon ends the name, wherever it is. -/
def splitCall (stage : List Char) : List Char × List (List Char) :=
  match Text.cutAt? [':'] stage with
  | some (name, args) => (trim name, splitArguments args)
  | none => (trim stage, [])

theorem length_le_of_mem_splitArguments {cs a : List Char} (h : a ∈ splitArguments cs) :
    a.length ≤ cs.length := by
  have hm : a ∈ (splitTop ',' cs).map trim := by
    rw [splitArguments] at h
    split at h
    · exact List.dropLast_subset _ h
    · exact h
  obtain ⟨p, hp, rfl⟩ := List.mem_map.1 hm
  exact Nat.le_trans (Text.length_trim_le p) (Text.Scan.length_le_of_mem_split hp)

theorem length_lt_of_mem_splitCall {stage a : List Char} (h : a ∈ (splitCall stage).2) :
    a.length < stage.length := by
  rw [splitCall] at h
  split at h
  · rename_i hc
    exact Nat.lt_of_le_of_lt (length_le_of_mem_splitArguments h)
      (Text.length_behind_cutAt? (by simp) hc)
  · simp at h

theorem length_lt_of_mem_stage {cs stage a : List Char} (hs : stage ∈ (splitTop '|' cs).drop 1)
    (h : a ∈ (splitCall stage).2) : a.length < cs.length :=
  Nat.lt_of_lt_of_le (length_lt_of_mem_splitCall h)
    (Text.Scan.length_le_of_mem_split (List.mem_of_mem_drop hs))

/-- A term, then filters between top-level bars. The arguments of a filter are expressions, again
with filters if a quote or parenthesis ends in the name. -/
def read (cs : List Char) : Expr :=
  ((splitTop '|' cs).drop 1).attach.foldl
    (fun e stage =>
      filter e (.ofList (splitCall stage.1).1)
        ((splitCall stage.1).2.attach.map fun arg => read arg.1))
    (readTerm ((splitTop '|' cs).headD []))
termination_by cs.length
decreasing_by exact length_lt_of_mem_stage stage.2 arg.2

theorem read_eq (cs : List Char) :
    read cs = ((splitTop '|' cs).drop 1).foldl
      (fun e stage =>
        filter e (.ofList (splitCall stage).1) ((splitCall stage).2.map read))
      (readTerm ((splitTop '|' cs).headD [])) := by
  rw [read]
  simp only [List.map_attach_eq_pmap, List.pmap_eq_map]
  exact List.foldl_attach (f := fun e stage =>
    filter e (.ofList (splitCall stage).1) ((splitCall stage).2.map read))

def parse (s : String) : Expr := read s.toList

end Stencil.Expr

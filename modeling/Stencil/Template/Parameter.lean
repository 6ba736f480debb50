import Stencil.Text.Scan
import Stencil.Text.Search

/-! The arguments of an include: a name and parameters written `key=value`. What is neither is
passed over. -/

namespace Stencil.Parameter

open Text (isBlank isQuote isWordChar trimStart)

/-- The value at the front of a text and what follows it: up to the closing quote if there is one,
else up to the next blank. -/
def readValue (cs : List Char) : List Char × List Char :=
  let bare := cs.takeWhile (!isBlank ·)
  let unclosed := (Text.unquote bare, cs.drop bare.length)
  match cs with
  | c :: tail => if isQuote c then (Text.cutAt? [c] tail).getD unclosed else unclosed
  | [] => unclosed

/-- the parameter that starts right here, with what follows it -/
def here? (cs : List Char) : Option ((String × String) × List Char) :=
  let key := cs.takeWhile isWordChar
  if key.isEmpty then none
  else match trimStart (cs.drop key.length) with
  | '=' :: rest =>
    if (trimStart rest).isEmpty then none
    else
      let (value, behind) := readValue (trimStart rest)
      some ((.ofList key, .ofList value), behind)
  | _ => none

theorem length_readValue_le (cs : List Char) : (readValue cs).2.length ≤ cs.length := by
  rw [readValue.eq_def]
  cases cs with
  | nil => simp
  | cons c tail =>
    simp only
    split
    · cases h : Text.cutAt? [c] tail with
      | none => simp
      | some p =>
        have := Text.length_behind_cutAt? (by simp) h
        simp only [Option.getD_some, List.length_cons]
        omega
    · simp

theorem length_here? {cs rest : List Char} {p : String × String}
    (h : here? cs = some (p, rest)) : rest.length < cs.length := by
  rw [here?] at h
  simp only at h
  split at h
  · simp at h
  · split at h
    · rename_i hr
      split at h
      · simp at h
      · simp only [Option.some.injEq, Prod.mk.injEq] at h
        have hk := Text.length_trimStart_le (cs.drop (cs.takeWhile isWordChar).length)
        rw [hr] at hk
        rename_i rest' _
        have h1 := length_readValue_le (trimStart rest')
        have h2 := Text.length_trimStart_le rest'
        rw [← h.2]
        simp only [List.length_cons, List.length_drop] at hk
        omega
    · simp at h

def readAll : List Char → List (String × String)
  | [] => []
  | c :: cs =>
    match _h : here? (c :: cs) with
    | some (p, rest) => p :: readAll rest
    | none => readAll cs
termination_by cs => cs.length
decreasing_by
  · exact length_here? _h
  · simp

/-- the first word without a quote at either end, and the parameters behind it -/
def readInclude (args : List Char) : String × List (String × String) :=
  let (name, rest) := Text.firstWord args
  let name := if name.head?.any isQuote then name.drop 1 else name
  let name := if name.getLast?.any isQuote then name.dropLast else name
  (.ofList name, readAll rest)

end Stencil.Parameter

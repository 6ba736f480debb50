/-! Finding one text in another: cutting at the first occurrence, membership, replacement. -/

namespace Stencil.Text

/-- cuts at the first occurrence of a mark: the text before it and the text behind it -/
def cutAt? (mark : List Char) : List Char → Option (List Char × List Char)
  | [] => if mark.isEmpty then some ([], []) else none
  | c :: cs =>
    if mark.isPrefixOf (c :: cs) then some ([], (c :: cs).drop mark.length)
    else (cutAt? mark cs).map fun (before, behind) => (c :: before, behind)

/-- the pieces between the occurrences of a character -/
def pieces (sep : Char) : List Char → List (List Char)
  | [] => [[]]
  | c :: cs => if c == sep then [] :: pieces sep cs else (pieces sep cs).modifyHead (c :: ·)

def hasPart (part cs : List Char) : Bool := (cutAt? part cs).isSome

theorem append_of_cutAt? {mark cs before behind : List Char}
    (h : cutAt? mark cs = some (before, behind)) : cs = before ++ mark ++ behind := by
  induction cs generalizing before with
  | nil =>
    simp only [cutAt?, List.isEmpty_iff] at h
    split at h
    · rename_i hm
      simp only [Option.some.injEq, Prod.mk.injEq] at h
      simp [← h.1, ← h.2, hm]
    · simp at h
  | cons c cs ih =>
    rw [cutAt?] at h
    split at h
    · rename_i hm
      simp only [Option.some.injEq, Prod.mk.injEq] at h
      obtain ⟨t, ht⟩ := List.isPrefixOf_iff_prefix.1 hm
      rw [← h.1, ← h.2, List.nil_append, ← ht, List.drop_left]
    · obtain ⟨⟨b, r⟩, hf, he⟩ := Option.map_eq_some_iff.1 h
      simp only [Prod.mk.injEq] at he
      obtain ⟨rfl, rfl⟩ := he
      simp [← ih hf]

theorem length_behind_cutAt? {mark cs before behind : List Char} (hm : mark ≠ [])
    (h : cutAt? mark cs = some (before, behind)) : behind.length < cs.length := by
  have hc := congrArg List.length (append_of_cutAt? h)
  have := List.length_pos_iff.2 hm
  simp only [List.length_append] at hc
  omega

/-- Puts `new` for every occurrence of `old`, from the left and without overlap. An empty `old`
occurs around every character. -/
def replaceAll (old new cs : List Char) : List Char :=
  if _h : old = [] then new ++ cs.flatMap (· :: new)
  else
    match _hc : cutAt? old cs with
    | none => cs
    | some (before, behind) => before ++ new ++ replaceAll old new behind
termination_by cs.length
decreasing_by exact length_behind_cutAt? _h _hc

end Stencil.Text

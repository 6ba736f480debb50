import Stencil.Proofs.Word
import Stencil.Template.Parameter

/-! The arguments of an include as they are written: a name, and behind it keys with values, each
bare or between quotes of a kind. Reading them gives back the name and every pair in order, whatever
the values hold. -/

namespace Stencil.Parameter

open Text (Blanks isBlank isBlank_of_isWordChar isQuote isWord isWordChar takeWhile_append_of_stop
  takeWhile_word trimStart trimStart_blanks_append unquote)

inductive Style where
  | bare
  | single
  | double
  deriving DecidableEq, Repr

namespace Style

def write : Style → List Char → List Char
  | bare, cs => cs
  | single, cs => '\'' :: cs ++ ['\'']
  | double, cs => '"' :: cs ++ ['"']

/-- A value between quotes does not contain them. A bare one ends at a blank, and must not begin as
one between quotes does. -/
def Admits : Style → List Char → Prop
  | bare, cs => cs ≠ [] ∧ cs.any isBlank = false ∧ cs.head?.any isQuote = false
  | single, cs => '\'' ∉ cs
  | double, cs => '"' ∉ cs

instance : (style : Style) → (cs : List Char) → Decidable (style.Admits cs)
  | bare, cs => inferInstanceAs (Decidable (cs ≠ [] ∧ cs.any isBlank = false ∧
      cs.head?.any isQuote = false))
  | single, cs => inferInstanceAs (Decidable ('\'' ∉ cs))
  | double, cs => inferInstanceAs (Decidable ('"' ∉ cs))

theorem exists_head_write {style : Style} {cs : List Char} (h : style.Admits cs) :
    ∃ c rest, style.write cs = c :: rest ∧ isBlank c = false := by
  cases style with
  | bare =>
    obtain ⟨c, rest, rfl⟩ := List.exists_cons_of_ne_nil h.1
    exact ⟨c, rest, rfl, (Bool.or_eq_false_iff.1 h.2.1).1⟩
  | single => exact ⟨'\'', _, rfl, by decide⟩
  | double => exact ⟨'"', _, rfl, by decide⟩

end Style

/-- Is the text a way to write the parameter? -/
def Writes (p : String × String) (cs : List Char) : Prop :=
  ∃ (style : Style) (l r : List Char), isWord p.1.toList = true ∧ Blanks l ∧ Blanks r ∧
    style.Admits p.2.toList ∧ cs = p.1.toList ++ (l ++ '=' :: (r ++ style.write p.2.toList))

/-- Is the text a way to write the parameters, with blanks in front of each one? -/
inductive WritesAll : List (String × String) → List Char → Prop
  | nil (blanks : List Char) (gap : Blanks blanks) : WritesAll [] blanks
  | cons {p : String × String} {ps : List (String × String)} {cs rest : List Char}
      (blanks : List Char) (gap : Blanks blanks) (ne : blanks ≠ []) (first : Writes p cs)
      (others : WritesAll ps rest) : WritesAll (p :: ps) (blanks ++ (cs ++ rest))

/-- A name of an include: without blanks, and with no quote at either end. -/
structure IsName (cs : List Char) : Prop where
  ne_nil : cs ≠ []
  solid : cs.any isBlank = false
  head : cs.head?.any isQuote = false
  last : cs.getLast?.any isQuote = false

section Reading

variable {p : String × String} {ps : List (String × String)} {cs rest blanks : List Char}

theorem isWordChar_of_isBlank {c : Char} (h : isBlank c = true) : isWordChar c = false :=
  Bool.eq_false_iff.2 fun hw => Bool.false_ne_true ((isBlank_of_isWordChar hw).symm.trans h)

theorem readValue_quoted {q : Char} (hq : isQuote q = true) (h : q ∉ cs) :
    readValue (q :: cs ++ [q] ++ rest) = (cs, rest) := by
  have hc := Text.cutAt?_singleton h rest
  simp [readValue, hc, hq]

theorem readValue_bare (h : Style.bare.Admits cs) (hr : ∀ c ∈ rest.head?, isBlank c = true) :
    readValue (cs ++ rest) = (cs, rest) := by
  obtain ⟨hne, hb, hq⟩ := h
  have hu : unquote cs = cs := by simp [unquote, hq]
  rw [readValue.eq_def, takeWhile_word hb hr]
  simp only [List.drop_left, hu]
  obtain ⟨c, cs, rfl⟩ := List.exists_cons_of_ne_nil hne
  rw [List.head?_cons, Option.any_some] at hq
  simp [hq]

theorem readValue_write {style : Style} (h : style.Admits cs)
    (hr : ∀ c ∈ rest.head?, isBlank c = true) :
    readValue (style.write cs ++ rest) = (cs, rest) := by
  cases style with
  | bare => exact readValue_bare h hr
  | single => exact readValue_quoted (by decide) h
  | double => exact readValue_quoted (by decide) h

theorem here?_of_writes (h : Writes p cs) (hr : ∀ c ∈ rest.head?, isBlank c = true) :
    here? (cs ++ rest) = some (p, rest) := by
  obtain ⟨style, l, r, hk, hl, hb, hv, rfl⟩ := h
  obtain ⟨d, written, hw, hd⟩ := Style.exists_head_write hv
  simp only [isWord, Bool.and_eq_true, Bool.not_eq_true', List.all_eq_true] at hk
  have hmark : ∀ t, ∀ c ∈ (l ++ '=' :: t).head?, isWordChar c = false := by
    intro t
    cases l with
    | nil =>
      rintro c ⟨⟩
      decide
    | cons b l =>
      rintro c ⟨⟩
      exact isWordChar_of_isBlank (hl b (by simp))
  have hmiddle : ∀ t, trimStart (l ++ '=' :: t) = '=' :: t := fun t =>
    trimStart_blanks_append hl (by rintro c ⟨⟩; decide)
  have hvalue : trimStart (r ++ (style.write p.2.toList ++ rest)) =
      style.write p.2.toList ++ rest :=
    trimStart_blanks_append hb (by rw [hw]; rintro c ⟨⟩; exact hd)
  have hne : (style.write p.2.toList ++ rest).isEmpty = false := by rw [hw]; rfl
  simp only [List.append_assoc, List.cons_append]
  rw [here?]
  simp only [takeWhile_append_of_stop hk.2 (hmark _), hk.1, Bool.false_eq_true, if_false,
    List.drop_left, hmiddle, hvalue, hne, readValue_write hv hr, String.ofList_toList]

theorem readAll_cons_of_isBlank {c : Char} (h : isBlank c = true) (cs : List Char) :
    readAll (c :: cs) = readAll cs := by
  have hn : here? (c :: cs) = none := by simp [here?, isWordChar_of_isBlank h]
  rw [readAll]
  split
  · rename_i he
    rw [hn] at he
    cases he
  · rfl

theorem readAll_blanks_append (h : Blanks blanks) (cs : List Char) :
    readAll (blanks ++ cs) = readAll cs := by
  induction blanks with
  | nil => rfl
  | cons b bs ih =>
    rw [Blanks, List.forall_mem_cons] at h
    rw [List.cons_append, readAll_cons_of_isBlank h.1, ih h.2]

theorem readAll_of_here? (h : here? cs = some (p, rest)) : readAll cs = p :: readAll rest := by
  cases cs with
  | nil => simp [here?] at h
  | cons c cs =>
    rw [readAll]
    split
    · rename_i he
      rw [h] at he
      cases he
      rfl
    · rename_i he
      rw [h] at he
      cases he

theorem WritesAll.head (h : WritesAll ps cs) : ∀ c ∈ cs.head?, isBlank c = true := by
  cases h with
  | nil _ gap => exact fun c hc => gap c (List.mem_of_mem_head? hc)
  | cons blanks gap ne _ _ =>
    obtain ⟨b, bs, rfl⟩ := List.exists_cons_of_ne_nil ne
    rintro c ⟨⟩
    exact gap b (by simp)

/-- Behind each parameter the reader stands at the blanks in front of the next one. -/
theorem readAll_of_writesAll (h : WritesAll ps cs) : readAll cs = ps := by
  induction h with
  | nil blanks gap =>
    rw [← List.append_nil blanks, readAll_blanks_append gap, readAll]
  | cons _ gap _ first others ih =>
    rw [readAll_blanks_append gap, readAll_of_here? (here?_of_writes first others.head), ih]

theorem readAll_trimStart (cs : List Char) : readAll (trimStart cs) = readAll cs := by
  conv_rhs => rw [← List.takeWhile_append_dropWhile (p := isBlank) (l := cs)]
  exact (readAll_blanks_append (fun _ hc => List.mem_takeWhile_imp hc) _).symm

end Reading

section Naming

variable {name : List Char} {style : Style}

theorem IsName.solid_write (h : IsName name) : (style.write name).any isBlank = false := by
  have hq : isBlank '\'' = false ∧ isBlank '"' = false := by decide
  cases style with
  | bare => exact h.solid
  | single => simpa [Style.write, hq] using h.solid
  | double => simpa [Style.write, hq] using h.solid

/-- Arguments of an include are read as the name and the parameters that were written. -/
theorem readInclude_of_writesAll {name : String} {style : Style} {ps : List (String × String)}
    {blanks cs : List Char} (hb : Blanks blanks) (hn : IsName name.toList) (hp : WritesAll ps cs) :
    readInclude (blanks ++ (style.write name.toList ++ cs)) = (name, ps) := by
  have hne : style.write name.toList ≠ [] := by
    cases style with
    | bare => exact hn.ne_nil
    | single => simp [Style.write]
    | double => simp [Style.write]
  have hq : isQuote '\'' = true ∧ isQuote '"' = true := by decide
  rw [readInclude, Text.firstWord_blanks_append hb hne hn.solid_write hp.head]
  simp only [readAll_trimStart, readAll_of_writesAll hp]
  -- one quote is taken off each end, of a bare name none
  cases style with
  | bare => simp [Style.write, hn.head, hn.last]
  | single => simp [Style.write, hq, List.getLast?_append]
  | double => simp [Style.write, hq, List.getLast?_append]

/-- a key twice, an empty value, and values that look like further parameters -/
theorem readInclude_of_writesAll_repeated :
    let name := "it's"
    let ps := [("a", "x=1 b='2'"), ("a", ""), ("b", "=c=\"")]
    let cs := [' '] ++ ("a= \"x=1 b='2'\"".toList ++ ([' '] ++ ("a=''".toList ++
      ([' ', '\n'] ++ ("b\t= =c=\"".toList ++ [' '])))))
    Blanks [] ∧ IsName name.toList ∧ WritesAll ps cs ∧
      readInclude ([] ++ (Style.single.write name.toList ++ cs)) = (name, ps) := by
  intro name ps cs
  have hb : Blanks [] := Text.blanks_nil
  have hn : IsName name.toList := ⟨by decide, by decide, by decide, by decide⟩
  have hx : Writes ("a", "x=1 b='2'") "a= \"x=1 b='2'\"".toList :=
    ⟨.double, [], [' '], by decide, by decide, by decide, by decide, by decide⟩
  have he : Writes ("a", "") "a=''".toList :=
    ⟨.single, [], [], by decide, by decide, by decide, by decide, by decide⟩
  have hc : Writes ("b", "=c=\"") "b\t= =c=\"".toList :=
    ⟨.bare, ['\t'], [' '], by decide, by decide, by decide, by decide, by decide⟩
  have hp : WritesAll ps cs :=
    .cons [' '] (by decide) (by decide) hx <| .cons [' '] (by decide) (by decide) he <|
      .cons [' ', '\n'] (by decide) (by decide) hc <| .nil [' '] (by decide)
  exact ⟨hb, hn, hp, readInclude_of_writesAll hb hn hp⟩

end Naming

end Stencil.Parameter

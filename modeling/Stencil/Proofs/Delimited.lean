import Stencil.Filter
import Stencil.Proofs.Equality
import Stencil.Proofs.Spelling

/-! JSON texts of values without floats. Every part of such a text shows by itself where it ends: an
escape by its first characters, a quoted text by the quote, a collection by its bracket, an integer
because nothing that may follow goes on with it. So the text determines the value. -/

namespace Stencil.Value

def hexValue (c : Char) : Nat := if c.isDigit then c.toNat - 48 else c.toNat - 87

theorem hexValue_digitChar : ∀ n < 16, hexValue (Nat.digitChar n) = n := by decide

def shortEscapes : List (Char × Char) :=
  [('"', '"'), ('\\', '\\'), ('b', '\x08'), ('f', '\x0c'), ('n', '\n'), ('r', '\r'), ('t', '\t')]

def readEscape? : List Char → Option (Char × List Char)
  | 'u' :: '0' :: '0' :: high :: low :: cs =>
    some (.ofNat (16 * hexValue high + hexValue low), cs)
  | c :: cs => (shortEscapes.lookup c).map (·, cs)
  | [] => none

/-- Reads one character of a quoted text. There is none at the closing quote. -/
def readQuoted? : List Char → Option (Char × List Char)
  | [] => none
  | c :: cs => if c == '"' then none else if c == '\\' then readEscape? cs else some (c, cs)

theorem readQuoted?_jsonEscape (c : Char) (rest : List Char) :
    readQuoted? (jsonEscape c ++ rest) = some (c, rest) := by
  rw [jsonEscape]
  -- seven characters have an escape of their own
  iterate 7
    split
    · next h => rw [eq_of_beq h]; rfl
  split
  · next h =>
    have hc : 16 * (c.toNat / 16) + c.toNat % 16 = c.toNat := Nat.div_add_mod _ _
    show some (Char.ofNat (16 * hexValue _ + hexValue _), rest) = _
    rw [hexValue_digitChar _ (by omega), hexValue_digitChar _ (by omega), hc, Char.ofNat_toNat]
  · next hquote hback _ _ _ _ _ _ => simp [readQuoted?, hquote, hback]

theorem eq_of_escapes_append {cs ds x y : List Char}
    (h : cs.flatMap jsonEscape ++ '"' :: x = ds.flatMap jsonEscape ++ '"' :: y) :
    cs = ds ∧ x = y := by
  have hread := congrArg readQuoted? h
  induction cs generalizing ds with
  | nil =>
    cases ds with
    | nil => exact ⟨rfl, List.tail_eq_of_cons_eq h⟩
    | cons d ds =>
      rw [List.flatMap_cons, List.append_assoc, readQuoted?_jsonEscape] at hread
      cases hread
  | cons c cs ih =>
    rw [List.flatMap_cons, List.append_assoc, readQuoted?_jsonEscape] at hread
    cases ds with
    | nil => cases hread
    | cons d ds =>
      rw [List.flatMap_cons, List.append_assoc, readQuoted?_jsonEscape] at hread
      obtain ⟨rfl, hrest⟩ := Prod.mk.inj (Option.some.inj hread)
      obtain ⟨rfl, hxy⟩ := ih hrest (congrArg readQuoted? hrest)
      exact ⟨rfl, hxy⟩

theorem eq_of_jsonQuoted_append {s t : String} {x y : List Char}
    (h : jsonQuoted s ++ x = jsonQuoted t ++ y) : s = t ∧ x = y := by
  rw [jsonQuoted, jsonQuoted, List.append_assoc, List.append_assoc] at h
  obtain ⟨hst, hxy⟩ := eq_of_escapes_append (List.tail_eq_of_cons_eq h)
  exact ⟨String.toList_inj.1 hst, hxy⟩

def isNumeric (c : Char) : Bool := c.isDigit || c == '-'

theorem isNumeric_of_mem_intDigits {n : Int} {c : Char} (h : c ∈ Decimal.intDigits n) :
    isNumeric c = true := by
  have hdigits : ∀ c ∈ Nat.toDigits 10 n.natAbs, isNumeric c = true := fun c hc => by
    rw [isNumeric, Nat.isDigit_of_mem_toDigits (by decide) (by decide) hc, Bool.true_or]
  rw [Decimal.intDigits, Decimal.signed] at h
  split at h
  · rcases List.mem_cons.1 h with rfl | h
    · rfl
    · exact hdigits c h
  · exact hdigits c h

/-- Can this follow a value? It does not go on with an integer. -/
def Ends (rest : List Char) : Prop := ∀ c ∈ rest.head?, isNumeric c = false

theorem ends_cons {c : Char} (h : isNumeric c = false) (rest : List Char) : Ends (c :: rest) := by
  rintro d ⟨⟩
  exact h

theorem eq_of_intDigits_append {m n : Int64} {x y : List Char} (hx : Ends x) (hy : Ends y)
    (h : Decimal.intDigits m.toInt ++ x = Decimal.intDigits n.toInt ++ y) : m = n ∧ x = y := by
  have htake := congrArg (List.takeWhile isNumeric) h
  rw [Text.takeWhile_append_of_stop (fun c => isNumeric_of_mem_intDigits) hx,
    Text.takeWhile_append_of_stop (fun c => isNumeric_of_mem_intDigits) hy] at htake
  have hread := congrArg Decimal.Numeral.read? htake
  rw [Decimal.Numeral.read?_intDigits (Decimal.fitsInt64_toInt m),
    Decimal.Numeral.read?_intDigits (Decimal.fitsInt64_toInt n)] at hread
  have hmn : m.toInt = n.toInt := Decimal.Numeral.whole.inj (Option.some.inj hread)
  rw [htake] at h
  exact ⟨Int64.toInt_inj.1 hmn, List.append_cancel_left h⟩

def kindAt? (c : Char) : Option Kind :=
  if c == 'n' then some .nil
  else if c == 't' || c == 'f' then some .bool
  else if isNumeric c then some .number
  else if c == '"' then some .text
  else if c == '[' then some .seq
  else if c == '\x7b' then some .map
  else none

theorem kindAt?_of_isNumeric {c : Char} (h : isNumeric c = true) : kindAt? c = some .number := by
  have hne : ∀ d, isNumeric d = false → (c == d) = false := by
    rintro d hd
    refine beq_false_of_ne ?_
    rintro rfl
    rw [h] at hd
    cases hd
  rw [kindAt?, hne 'n' rfl, hne 't' rfl, hne 'f' rfl, h]
  rfl

theorem kindAt?_jsonChars {v : Value} (h : v.isFloatless = true) (rest : List Char) :
    (jsonChars v ++ rest).head?.bind kindAt? = some v.kind := by
  cases v with
  | float x => cases h
  | bool b => cases b <;> rfl
  | int n =>
    rw [jsonChars]
    have hmem := fun c => isNumeric_of_mem_intDigits (n := n.toInt) (c := c)
    cases hds : Decimal.intDigits n.toInt with
    | nil =>
      have hread := Decimal.Numeral.read?_intDigits (Decimal.fitsInt64_toInt n)
      rw [hds] at hread
      cases hread
    | cons c ds => exact kindAt?_of_isNumeric (hmem c (hds ▸ List.mem_cons_self))
  | _ => rfl

theorem kind_eq_of_jsonChars_append {v w : Value} (hv : v.isFloatless = true)
    (hw : w.isFloatless = true) {x y : List Char} (h : jsonChars v ++ x = jsonChars w ++ y) :
    v.kind = w.kind := by
  have hkind := kindAt?_jsonChars hv x
  rw [h, kindAt?_jsonChars hw y] at hkind
  exact (Option.some.inj hkind).symm

/-! Collections: items with commas between and a bracket at the end. -/

section

variable {α : Type} {f : α → List Char} {P : α → Prop} {as bs : List α} {close : Char}
  {x y : List Char}

/-- In front of what may follow, the text of `a` is that of no other item. -/
def Delimits (f : α → List Char) (P : α → Prop) (a : α) : Prop :=
  ∀ b x y, P b → Ends x → Ends y → f a ++ x = f b ++ y → a = b ∧ x = y

def following (f : α → List Char) (as : List α) : List Char := as.flatMap fun a => ',' :: f a

theorem ends_following (hclose : isNumeric close = false) (as : List α) (x : List Char) :
    Ends (following f as ++ close :: x) := by
  cases as with
  | nil => exact ends_cons hclose x
  | cons a as => exact ends_cons (by decide) _

theorem eq_of_following_append (hclose : isNumeric close = false) (hcomma : close ≠ ',')
    (has : ∀ a ∈ as, Delimits f P a) (hbs : ∀ b ∈ bs, P b)
    (h : following f as ++ close :: x = following f bs ++ close :: y) : as = bs ∧ x = y := by
  induction as generalizing bs with
  | nil =>
    cases bs with
    | nil => exact ⟨rfl, List.tail_eq_of_cons_eq h⟩
    | cons b bs => exact absurd (List.head_eq_of_cons_eq h) hcomma
  | cons a as ih =>
    cases bs with
    | nil => exact absurd (List.head_eq_of_cons_eq h).symm hcomma
    | cons b bs =>
      rw [List.forall_mem_cons] at has hbs
      simp only [following, List.flatMap_cons, List.append_assoc, List.cons_append] at h
      obtain ⟨rfl, hrest⟩ := has.1 b _ _ hbs.1 (ends_following hclose as x)
        (ends_following hclose bs y) (List.tail_eq_of_cons_eq h)
      obtain ⟨rfl, hxy⟩ := ih has.2 hbs.2 hrest
      exact ⟨rfl, hxy⟩

def listed (f : α → List Char) : List α → List Char
  | [] => []
  | a :: as => f a ++ following f as

theorem eq_of_listed_append (hclose : isNumeric close = false) (hcomma : close ≠ ',')
    (hstart : ∀ a, P a → ∀ rest, (f a ++ rest).head? ≠ some close)
    (has : ∀ a ∈ as, P a ∧ Delimits f P a) (hbs : ∀ b ∈ bs, P b)
    (h : listed f as ++ close :: x = listed f bs ++ close :: y) : as = bs ∧ x = y := by
  cases as with
  | nil =>
    cases bs with
    | nil => exact ⟨rfl, List.tail_eq_of_cons_eq h⟩
    | cons b bs =>
      rw [listed, listed, List.append_assoc] at h
      exact absurd (congrArg List.head? h).symm (hstart b (hbs b List.mem_cons_self) _)
  | cons a as =>
    rw [List.forall_mem_cons] at has
    cases bs with
    | nil =>
      rw [listed, listed, List.append_assoc] at h
      exact absurd (congrArg List.head? h) (hstart a has.1.1 _)
    | cons b bs =>
      rw [List.forall_mem_cons] at hbs
      rw [listed, listed, List.append_assoc, List.append_assoc] at h
      obtain ⟨rfl, hrest⟩ := has.1.2 b _ _ hbs.1 (ends_following hclose as x)
        (ends_following hclose bs y) h
      obtain ⟨rfl, hxy⟩ := eq_of_following_append hclose hcomma (fun a ha => (has.2 a ha).2)
        hbs.2 hrest
      exact ⟨rfl, hxy⟩

end

theorem jsonItems_eq : ∀ vs : List Value, jsonItems vs = listed jsonChars vs
  | [] => rfl
  | [v] => (List.append_nil _).symm
  | v :: w :: vs => by rw [jsonItems, jsonItems_eq (w :: vs)]; rfl

def jsonEntry (e : String × Value) : List Char := jsonQuoted e.1 ++ ':' :: jsonChars e.2

theorem jsonEntries_eq : ∀ es : List (String × Value), jsonEntries es = listed jsonEntry es
  | [] => rfl
  | [(k, v)] => (List.append_nil _).symm
  | (k, v) :: e :: es => by
    simp [jsonEntries, jsonEntries_eq (e :: es), listed, following, jsonEntry]

theorem head?_jsonChars_ne {v : Value} (h : v.isFloatless = true) (rest : List Char) :
    (jsonChars v ++ rest).head? ≠ some ']' := by
  intro hhead
  have hkind := kindAt?_jsonChars h rest
  rw [hhead] at hkind
  cases hkind

theorem delimits_jsonEntry {e : String × Value}
    (h : Delimits jsonChars (fun v => v.isFloatless = true) e.2) :
    Delimits jsonEntry (fun e => e.2.isFloatless = true) e := by
  intro e' x y he' hx hy heq
  rw [jsonEntry, jsonEntry, List.append_assoc, List.append_assoc] at heq
  obtain ⟨hkey, hrest⟩ := eq_of_jsonQuoted_append heq
  obtain ⟨hval, hxy⟩ := h e'.2 x y he' hx hy (List.tail_eq_of_cons_eq hrest)
  exact ⟨Prod.ext hkey hval, hxy⟩

theorem delimits_of_kind {v : Value} (hv : v.isFloatless = true)
    (h : ∀ w x y, w.isFloatless = true → v.kind = w.kind → Ends x → Ends y →
      jsonChars v ++ x = jsonChars w ++ y → v = w ∧ x = y) :
    Delimits jsonChars (fun v => v.isFloatless = true) v :=
  fun w x y hw hx hy heq => h w x y hw (kind_eq_of_jsonChars_append hv hw heq) hx hy heq

theorem delimits_jsonChars (v : Value) (hv : v.isFloatless = true) :
    Delimits jsonChars (fun v => v.isFloatless = true) v := by
  induction v using Value.induct with
  | nil =>
    refine delimits_of_kind hv fun w x y hw hk hx hy h => ?_
    cases w <;> cases hk
    exact ⟨rfl, List.append_cancel_left h⟩
  | bool b =>
    refine delimits_of_kind hv fun w x y hw hk hx hy h => ?_
    cases w <;> cases hk
    next b' => cases b <;> cases b' <;> simp_all [jsonChars]
  | int n =>
    refine delimits_of_kind hv fun w x y hw hk hx hy h => ?_
    cases w <;> cases hk
    · obtain ⟨rfl, hxy⟩ := eq_of_intDigits_append hx hy h
      exact ⟨rfl, hxy⟩
    · cases hw
  | float x => cases hv
  | text s =>
    refine delimits_of_kind hv fun w x y hw hk hx hy h => ?_
    cases w <;> cases hk
    obtain ⟨rfl, hxy⟩ := eq_of_jsonQuoted_append h
    exact ⟨rfl, hxy⟩
  | seq items ih =>
    refine delimits_of_kind hv fun w x y hw hk hx hy h => ?_
    cases w <;> cases hk
    next items' =>
    have hv := areFloatless_iff.1 hv
    simp only [jsonChars, jsonItems_eq, List.cons_append, List.append_assoc, List.nil_append] at h
    obtain ⟨rfl, hxy⟩ := eq_of_listed_append (by decide) (by decide)
      (fun a ha => head?_jsonChars_ne ha) (fun a ha => ⟨hv a ha, ih a ha (hv a ha)⟩)
      (areFloatless_iff.1 hw) (List.tail_eq_of_cons_eq h)
    exact ⟨rfl, hxy⟩
  | map entries ih =>
    refine delimits_of_kind hv fun w x y hw hk hx hy h => ?_
    cases w <;> cases hk
    next entries' =>
    have hv := haveNoFloat_iff.1 hv
    simp only [jsonChars, jsonEntries_eq, List.cons_append, List.append_assoc, List.nil_append] at h
    obtain ⟨rfl, hxy⟩ := eq_of_listed_append (by decide) (by decide)
      (fun e _ rest => by simp [jsonEntry, jsonQuoted])
      (fun e he => ⟨hv e he, delimits_jsonEntry (ih e he (hv e he))⟩)
      (haveNoFloat_iff.1 hw) (List.tail_eq_of_cons_eq h)
    exact ⟨rfl, hxy⟩

end Stencil.Value

namespace Stencil.Filter

/-- Two values without floats that have the same JSON text are the same value. -/
theorem jsonify_injective {v w : Value} (hv : v.isFloatless = true) (hw : w.isFloatless = true)
    (h : jsonify v = jsonify w) : v = w := by
  have hchars : v.jsonChars = w.jsonChars :=
    String.ofList_injective (Value.text.inj h)
  have hnil : Value.Ends [] := nofun
  refine (Value.delimits_jsonChars v hv w [] [] hw hnil hnil ?_).1
  rw [hchars]

/-- marks, quotes and controls in keys and texts, an entry written later, a negative integer -/
theorem jsonify_injective_marks :
    let items : Value := .seq [.int (-12), .text "],\"\\", .nil, .bool true]
    let v : Value := .map [("\n:", items), ("", .map [])]
    let w : Value := .map (Entries.put "" (.map []) [("\n:", items)])
    v.isFloatless = true ∧ w.isFloatless = true ∧ jsonify v = jsonify w ∧ v = w := by
  intro items v w
  have hv : v.isFloatless = true := by decide
  have hw : w.isFloatless = true := by decide
  have hjson : jsonify v = jsonify w := congrArg Value.text (by decide +kernel)
  exact ⟨hv, hw, hjson, jsonify_injective hv hw hjson⟩

end Stencil.Filter

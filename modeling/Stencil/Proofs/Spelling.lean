import Mathlib.Data.List.TakeDrop
import Stencil.Decimal.Notation
import Stencil.Expr.Parser
import Stencil.Proofs.Level

/-! Writing expressions, and reading them back. A term is written as a literal or as a dotted path;
filters and their arguments stand between marks with any blanks around them. What was written so is
read as the expression that it says, whatever the literals contain. -/

namespace Stencil

namespace Decimal

theorem Numeral.read?_eq_none {c : Char} {cs : List Char} (hd : c.isDigit = false) (hs : c ≠ '-') :
    Numeral.read? (c :: cs) = none := by
  have hsign : splitSign (c :: cs) = (false, c :: cs) := by
    rw [splitSign.eq_def]
    split
    · rename_i he
      cases he
      exact absurd rfl hs
    · rfl
  have hn (ds : List Char) : isDigits (c :: ds) = false := by simp [isDigits, hd]
  have hb : isDigits ((c :: cs).takeWhile (· != '.')) = false := by
    rw [List.takeWhile_cons]
    split
    · exact hn _
    · rfl
  rw [read?, hsign]
  simp only [hn, Bool.false_eq_true, if_false, List.span_eq_takeWhile_dropWhile, hb, Bool.false_and]
  split <;> rfl

theorem isDigits_toDigits (n : Nat) : isDigits (Nat.toDigits 10 n) = true := by
  simp only [isDigits, Bool.and_eq_true, Bool.not_eq_true', List.isEmpty_eq_false_iff,
    List.all_eq_true]
  exact ⟨Nat.toDigits_ne_nil, fun c => Nat.isDigit_of_mem_toDigits (by decide) (by decide)⟩

theorem fitsInt64_toInt (n : Int64) : fitsInt64 n.toInt = true := by
  simp only [fitsInt64, Bool.and_eq_true, decide_eq_true_eq]
  exact ⟨n.le_toInt, n.toInt_lt⟩

theorem Numeral.read?_intDigits {n : Int} (h : fitsInt64 n = true) :
    Numeral.read? (intDigits n) = some (.whole n) := by
  have hs : splitSign (intDigits n) = (decide (n < 0), Nat.toDigits 10 n.natAbs) := by
    rw [intDigits, signed]
    split
    · rename_i hn
      rw [hn]
      rfl
    · rename_i hn
      rw [Bool.not_eq_true] at hn
      rw [hn, splitSign.eq_def]
      split
      · rename_i cs he
        have hm : '-' ∈ Nat.toDigits 10 n.natAbs := by rw [he]; exact List.mem_cons_self
        exact absurd (Nat.isDigit_of_mem_toDigits (by decide) (by decide) hm) (by decide)
      · rfl
  have hv : applySign (decide (n < 0)) (natOf (Nat.toDigits 10 n.natAbs)) = n := by
    rw [natOf, Nat.ofDigitChars_ten_toDigits, applySign]
    split <;> rename_i hn <;> simp only [decide_eq_true_eq] at hn <;> omega
  rw [read?, hs]
  simp only [isDigits_toDigits, if_true, hv, h]

end Decimal

/-- an expression with one more filter, whose text was cut into the name and the arguments -/
def Expr.filtered (e : Expr) (call : List Char × List (List Char)) : Expr :=
  .filter e (.ofList call.1) (call.2.map .read)

theorem Expr.read_of_splitTop {cs q : List Char} {qs : List (List Char)}
    (h : Text.splitTop '|' cs = q :: qs) :
    Expr.read cs = (qs.map Expr.splitCall).foldl Expr.filtered (Expr.readTerm q) := by
  rw [Expr.read_eq, h, List.foldl_map]
  rfl

namespace Spelling

open Text (Tidy Padded padded_trim Joined Plain isPlain isQuote isWordChar trim splitArguments)
open Text.Scan (Bridges Ignores Skips isAt)

/-- A term as it is written: a literal, a text between two quotes of a kind, or a path. -/
inductive Term where
  | nil
  | bool (b : Bool)
  | int (n : Int64)
  | text (quote : Char) (s : List Char)
  | path (segments : List (List Char))

/-- A filter as it is written, with the terms that are its arguments. -/
structure Call where
  name : List Char
  args : List Term

/-- An expression as it is written: a term and the filters behind it. -/
structure Phrase where
  base : Term
  calls : List Call

def isNameChar (c : Char) : Bool := isWordChar c || c == '-'

def reserved : List (List Char) := ["true".toList, "false".toList, "nil".toList, "null".toList]

namespace Term

def print : Term → List Char
  | nil => "nil".toList
  | bool true => "true".toList
  | bool false => "false".toList
  | int n => Decimal.intDigits n.toInt
  | text quote s => quote :: s ++ [quote]
  | path segments => ['.'].intercalate segments

def expr : Term → Expr
  | nil => .const .nil
  | bool b => .const (.bool b)
  | int n => .const (.int n)
  | text _ s => .const (.text (.ofList s))
  | path segments => .path (segments.map .ofList)

/-- Can the term be written? A text has neither its quote nor a backslash, and a path begins with a
letter or an underscore. -/
def Printable : Term → Prop
  | text quote s => isQuote quote = true ∧ quote ∉ s ∧ '\\' ∉ s
  | path segments =>
    (∀ segment ∈ segments, segment.all isNameChar = true) ∧
      (segments.headD []).head?.any (fun c => c.isAlpha || c == '_') = true ∧
        ['.'].intercalate segments ∉ reserved
  | _ => True

instance : (t : Term) → Decidable t.Printable
  | nil | bool _ | int _ => inferInstanceAs (Decidable True)
  | text .. | path .. => inferInstanceAs (Decidable (_ ∧ _ ∧ _))

end Term

namespace Call

/-- Can the filter be written? Its name is made of plain characters, such as letters, digits, `_`
and `-`. -/
structure Printable (c : Call) : Prop where
  ne_nil : c.name ≠ []
  plain : Plain c.name
  args : ∀ t ∈ c.args, t.Printable

instance (c : Call) : Decidable c.Printable :=
  decidable_of_iff (c.name ≠ [] ∧ Plain c.name ∧ ∀ t ∈ c.args, t.Printable)
    ⟨fun h => ⟨h.1, h.2.1, h.2.2⟩, fun h => ⟨h.ne_nil, h.plain, h.args⟩⟩

/-- The texts of a filter: a name alone, or with arguments behind a colon and between commas. -/
inductive Writes (c : Call) : List Char → Prop
  | name (none : c.args = []) : Writes c c.name
  | args {s a : List Char} (colon : Padded [':'] s)
      (args : Joined (Padded [',']) (c.args.map Term.print) a) : Writes c (c.name ++ s ++ a)

end Call

namespace Phrase

def expr (e : Phrase) : Expr :=
  e.calls.foldl (fun b c => .filter b (.ofList c.name) (c.args.map Term.expr)) e.base.expr

structure Printable (e : Phrase) : Prop where
  base : e.base.Printable
  calls : ∀ c ∈ e.calls, c.Printable

instance (e : Phrase) : Decidable e.Printable :=
  decidable_of_iff (e.base.Printable ∧ ∀ c ∈ e.calls, c.Printable)
    ⟨fun h => ⟨h.1, h.2⟩, fun h => ⟨h.base, h.calls⟩⟩

/-- The texts of an expression: its filters stand behind bars. -/
def Writes (e : Phrase) (t : List Char) : Prop :=
  ∃ stages, List.Forall₂ Call.Writes e.calls stages ∧
    Joined (Padded ['|']) (e.base.print :: stages) t

def words (e : Phrase) : List (List Char) :=
  e.base.print :: e.calls.flatMap fun c => c.name :: c.args.map Term.print

end Phrase

theorem isPlain_of_isNameChar {c : Char} (h : isNameChar c = true) : isPlain c = true := by
  rw [isNameChar, Bool.or_eq_true] at h
  rcases h with h | h
  · have hn : ((Text.marks ++ Text.fences).all fun d => !isWordChar d) = true := by decide
    have hm : Text.isMark c = false ∧ Text.isFence c = false := by
      by_contra hc
      have hmem : c ∈ Text.marks ++ Text.fences := by
        simp only [Text.isMark, Text.isFence, List.contains_eq_mem] at hc
        grind
      have hw := List.all_eq_true.1 hn c hmem
      simp [h] at hw
    simp [isPlain, Text.isBlank_of_isWordChar h, hm]
  · rw [eq_of_beq h]
    decide

theorem tidy_of_plain {w : List Char} (hne : w ≠ []) (h : Plain w) : Tidy w := by
  have hb : ∀ c ∈ w, Text.isBlank c = false := fun c hc => Text.isBlank_of_isPlain (h c hc)
  obtain ⟨c, cs, rfl⟩ := List.exists_cons_of_ne_nil hne
  exact ⟨⟨c, rfl, hb c List.mem_cons_self⟩,
    ⟨_, List.getLast?_eq_some_getLast hne, hb _ (List.getLast_mem hne)⟩⟩

namespace Term

variable {t : Term}

theorem plain_of_path {segments : List (List Char)} (h : (path segments).Printable) :
    Plain (path segments).print := by
  intro c hc
  rcases Text.mem_intercalate hc with rfl | ⟨segment, hs, hc⟩
  · decide
  · exact isPlain_of_isNameChar (List.all_eq_true.1 (h.1 segment hs) c hc)

theorem exists_cons_of_path {segments : List (List Char)} (h : (path segments).Printable) :
    ∃ c cs, (path segments).print = c :: cs ∧ (c.isAlpha = true ∨ c = '_') := by
  obtain ⟨c, hc, hs⟩ := (Option.any_eq_true _ _).1 h.2.1
  rw [Bool.or_eq_true, beq_iff_eq] at hs
  rw [print]
  rcases segments with _ | ⟨_ | ⟨d, ds⟩, segments⟩
  · cases hc
  · cases hc
  · cases hc
    cases segments with
    | nil => exact ⟨c, ds, List.intercalate_singleton, hs⟩
    | cons segment segments => exact ⟨c, _, List.intercalate_cons_cons, hs⟩

theorem plain_of_int (n : Int64) : Plain (int n).print := by
  have hd : Plain (Nat.toDigits 10 n.toInt.natAbs) := by
    intro c hc
    have h := Nat.isDigit_of_mem_toDigits (by decide) (by decide) hc
    apply isPlain_of_isNameChar
    simp [isNameChar, isWordChar, Char.isAlphanum, h]
  intro c hc
  rw [print, Decimal.intDigits, Decimal.signed] at hc
  split at hc
  · rcases List.mem_cons.1 hc with rfl | hc
    · decide
    · exact hd c hc
  · exact hd c hc

theorem print_quoted_or_plain (h : t.Printable) :
    (∃ q s, t = text q s ∧ isQuote q = true ∧ q ∉ s ∧ '\\' ∉ s) ∨
      t.print ≠ [] ∧ Plain t.print := by
  cases t with
  | nil => exact .inr (by decide)
  | bool b => exact .inr (by cases b <;> decide)
  | int n =>
    refine .inr ⟨?_, plain_of_int n⟩
    rw [print, Decimal.intDigits, Decimal.signed]
    split
    · simp
    · exact Nat.toDigits_ne_nil
  | text q s => exact .inl ⟨q, s, rfl, h⟩
  | path segments =>
    obtain ⟨c, cs, he, -⟩ := exists_cons_of_path h
    exact .inr ⟨by simp [he], plain_of_path h⟩

theorem tidy_print (h : t.Printable) : Tidy t.print := by
  rcases print_quoted_or_plain h with ⟨q, s, rfl, hq, -⟩ | ⟨hne, hp⟩
  · have hb : Text.isBlank q = false := by
      simp only [isQuote, Bool.or_eq_true, beq_iff_eq] at hq
      rcases hq with rfl | rfl <;> decide
    exact ⟨⟨q, rfl, hb⟩, ⟨q, List.getLast?_concat, hb⟩⟩
  · exact tidy_of_plain hne hp

/-- A search that does not look for the word of a term passes over it. -/
theorem skips_print {p : Text.Scan → List Char → Bool} {M : Char → Prop} {W : List Char → Prop}
    (hi : Ignores p M W) (h : t.Printable) (hw : W t.print) : Skips p t.print := by
  rcases print_quoted_or_plain h with ⟨q, s, rfl, hq, hs, hb⟩ | ⟨-, hp⟩
  · exact fun rest _ => Text.Scan.passes_literal hq hs hb rest
  · exact hi.word _ hp hw

theorem literalText?_of_plain {w : List Char} (h : Plain w) :
    Expr.literalText? w = none := by
  rw [Expr.literalText?.eq_def]
  split
  · rename_i q r hq _
    have hf : Text.isFence q = false := Text.isFence_of_isPlain (h q (List.mem_of_head? hq))
    have hn : isQuote q = false := by
      by_contra hq'
      rw [Text.isFence_of_isQuote (Bool.not_eq_false _ ▸ hq')] at hf
      cases hf
    simp [hn]
  · rfl

theorem readTerm_of_padded {cs : List Char} (h : t.Printable) (hp : Padded t.print cs) :
    Expr.readTerm cs = t.expr := by
  have ht := (tidy_print h).trim_of_padded hp
  have hne : t.print.isEmpty = false := List.isEmpty_eq_false_iff.2 (tidy_print h).ne_nil
  simp only [Expr.readTerm, ht, hne, Bool.false_eq_true, if_false]
  cases t with
  | nil => rfl
  | bool b => cases b <;> rfl
  | int n =>
    have hr := Decimal.Numeral.read?_intDigits (Decimal.fitsInt64_toInt n)
    rw [literalText?_of_plain (plain_of_int n), print, hr]
    simp [Expr.ofNumeral, expr]
  | text q s =>
    have hl : Expr.literalText? (text q s).print = some s := by
      have hg : (q :: s ++ [q]).getLast? = some q := List.getLast?_concat
      rw [print, Expr.literalText?, hg]
      simp [h.1]
    rw [hl]
    rfl
  | path segments =>
    obtain ⟨c, cs, he, hc⟩ := exists_cons_of_path h
    have hn : Decimal.Numeral.read? (path segments).print = none := by
      rw [he]
      apply Decimal.Numeral.read?_eq_none
      · rcases hc with hc | rfl
        · exact Text.isDigit_of_isAlpha hc
        · decide
      · rintro rfl
        exact absurd hc (by decide)
    have hw : Expr.literalWord? (path segments).print = none := by
      have hr := h.2.2
      simp only [reserved, List.mem_cons, List.not_mem_nil, or_false, not_or] at hr
      simp only [Expr.literalWord?, print, beq_iff_eq, Bool.or_eq_true, hr, or_self, if_false]
    have hs : Text.pieces '.' (path segments).print = segments := by
      apply Text.pieces_intercalate
      · rintro rfl
        cases he
      · intro segment hm hd
        exact absurd (List.all_eq_true.1 (h.1 segment hm) _ hd) (by decide)
    rw [literalText?_of_plain (plain_of_path h), hn, hw, hs]
    rfl

end Term

namespace Call

variable {c : Call} {s : List Char}

theorem tidy_of_writes (h : c.Printable) (hw : c.Writes s) : Tidy s := by
  have hn := tidy_of_plain h.ne_nil h.plain
  cases hw with
  | name => exact hn
  | args _ ha =>
    refine hn.append (ha.tidy ?_) _
    exact List.forall_mem_map.2 fun t ht => t.tidy_print (h.args t ht)

theorem skips_of_writes {p : Text.Scan → List Char → Bool} {M : Char → Prop}
    {W : List Char → Prop} (hi : Ignores p M W) (hm : ∀ d ∈ [':', ','], M d) (h : c.Printable)
    (hw : ∀ w ∈ c.name :: c.args.map Term.print, W w) (ht : c.Writes s) : Skips p s := by
  rw [List.forall_mem_cons] at hw
  have hn : Skips p c.name := hi.word _ h.plain hw.1
  cases ht with
  | name => exact hn
  | args hs ha =>
    have hk : ∀ d ∈ [':', ','], Text.isMark d = true := by simp [Text.isMark, Text.marks]
    have hg : ∀ d ∈ [':', ','], ∀ s, Padded [d] s → Bridges p s := fun d hd s =>
      hi.bridges_padded (by simp) (List.forall_mem_singleton.2 ⟨hk d hd, hm d hd⟩)
    refine hg ':' (by simp) _ hs _ _ hn (Text.Scan.skips_joined ha (hg ',' (by simp)) ?_)
    refine List.forall_mem_map.2 fun t ht => ?_
    exact Term.skips_print hi (h.args t ht) (hw.2 _ (List.mem_map_of_mem ht))

theorem splitCall_of_writes {q : List Char} (h : c.Printable) (hw : c.Writes s) (hp : Padded s q) :
    Expr.splitCall q = (c.name, c.args.map Term.print) := by
  have hn := tidy_of_plain h.ne_nil h.plain
  have hc (l r : List Char) (hl : Text.Blanks l) (hr : Text.Blanks r) : ':' ∉ l ++ c.name ++ r := by
    have hb : ¬ Text.isBlank ':' = true := by decide
    have hd : ¬ isPlain ':' = true := by decide
    simp only [List.mem_append, not_or]
    exact ⟨⟨fun hm => hb (hl _ hm), fun hm => hd (h.plain _ hm)⟩, fun hm => hb (hr _ hm)⟩
  obtain ⟨l, r, hl, hr, rfl⟩ := hp
  cases hw with
  | name hnone =>
    rw [Expr.splitCall, Text.cutAt?_singleton_eq_none (hc l r hl hr), hnone,
      hn.trim_of_padded ⟨l, r, hl, hr, rfl⟩]
    rfl
  | @args s a hs ha =>
    obtain ⟨l', r', hl', hr', rfl⟩ := hs
    have he : l ++ (c.name ++ (l' ++ [':'] ++ r') ++ a) ++ r =
        (l ++ c.name ++ l') ++ ':' :: (r' ++ a ++ r) := by simp
    have hargs : splitArguments (r' ++ a ++ r) = c.args.map Term.print := by
      refine Text.splitArguments_of_joined ha (List.forall_mem_map.2 fun t ht => ?_) hr' hr
      have hi : Ignores (isAt ',') (· ≠ ',') fun _ => True := Text.Scan.ignores_isAt (by decide)
      exact ⟨t.tidy_print (h.args t ht), Term.skips_print hi (h.args t ht) trivial⟩
    rw [he, Expr.splitCall, Text.cutAt?_singleton (hc l l' hl hl')]
    simp only [hargs, hn.trim_of_padded ⟨l, l', hl, hl', rfl⟩]

end Call

namespace Phrase

variable {e : Phrase} {t cs : List Char}

theorem tidy_of_writes (h : e.Printable) (ht : e.Writes t) : Tidy t := by
  obtain ⟨stages, hs, hj⟩ := ht
  apply hj.tidy
  rw [List.forall_mem_cons]
  exact ⟨e.base.tidy_print h.base, forall_mem_of_forall₂ ((List.forall₂_and_left _ _).2 ⟨h.calls, hs⟩)
    fun c s hc => Call.tidy_of_writes hc.1 hc.2⟩

theorem skips_of_writes {p : Text.Scan → List Char → Bool} {M : Char → Prop}
    {W : List Char → Prop} (hi : Ignores p M W) (hm : ∀ d ∈ ['|', ':', ','], M d)
    (h : e.Printable) (hw : ∀ w ∈ e.words, W w) (ht : e.Writes t) : Skips p t := by
  obtain ⟨stages, hs, hj⟩ := ht
  rw [words, List.forall_mem_cons] at hw
  have hbar : ∀ d ∈ ['|'], Text.isMark d = true ∧ M d :=
    List.forall_mem_singleton.2 ⟨by decide, hm '|' (by simp)⟩
  refine Text.Scan.skips_joined hj (fun s => hi.bridges_padded (by simp) hbar) ?_
  rw [List.forall_mem_cons]
  refine ⟨Term.skips_print hi h.base hw.1, ?_⟩
  have hc : ∀ c ∈ e.calls, c.Printable ∧ ∀ w ∈ c.name :: c.args.map Term.print, W w :=
    fun c hc => ⟨h.calls c hc, fun w hm => hw.2 w (List.mem_flatMap.2 ⟨c, hc, hm⟩)⟩
  refine forall_mem_of_forall₂ ((List.forall₂_and_left _ _).2 ⟨hc, hs⟩) fun c s hc => ?_
  exact Call.skips_of_writes hi (fun d hd => hm d (List.mem_cons_of_mem _ hd)) hc.1.1 hc.1.2 hc.2

theorem forall₂_splitTop (h : e.Printable) {stages : List (List Char)}
    (hs : List.Forall₂ Call.Writes e.calls stages)
    (hj : Joined (Padded ['|']) (e.base.print :: stages) t) (hp : Padded t cs) :
    List.Forall₂ Padded (e.base.print :: stages) (Text.splitTop '|' cs) := by
  have hi : Ignores (isAt '|') (· ≠ '|') fun _ => True := Text.Scan.ignores_isAt (by decide)
  obtain ⟨l, r, hl, hr, rfl⟩ := hp
  refine Text.Scan.forall₂_split (by decide) hj ?_ hl hr Text.Scan.outside_start
  rw [List.forall_mem_cons]
  refine ⟨Term.skips_print hi h.base trivial,
    forall_mem_of_forall₂ ((List.forall₂_and_left _ _).2 ⟨h.calls, hs⟩) fun c s hc => ?_⟩
  exact Call.skips_of_writes hi (by simp) hc.1 (fun _ _ => trivial) hc.2

theorem map_splitCall {calls : List Call} {stages qs : List (List Char)}
    (hs : List.Forall₂ Call.Writes calls stages) (hc : ∀ c ∈ calls, c.Printable)
    (hq : List.Forall₂ Padded stages qs) :
    qs.map Expr.splitCall = calls.map fun c => (c.name, c.args.map Term.print) := by
  induction hs generalizing qs with
  | nil =>
    cases hq
    rfl
  | cons hw _ ih =>
    rw [List.forall_mem_cons] at hc
    cases hq with
    | cons hp hq => rw [List.map_cons, List.map_cons, Call.splitCall_of_writes hc.1 hw hp, ih hc.2 hq]

theorem read_of_padded {u : Term} (h : u.Printable) (hp : Padded u.print cs) :
    Expr.read cs = u.expr := by
  have hf := forall₂_splitTop (e := ⟨u, []⟩) ⟨h, by simp⟩ .nil (.one _) hp
  cases hc : Text.splitTop '|' cs with
  | nil => rw [hc] at hf; cases hf
  | cons q qs =>
    rw [hc] at hf
    obtain ⟨hq, hn⟩ := List.forall₂_cons.1 hf
    cases hn
    rw [Expr.read_of_splitTop hc]
    exact Term.readTerm_of_padded h hq

theorem read_of_writes (h : e.Printable) (ht : e.Writes t) (hp : Padded t cs) :
    Expr.read cs = e.expr := by
  obtain ⟨stages, hs, hj⟩ := ht
  have hf := forall₂_splitTop h hs hj hp
  have hargs : ∀ c ∈ e.calls, (c.args.map Term.print).map Expr.read = c.args.map Term.expr := by
    intro c hc
    rw [List.map_map]
    refine List.map_congr_left fun u hu => ?_
    exact read_of_padded ((h.calls c hc).args u hu) (.refl _)
  cases hc : Text.splitTop '|' cs with
  | nil => rw [hc] at hf; cases hf
  | cons q qs =>
    rw [hc] at hf
    obtain ⟨hq, hqs⟩ := List.forall₂_cons.1 hf
    rw [Expr.read_of_splitTop hc, Term.readTerm_of_padded h.base hq, map_splitCall hs h.calls hqs,
      List.foldl_map, expr]
    exact List.foldl_ext _ _ _ fun b c hc => congrArg (Expr.filter b _) (hargs c hc)

/-- Parsing inverts writing: the term, the names of the filters and their arguments are read back
from every text that says them. -/
theorem parse_eq_expr (h : e.Printable) (ht : e.Writes t) {s : String} (hp : Padded t s.toList) :
    Expr.parse s = e.expr :=
  read_of_writes h ht hp

/-- Separators and the other quote in the texts, the least integer, and blanks at some marks. -/
theorem parse_eq_expr_separators :
    Expr.parse " user.first-name|replace :'a|b: c, d' ,\t\"it's\"| default: -9223372036854775808\n,nil | strip\n" =
      .filter (.filter (.filter (.path ["user", "first-name"])
        "replace" [.const (.text "a|b: c, d"), .const (.text "it's")])
          "default" [.const (.int Int64.minValue), .const .nil]) "strip" [] := by
  let replace : Call := ⟨"replace".toList, [.text '\'' "a|b: c, d".toList, .text '"' "it's".toList]⟩
  let default : Call := ⟨"default".toList, [.int Int64.minValue, .nil]⟩
  let strip : Call := ⟨"strip".toList, []⟩
  let e : Phrase := ⟨.path ["user".toList, "first-name".toList], [replace, default, strip]⟩
  have hr : replace.Writes _ := .args (padded_trim " :".toList)
    (.cons _ (padded_trim " ,\t".toList) (.one _))
  have hd : default.Writes _ := .args (padded_trim ": ".toList)
    (.cons _ (padded_trim "\n,".toList) (.one _))
  have ht : e.Writes _ := ⟨_, .cons hr (.cons hd (.cons (.name rfl) .nil)),
    .cons _ (padded_trim "|".toList) (.cons _ (padded_trim "| ".toList)
      (.cons _ (padded_trim " | ".toList) (.one _)))⟩
  exact parse_eq_expr (by decide) ht (padded_trim _)

end Phrase

end Spelling

end Stencil

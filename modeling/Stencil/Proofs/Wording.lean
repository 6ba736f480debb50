import Mathlib.Data.List.Infix
import Stencil.Condition.Parser
import Stencil.Proofs.Spelling

/-! Writing conditions, and reading them back. The expressions of a condition stand between operators
and keywords, each with blanks on both sides. Every search passes over the expressions, since their
texts are quoted and none of their names is a keyword. -/

namespace Stencil

open Text (Blanks Joined Keyword Padded Spaced Tidy isBlank isFence isKeywordAt isMark padded_trim trim)
open Text.Scan (Bridges Ignores Passes Skips ignores_keyword)

namespace Comparison

def isAt (op : Comparison) (_ : Text.Scan) (rest : List Char) : Bool := op.mark.isPrefixOf rest

theorem isMark_of_mem_mark (op : Comparison) : ∀ c ∈ op.mark, isMark c = true := by
  rw [← List.all_eq_true]
  cases op <;> decide

theorem exists_cons_mark (op : Comparison) : ∃ c cs, op.mark = c :: cs := by
  cases op <;> exact ⟨_, _, rfl⟩

theorem ignores_isAt (op : Comparison) : Ignores op.isAt (· ∉ op.mark) fun _ => True := by
  obtain ⟨c, cs, hm⟩ := op.exists_cons_mark
  have hc : c ∈ op.mark := by rw [hm]; exact List.mem_cons_self
  refine Text.Scan.ignores_of_head (op.isMark_of_mem_mark c hc) (not_not_intro hc) ?_
  intro st d rest hd
  simp [isAt, hm, List.isPrefixOf, Ne.symm hd]

theorem isPrefixOf_append {ms cs rest : List Char} {c : Char} (hm : ∀ d ∈ ms, isMark d = true)
    (hc : isBlank c = true) : ms.isPrefixOf (cs ++ c :: rest) = ms.isPrefixOf cs := by
  induction ms generalizing cs with
  | nil => simp
  | cons m ms ih =>
    rw [List.forall_mem_cons] at hm
    cases cs with
    | nil =>
      have hne : m ≠ c := by
        rintro rfl
        rw [Text.isBlank_of_isMark hm.1] at hc
        cases hc
      simp [List.isPrefixOf, hne]
    | cons d cs => simp [List.isPrefixOf, ih hm.2]

/-- Nowhere in an operator begins one that is searched for before it. -/
theorem passes_mark {op other : Comparison} (h : other ∈ all.takeWhile (· != op)) (c : Char)
    (rest : List Char) (hc : isBlank c = true) : Passes other.isAt op.mark (c :: rest) := by
  have hn : ∀ other ∈ all.takeWhile (· != op), ∀ bs ∈ op.mark.tails, bs ≠ [] →
      other.mark.isPrefixOf bs = false := by
    cases op <;> decide
  refine Text.Scan.passes_of_missed (fun d hd => ?_) fun bs hb hne st => ?_
  · exact Text.isFence_of_isMark (op.isMark_of_mem_mark d hd)
  · rw [isAt, isPrefixOf_append other.isMark_of_mem_mark hc]
    exact hn other h bs ((List.mem_tails _ _).2 hb) hne

theorem findTop?_append {op : Comparison} {as blanks : List Char} (h : Skips op.isAt as)
    (hb : Blanks blanks) (hne : blanks ≠ []) (rest : List Char) :
    Text.findTop? op.mark (as ++ blanks ++ (op.mark ++ rest)) =
      some (as ++ blanks, op.mark ++ rest) := by
  have hat : op.isAt .start (op.mark ++ rest) = true := by
    rw [isAt, List.isPrefixOf_iff_prefix]
    exact List.prefix_append _ _
  obtain ⟨c, cs, hm⟩ := op.exists_cons_mark
  have hf : isFence c = false :=
    Text.isFence_of_isMark (op.isMark_of_mem_mark c (by rw [hm]; exact List.mem_cons_self))
  show Text.Scan.find? op.isAt .start _ = _
  rw [hm] at hat ⊢
  exact op.ignores_isAt.find?_eq_some Text.blanks_nil hb hne h hf fun _ _ => hat

theorem findTop?_eq_none {op : Comparison} {cs : List Char} (h : Skips op.isAt cs) :
    Text.findTop? op.mark cs = none :=
  Text.Scan.find?_eq_none (h [] Text.stops_nil)

end Comparison

namespace Clause

theorem splitComparison?_append {op : Comparison} {as bs l r : List Char}
    (ha : ∀ op : Comparison, Skips op.isAt as) (hb : ∀ op : Comparison, Skips op.isAt bs)
    (hl : Blanks l) (hr : Blanks r) (hne : l ≠ []) (hne' : r ≠ []) :
    splitComparison? (as ++ (l ++ op.mark ++ r) ++ bs) = some (op, as ++ l, r ++ bs) := by
  rw [splitComparison?, List.findSome?_eq_some_iff]
  refine ⟨Comparison.all.takeWhile (· != op), op, (Comparison.all.dropWhile (· != op)).drop 1,
    by cases op <;> rfl, ?_, fun other ho => ?_⟩
  · have he : as ++ (l ++ op.mark ++ r) ++ bs = as ++ l ++ (op.mark ++ (r ++ bs)) := by simp
    rw [he, Comparison.findTop?_append (ha op) hl hne, Option.map_some]
    simp only [List.drop_left]
  · have hs := other.ignores_isAt.bridges_spaced (Comparison.passes_mark ho)
      ⟨l, r, hl, hr, hne, hne', rfl⟩ as bs (ha other) (hb other)
    rw [Comparison.findTop?_eq_none hs, Option.map_none]

theorem splitComparison?_eq_none {cs : List Char} (h : ∀ op : Comparison, Skips op.isAt cs) :
    splitComparison? cs = none := by
  rw [splitComparison?, List.findSome?_eq_none_iff]
  intro op _
  rw [Comparison.findTop?_eq_none (h op), Option.map_none]

end Clause

theorem Condition.read_eq (cs : List Char) :
    Condition.read cs = ⟨((Text.splitKeyword "or".toList (trim cs)).map trim).map fun alternative =>
      ((Text.splitKeyword "and".toList alternative).map trim).map Clause.read⟩ := by
  simp only [Condition.read, List.map_map, Function.comp_def]

namespace Spelling

def keywords : List (List Char) := ["or".toList, "and".toList, "contains".toList]

theorem keyword_of_mem {word : List Char} (h : word ∈ keywords) : Keyword word := by
  have hk : ∀ w ∈ keywords, w ≠ [] ∧ Text.Plain w := by decide
  exact ⟨(hk word h).1, (hk word h).2⟩

def Term.name? : Term → Option (List Char)
  | path [segment] => some segment
  | _ => none

/-- A term is written like a keyword only if it is a variable of that name. -/
theorem Term.print_notMem_keywords {t : Term} (h : t.Printable)
    (hn : ∀ w ∈ t.name?, w ∉ keywords) : t.print ∉ keywords := by
  intro hk
  cases t with
  | nil => exact absurd hk (by decide)
  | bool b => cases b <;> exact absurd hk (by decide)
  | int n =>
    have hr : ∀ w ∈ keywords, Decimal.Numeral.read? w = none := by decide +kernel
    have hi := hr _ hk
    rw [print, Decimal.Numeral.read?_intDigits (Decimal.fitsInt64_toInt n)] at hi
    cases hi
  | text q s =>
    have hp : Text.isPlain q = true := (keyword_of_mem hk).plain q List.mem_cons_self
    have hq := Text.isFence_of_isQuote h.1
    rw [Text.isFence_of_isPlain hp] at hq
    cases hq
  | path segments =>
    have hd : ∀ w ∈ keywords, '.' ∉ w := by decide
    rw [print] at hk
    rcases segments with _ | ⟨segment, _ | ⟨segment', segments⟩⟩
    · exact absurd hk (by decide)
    · rw [List.intercalate_singleton] at hk
      exact hn segment rfl hk
    · rw [List.intercalate_cons_cons] at hk
      exact hd _ hk (by simp)

namespace Phrase

variable {e : Phrase} {t : List Char}

def terms (e : Phrase) : List Term := e.base :: e.calls.flatMap Call.args

/-- the names of an expression: those of variables and of filters -/
def names (e : Phrase) : List (List Char) :=
  e.terms.filterMap Term.name? ++ e.calls.map Call.name

/-- Can the expression be a part of a condition? None of its names is a keyword. -/
structure Operand (e : Phrase) : Prop extends Printable e where
  free : ∀ w ∈ e.names, w ∉ keywords

instance (e : Phrase) : Decidable e.Operand :=
  decidable_of_iff (e.Printable ∧ ∀ w ∈ e.names, w ∉ keywords)
    ⟨fun h => ⟨h.1, h.2⟩, fun h => ⟨h.toPrintable, h.free⟩⟩

theorem printable_of_mem_terms (h : e.Printable) : ∀ t ∈ e.terms, t.Printable := by
  intro t ht
  rcases List.mem_cons.1 ht with rfl | ht
  · exact h.base
  · obtain ⟨c, hc, ht⟩ := List.mem_flatMap.1 ht
    exact (h.calls c hc).args t ht

theorem Operand.notMem_keywords (h : e.Operand) : ∀ w ∈ e.words, w ∉ keywords := by
  have ht : ∀ t ∈ e.terms, t.print ∉ keywords := fun t ht => by
    refine Term.print_notMem_keywords (printable_of_mem_terms h.toPrintable t ht) fun w hw => ?_
    exact h.free w (List.mem_append_left _ (List.mem_filterMap.2 ⟨t, ht, hw⟩))
  have hc : ∀ c ∈ e.calls, c.name ∉ keywords := fun c hc =>
    h.free _ (List.mem_append_right _ (List.mem_map_of_mem hc))
  intro w hw
  rcases List.mem_cons.1 hw with rfl | hw
  · exact ht _ List.mem_cons_self
  · obtain ⟨c, hcm, hw⟩ := List.mem_flatMap.1 hw
    rcases List.mem_cons.1 hw with rfl | hw
    · exact hc c hcm
    · obtain ⟨t, htm, rfl⟩ := List.mem_map.1 hw
      exact ht t (List.mem_cons_of_mem _ (List.mem_flatMap.2 ⟨c, hcm, htm⟩))

theorem Operand.skips_keyword (h : e.Operand) (ht : e.Writes t) {word : List Char}
    (hw : word ∈ keywords) : Skips (isKeywordAt word) t := by
  refine skips_of_writes (ignores_keyword (keyword_of_mem hw)) (fun _ _ => trivial)
    h.toPrintable ?_ ht
  rintro w hm rfl
  exact h.notMem_keywords w hm hw

theorem Operand.skips_operator (h : e.Operand) (ht : e.Writes t) (op : Comparison) :
    Skips op.isAt t := by
  have hm : ∀ d ∈ ['|', ':', ','], d ∉ op.mark := by
    cases op <;> simp [Comparison.mark, Comparison.symbol]
  exact skips_of_writes op.ignores_isAt hm h.toPrintable (fun _ _ => trivial) ht

end Phrase

/-- A simple condition as it is written. -/
inductive Simple where
  | contains (left right : Phrase)
  | compare (op : Comparison) (left right : Phrase)
  | present (e : Phrase)

namespace Simple

def clause : Simple → Clause
  | contains l r => .contains l.expr r.expr
  | compare op l r => .compare op l.expr r.expr
  | present e => .present e.expr

def Printable : Simple → Prop
  | contains l r | compare _ l r => l.Operand ∧ r.Operand
  | present e => e.Operand

instance : (c : Simple) → Decidable c.Printable
  | contains .. | compare .. => inferInstanceAs (Decidable (_ ∧ _))
  | present e => inferInstanceAs (Decidable e.Operand)

/-- The texts of a simple condition: the operator stands between blanks. -/
inductive Writes : Simple → List Char → Prop
  | contains {l r : Phrase} {a s b : List Char} (left : l.Writes a)
      (operator : Spaced "contains".toList s) (right : r.Writes b) :
      Writes (contains l r) (a ++ s ++ b)
  | compare {op : Comparison} {l r : Phrase} {a s b : List Char} (left : l.Writes a)
      (operator : Spaced op.mark s) (right : r.Writes b) : Writes (compare op l r) (a ++ s ++ b)
  | present {e : Phrase} {a : List Char} (whole : e.Writes a) : Writes (present e) a

def WritesAll (clauses : List Simple) (t : List Char) : Prop :=
  ∃ ts, List.Forall₂ Writes clauses ts ∧ Joined (Spaced "and".toList) ts t

variable {c : Simple} {clauses : List Simple} {t : List Char}

theorem tidy_of_writes (h : c.Printable) (ht : c.Writes t) : Tidy t := by
  cases ht with
  | contains hl _ hr | compare hl _ hr =>
    have hl := Phrase.tidy_of_writes h.1.toPrintable hl
    exact hl.append (Phrase.tidy_of_writes h.2.toPrintable hr) _
  | present he => exact Phrase.tidy_of_writes h.toPrintable he

theorem skips_compare {op : Comparison} {l r : Phrase} {a s b : List Char}
    (h : (compare op l r).Printable) (hl : l.Writes a) (hs : Spaced op.mark s) (hr : r.Writes b)
    {word : List Char} (hw : word ∈ keywords) : Skips (isKeywordAt word) (a ++ s ++ b) := by
  have hm : ∀ d ∈ op.mark, isMark d = true ∧ True :=
    fun d hd => ⟨op.isMark_of_mem_mark d hd, trivial⟩
  have hb := (ignores_keyword (keyword_of_mem hw)).bridges_padded (by cases op <;> decide) hm hs.padded
  exact hb _ _ (h.1.skips_keyword hl hw) (h.2.skips_keyword hr hw)

theorem skips_of_writes (h : c.Printable) (ht : c.Writes t) {word : List Char}
    (hw : word ∈ keywords) (hne : word ≠ "contains".toList) : Skips (isKeywordAt word) t := by
  cases ht with
  | contains hl hs hr =>
    have hb := (ignores_keyword (keyword_of_mem hw)).bridges_keyword (keyword_of_mem (by decide))
      hne.symm hs
    exact hb _ _ (h.1.skips_keyword hl hw) (h.2.skips_keyword hr hw)
  | compare hl hs hr => exact skips_compare h hl hs hr hw
  | present he => exact h.skips_keyword he hw

theorem read_of_writes (h : c.Printable) (ht : c.Writes t) : Clause.read t = c.clause := by
  have hne : ¬ t.isEmpty = true := by
    rw [List.isEmpty_iff]
    exact (tidy_of_writes h ht).ne_nil
  have hk : "contains".toList ∈ keywords := by decide
  have hnone (ht : Skips (isKeywordAt "contains".toList) t) :
      Text.findKeyword? "contains".toList t = none := Text.Scan.find?_eq_none (ht [] Text.stops_nil)
  rw [Clause.read, if_neg hne]
  cases ht with
  | @contains _ _ a s b hl hs hr =>
    obtain ⟨l, r, hlb, hrb, hln, hrn, rfl⟩ := hs
    have hfound := Text.findKeyword?_append (keyword_of_mem hk) (h.1.skips_keyword hl hk)
      Text.blanks_nil hlb hrb hln hrn b
    have he : a ++ (l ++ "contains".toList ++ r) ++ b =
        [] ++ a ++ l ++ ("contains".toList ++ (r ++ b)) := by simp
    have hd : ("contains".toList ++ (r ++ b)).drop "contains".length = r ++ b := rfl
    have hl' := Phrase.read_of_writes h.1.toPrintable hl (Text.padded_append hlb a)
    have hr' := Phrase.read_of_writes h.2.toPrintable hr (Text.padded_prepend hrb b)
    rw [he, hfound]
    simp only [hd, List.nil_append, hl', hr', clause]
  | @compare op _ _ a s b hl hs hr =>
    rw [hnone (skips_compare h hl hs hr hk)]
    obtain ⟨l, r, hlb, hrb, hln, hrn, rfl⟩ := hs
    have hl' := Phrase.read_of_writes h.1.toPrintable hl (Text.padded_append hlb a)
    have hr' := Phrase.read_of_writes h.2.toPrintable hr (Text.padded_prepend hrb b)
    rw [Clause.splitComparison?_append (h.1.skips_operator hl) (h.2.skips_operator hr) hlb hrb
      hln hrn]
    simp only [hl', hr', clause]
  | present he =>
    rw [hnone (h.skips_keyword he hk), Clause.splitComparison?_eq_none (h.skips_operator he)]
    simp only [Phrase.read_of_writes h.toPrintable he (.refl _), clause]

theorem tidy_of_writesAll (h : ∀ c ∈ clauses, c.Printable) (ht : WritesAll clauses t) : Tidy t := by
  obtain ⟨ts, hs, hj⟩ := ht
  apply hj.tidy
  refine forall_mem_of_forall₂ ((List.forall₂_and_left _ _).2 ⟨h, hs⟩) fun c t hc => ?_
  exact tidy_of_writes hc.1 hc.2

theorem skips_of_writesAll (h : ∀ c ∈ clauses, c.Printable) (ht : WritesAll clauses t) :
    Skips (isKeywordAt "or".toList) t := by
  obtain ⟨ts, hs, hj⟩ := ht
  have hor : "or".toList ∈ keywords := by decide
  have hi := ignores_keyword (keyword_of_mem hor)
  have hand (s : List Char) : Spaced "and".toList s → Bridges (isKeywordAt "or".toList) s :=
    hi.bridges_keyword (keyword_of_mem (by decide)) (by decide)
  refine Text.Scan.skips_joined hj hand ?_
  refine forall_mem_of_forall₂ ((List.forall₂_and_left _ _).2 ⟨h, hs⟩) fun c t hc => ?_
  exact skips_of_writes hc.1 hc.2 (by decide) (by decide)

theorem map_read_of_writesAll (h : ∀ c ∈ clauses, c.Printable) (ht : WritesAll clauses t) :
    ((Text.splitKeyword "and".toList t).map trim).map Clause.read = clauses.map clause := by
  obtain ⟨ts, hs, hj⟩ := ht
  have hf := (List.forall₂_and_left _ _).2 ⟨h, hs⟩
  have hm := Text.map_trim_splitKeyword (keyword_of_mem (by decide)) hj <|
    forall_mem_of_forall₂ hf fun c t hc =>
      ⟨tidy_of_writes hc.1 hc.2, skips_of_writes hc.1 hc.2 (by decide) (by decide)⟩
  rw [hm]
  exact map_eq_map_of_forall₂ hf fun c t hc => read_of_writes hc.1 hc.2

end Simple

/-- A condition as it is written: alternatives, each a chain of simple conditions. -/
structure Wording where
  alternatives : List (List Simple)

namespace Wording

def condition (w : Wording) : Condition := ⟨w.alternatives.map (·.map Simple.clause)⟩

def Printable (w : Wording) : Prop := ∀ clauses ∈ w.alternatives, ∀ c ∈ clauses, c.Printable

instance (w : Wording) : Decidable w.Printable :=
  inferInstanceAs (Decidable (∀ clauses ∈ w.alternatives, ∀ c ∈ clauses, _))

/-- The texts of a condition. There is at least one alternative, and a condition in each. -/
def Writes (w : Wording) (t : List Char) : Prop :=
  ∃ ts, List.Forall₂ Simple.WritesAll w.alternatives ts ∧ Joined (Spaced "or".toList) ts t

/-- Parsing inverts writing: every text of a condition, with any blanks around it, is read as the
condition that it says. -/
theorem parse_eq_condition {w : Wording} {t : List Char} (h : w.Printable) (ht : w.Writes t)
    {s : String} (hp : Padded t s.toList) : Condition.parse s = w.condition := by
  obtain ⟨ts, hs, hj⟩ := ht
  have hf := (List.forall₂_and_left _ _).2 ⟨h, hs⟩
  have htidy : ∀ t ∈ ts, Tidy t :=
    forall_mem_of_forall₂ hf fun _ t hc => Simple.tidy_of_writesAll hc.1 hc.2
  have hm := Text.map_trim_splitKeyword (keyword_of_mem (by decide)) hj <|
    forall_mem_of_forall₂ hf fun _ t hc =>
      ⟨Simple.tidy_of_writesAll hc.1 hc.2, Simple.skips_of_writesAll hc.1 hc.2⟩
  rw [Condition.parse, Condition.read_eq, (hj.tidy htidy).trim_of_padded hp, hm, condition]
  exact congrArg _ (map_eq_map_of_forall₂ hf fun _ t hc => Simple.map_read_of_writesAll hc.1 hc.2)

/-- All three forms, with keywords and operators in texts and in a path. -/
theorem parse_eq_condition_chains :
    Condition.parse "tags contains 'a or b' and\n x|size >= 2 or '== and' != y.or\tor flag " =
      ⟨[[.contains (.path ["tags"]) (.const (.text "a or b")),
          .compare .ge (.filter (.path ["x"]) "size" []) (.const (.int 2))],
        [.compare .ne (.const (.text "== and")) (.path ["y", "or"])], [.present (.path ["flag"])]]⟩ := by
  have spaced (w : String) : Spaced w.toList (" ".toList ++ w.toList ++ " ".toList) :=
    ⟨_, _, by decide, by decide, by decide, by decide, rfl⟩
  have term (t : Term) : (⟨t, []⟩ : Phrase).Writes t.print := ⟨[], .nil, .one _⟩
  let size : Phrase := ⟨.path ["x".toList], [⟨"size".toList, []⟩]⟩
  let tagged : Simple := .contains ⟨.path ["tags".toList], []⟩ ⟨.text '\'' "a or b".toList, []⟩
  let large : Simple := .compare .ge size ⟨.int 2, []⟩
  let differs : Simple :=
    .compare .ne ⟨.text '\'' "== and".toList, []⟩ ⟨.path ["y".toList, "or".toList], []⟩
  let flag : Simple := .present ⟨.path ["flag".toList], []⟩
  have htagged : tagged.Writes _ := .contains (term _) (spaced "contains") (term _)
  have hsize : size.Writes _ :=
    ⟨_, .cons (.name rfl) .nil, .cons _ (padded_trim "|".toList) (.one _)⟩
  have hlarge : large.Writes _ := .compare hsize (spaced ">=") (term _)
  have hdiffers : differs.Writes _ := .compare (term _) (spaced "!=") (term _)
  have hchain : Simple.WritesAll [tagged, large] _ := ⟨_, .cons htagged (.cons hlarge .nil), .cons _
    ⟨" ".toList, "\n ".toList, by decide, by decide, by decide, by decide, rfl⟩ (.one _)⟩
  have ht : (⟨[[tagged, large], [differs], [flag]]⟩ : Wording).Writes _ := ⟨_,
    .cons hchain (.cons ⟨_, .cons hdiffers .nil, .one _⟩
      (.cons ⟨_, .cons (.present (term _)) .nil, .one _⟩ .nil)),
    .cons _ (spaced "or") (.cons _
      ⟨"\t".toList, " ".toList, by decide, by decide, by decide, by decide, rfl⟩ (.one _))⟩
  exact parse_eq_condition (by decide) ht (padded_trim _)

end Wording

end Spelling

end Stencil

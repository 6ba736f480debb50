import Mathlib.Data.List.DropRight
import Mathlib.Data.List.TakeWhile
import Stencil.Condition.Eval
import Stencil.Condition.Parser
import Stencil.Proofs.Marked

/-! What a condition text means. A text is read as a tree: it is cut at every `or`, else at every
`and`, and each piece is trimmed and read in the same way. The tree is never deeper than an or of
ands, and all its parts are told apart as one scan of the whole text marks them. -/

namespace Stencil

open Calendar (Instant)
open Text (Keyword Marked findKeyword? isBlank keyword operator splitKeyword trim)
open Text.Marked (Alone Lacks text)

namespace Text

theorem trim_trim (cs : List Char) : trim (trim cs) = trim cs := by
  have hs : trimStart (trim cs) = trim cs := by
    obtain ⟨rest, hr⟩ : trim cs <+: trimStart cs := List.rdropWhile_prefix isBlank _
    have hh := List.head?_dropWhile_not isBlank cs
    rw [← trimStart, ← hr] at hh
    cases ht : trim cs with
    | nil => rfl
    | cons c t =>
      rw [ht] at hh
      exact List.dropWhile_cons_of_neg (by simpa using hh)
  rw [trim, hs]
  exact List.rdropWhile_idempotent isBlank _

theorem length_le_of_mem_splitKeyword {word cs p : List Char} (h : p ∈ splitKeyword word cs) :
    p.length ≤ cs.length := by
  fun_induction splitKeyword word cs with
  | case1 cs => simp_all
  | case2 cs before rest hf ih =>
    rcases List.mem_cons.1 h with rfl | h
    · have hl := congrArg List.length (Scan.append_of_find? hf)
      rw [List.length_append] at hl
      omega
    · have hl := length_after_findKeyword? hf
      have := ih h
      omega

theorem length_lt_of_mem_splitKeyword {word cs p : List Char}
    (hl : 1 < (splitKeyword word cs).length) (h : p ∈ splitKeyword word cs) :
    p.length < cs.length := by
  rw [splitKeyword] at hl h
  split at hl
  · simp at hl
  · rename_i before rest hf
    have hr : rest ≠ [] := by
      rw [findKeyword?, Scan.find?_eq] at hf
      obtain ⟨i, hi, he⟩ := Option.map_eq_some_iff.1 hf
      cases he
      have := List.mem_range.1 (List.mem_of_find?_eq_some hi)
      rw [ne_eq, List.drop_eq_nil_iff]
      omega
    have hs := congrArg List.length (Scan.append_of_find? hf)
    have hp := List.length_pos_iff.2 hr
    rw [List.length_append] at hs
    rw [hf] at h
    rcases List.mem_cons.1 h with rfl | h
    · omega
    · exact (length_le_of_mem_splitKeyword h).trans_lt (length_after_findKeyword? hf)

namespace Marked

theorem length_between {α : Type} (n : Nat) (l : List α) (k : Nat) (is : List Nat) :
    (between n l k is).length = is.length + 1 := by
  induction is generalizing k with
  | nil => rfl
  | cons i is ih => rw [between, List.length_cons, ih, List.length_cons]

theorem length_cut (word : List Char) (m : Marked) :
    (m.cut word).length = (m.places (keyword word)).length + 1 :=
  length_between _ _ _ _

end Marked

end Text

/-- A condition as a tree of ors and ands over clauses, nested at will. -/
inductive Junction where
  | clause (c : Clause)
  | any (parts : List Junction)
  | all (parts : List Junction)

namespace Junction

mutual

def holds (now : Instant) (ctx : Context) : Junction → Bool
  | clause c => c.holds now ctx
  | any parts => holdsAny now ctx parts
  | all parts => holdsAll now ctx parts

def holdsAny (now : Instant) (ctx : Context) : List Junction → Bool
  | [] => false
  | j :: js => j.holds now ctx || holdsAny now ctx js

def holdsAll (now : Instant) (ctx : Context) : List Junction → Bool
  | [] => true
  | j :: js => j.holds now ctx && holdsAll now ctx js

end

/-- Reads a text: an or if it is cut at some `or`, else an and if it is cut at some `and`, else a
clause. Each piece is a text that is trimmed, scanned anew and read in the same way. -/
def read (cs : List Char) : Junction :=
  let alternatives := splitKeyword "or".toList (trim cs)
  let clauses := splitKeyword "and".toList (trim cs)
  if _ho : 1 < alternatives.length then any (alternatives.attach.map fun p => read p.1)
  else if _ha : 1 < clauses.length then all (clauses.attach.map fun p => read p.1)
  else clause (.read (trim cs))
termination_by cs.length
decreasing_by
  · exact (Text.length_lt_of_mem_splitKeyword _ho p.2).trans_le (Text.length_trim_le cs)
  · exact (Text.length_lt_of_mem_splitKeyword _ha p.2).trans_le (Text.length_trim_le cs)

def parse (s : String) : Junction := read s.toList

/-- a junction of several parts, or the part itself if it is the only one -/
def join (junction : List Junction → Junction) : List Junction → Junction
  | [j] => j
  | js => junction js

/-- The tree of a condition. What has one part only is that part. -/
def ofCondition (c : Condition) : Junction :=
  join any (c.alternatives.map fun clauses => join all (clauses.map clause))

/-! Neither an or stands below an or or an and, nor an and below an and. -/

def IsClause : Junction → Prop
  | clause _ => True
  | _ => False

def IsChain : Junction → Prop
  | all parts => ∀ j ∈ parts, j.IsClause
  | j => j.IsClause

def IsOrOfAnds : Junction → Prop
  | any parts => ∀ j ∈ parts, j.IsChain
  | j => j.IsChain

theorem read_eq (cs : List Char) :
    read cs =
      if 1 < (splitKeyword "or".toList (trim cs)).length then
        any ((splitKeyword "or".toList (trim cs)).map read)
      else if 1 < (splitKeyword "and".toList (trim cs)).length then
        all ((splitKeyword "and".toList (trim cs)).map read)
      else clause (.read (trim cs)) := by
  rw [read]
  simp only [List.map_attach_eq_pmap, List.pmap_eq_map, dite_eq_ite]

theorem join_of_length {f : List Junction → Junction} {js : List Junction} (h : 1 < js.length) :
    join f js = f js := by
  match js, h with
  | j :: k :: js, _ => rfl

theorem holdsAny_eq (now : Instant) (ctx : Context) (js : List Junction) :
    holdsAny now ctx js = js.any (·.holds now ctx) := by
  induction js with
  | nil => rfl
  | cons j js ih => rw [holdsAny, ih, List.any_cons]

theorem holdsAll_eq (now : Instant) (ctx : Context) (js : List Junction) :
    holdsAll now ctx js = js.all (·.holds now ctx) := by
  induction js with
  | nil => rfl
  | cons j js ih => rw [holdsAll, ih, List.all_cons]

theorem holds_join_any (now : Instant) (ctx : Context) (js : List Junction) :
    (join any js).holds now ctx = js.any (·.holds now ctx) := by
  match js with
  | [] => rfl
  | [j] => simp [join]
  | j :: k :: js => rw [join_of_length (by simp), holds, holdsAny_eq]

theorem holds_join_all (now : Instant) (ctx : Context) (js : List Junction) :
    (join all js).holds now ctx = js.all (·.holds now ctx) := by
  match js with
  | [] => rfl
  | [j] => simp [join]
  | j :: k :: js => rw [join_of_length (by simp), holds, holdsAll_eq]

theorem holds_ofCondition (now : Instant) (ctx : Context) (c : Condition) :
    (ofCondition c).holds now ctx = c.holds now ctx := by
  simp only [ofCondition, holds_join_any, List.any_map, Function.comp_def, holds_join_all,
    List.all_map, holds, Condition.holds]

theorem isChain_join {js : List Junction} (h : ∀ j ∈ js, j.IsClause) : (join all js).IsChain := by
  match js with
  | [] => exact h
  | [j] =>
    have hj := List.forall_mem_singleton.1 h
    cases j with
    | clause c => trivial
    | any | all => cases hj
  | j :: k :: js =>
    rw [join_of_length (by simp)]
    exact h

theorem isOrOfAnds_join {js : List Junction} (h : ∀ j ∈ js, j.IsChain) :
    (join any js).IsOrOfAnds := by
  match js with
  | [] => exact h
  | [j] =>
    have hj := List.forall_mem_singleton.1 h
    cases j with
    | clause | all => exact hj
    | any => cases hj
  | j :: k :: js =>
    rw [join_of_length (by simp)]
    exact h

theorem isOrOfAnds_ofCondition (c : Condition) : (ofCondition c).IsOrOfAnds := by
  refine isOrOfAnds_join fun j hj => ?_
  obtain ⟨clauses, -, rfl⟩ := List.mem_map.1 hj
  refine isChain_join fun k hk => ?_
  obtain ⟨c, -, rfl⟩ := List.mem_map.1 hk
  trivial

/-! Reading pieces: what is cut at a keyword has none left, and neither have its parts. -/

variable {m : Marked} {word : List Char}

theorem keyword_or : Keyword "or".toList := ⟨by decide, by decide⟩

theorem keyword_and : Keyword "and".toList := ⟨by decide, by decide⟩

theorem splitKeyword_trim (hk : Keyword word) (h : m.Alone) :
    splitKeyword word (trim m.text) = (m.trim.cut word).map text := by
  rw [← Text.Marked.text_trim, Text.Marked.splitKeyword_text hk h.trim]

theorem splitKeyword_trim_of_lacks (h : m.Alone) (hn : Lacks (keyword word) m.trim) :
    splitKeyword word (trim m.text) = [trim m.text] := by
  rw [← Text.Marked.text_trim, Text.Marked.splitKeyword_of_lacks h.trim hn]

theorem lacks_of_length (hk : Keyword word) (h : m.Alone)
    (hl : ¬ 1 < (splitKeyword word (trim m.text)).length) : Lacks (keyword word) m.trim := by
  rw [splitKeyword_trim hk h, List.length_map, Text.Marked.length_cut] at hl
  exact List.length_eq_zero_iff.1 (by omega)

theorem not_length_of_lacks (h : m.Alone) (hn : Lacks (keyword word) m.trim) :
    ¬ 1 < (splitKeyword word (trim m.text)).length := by
  rw [splitKeyword_trim_of_lacks h hn]
  exact Nat.lt_irrefl 1

theorem read_of_lacks (h : m.Alone) (ho : Lacks (keyword "or".toList) m)
    (ha : Lacks (keyword "and".toList) m) : read m.text = clause (.read (trim m.text)) := by
  rw [read_eq, if_neg (not_length_of_lacks h (ho.of_infix m.trim_infix)),
    if_neg (not_length_of_lacks h (ha.of_infix m.trim_infix))]

theorem read_of_lacks_or (h : m.Alone) (ho : Lacks (keyword "or".toList) m.trim) :
    read m.text = join all ((splitKeyword "and".toList (trim m.text)).map fun c =>
      clause (.read (trim c))) := by
  rw [read_eq, if_neg (not_length_of_lacks h ho)]
  by_cases hl : 1 < (splitKeyword "and".toList (trim m.text)).length
  · rw [if_pos hl, join_of_length (by rwa [List.length_map]), splitKeyword_trim keyword_and h]
    refine congrArg all (List.map_congr_left fun c hc => ?_)
    obtain ⟨t, ht, rfl⟩ := List.mem_map.1 hc
    exact read_of_lacks (Text.Marked.alone_of_mem_cut keyword_and h.trim t ht)
      (ho.of_infix (Text.Marked.infix_of_mem_cut keyword_and _ t ht))
      (Text.Marked.lacks_of_mem_cut keyword_and _ t ht)
  · rw [if_neg hl, splitKeyword_trim_of_lacks h (lacks_of_length keyword_and h hl), List.map_singleton,
      Text.trim_trim, join]

theorem read_text (h : m.Alone) : read m.text = ofCondition (Condition.read m.text) := by
  have hc : ofCondition (Condition.read m.text) =
      join any ((splitKeyword "or".toList (trim m.text)).map fun p =>
        join all ((splitKeyword "and".toList (trim p)).map fun c => clause (.read (trim c)))) := by
    simp only [ofCondition, Condition.read, List.map_map, Function.comp_def]
  rw [hc]
  by_cases hl : 1 < (splitKeyword "or".toList (trim m.text)).length
  · rw [read_eq, if_pos hl, join_of_length (by rwa [List.length_map]), splitKeyword_trim keyword_or h]
    refine congrArg any (List.map_congr_left fun p hp => ?_)
    obtain ⟨s, hs, rfl⟩ := List.mem_map.1 hp
    have hn := Text.Marked.lacks_of_mem_cut keyword_or _ s hs
    exact read_of_lacks_or (Text.Marked.alone_of_mem_cut keyword_or h.trim s hs)
      (hn.of_infix s.trim_infix)
  · have hn := lacks_of_length keyword_or h hl
    rw [splitKeyword_trim_of_lacks h hn, List.map_singleton, join, Text.trim_trim,
      read_of_lacks_or h hn]

/-- Reading piece by piece makes the tree of the condition, however the text is nested. -/
theorem read_eq_ofCondition (cs : List Char) : read cs = ofCondition (Condition.read cs) := by
  have h := read_text (Text.Marked.alone_mark cs)
  rwa [Text.Marked.text_mark] at h

end Junction

/-- The clause of a marked text: membership at its first place, else the first comparison in the
order of search that stands in it, at its first place, else a value. -/
def Clause.ofMarked (m : Marked) : Clause :=
  match (m.places (keyword "contains".toList)).head? with
  | some i => contains (.read (text (m.take i))) (.read (text (m.drop (i + "contains".length))))
  | none =>
    match Comparison.all.findSome? fun op =>
      (m.places (operator op.mark)).head?.map fun i => (op, i) with
    | some (op, i) =>
      compare op (.read (text (m.take i))) (.read (text (m.drop (i + op.mark.length))))
    | none => present (.read m.text)

namespace Clause

variable {m : Marked}

theorem splitComparison?_text (h : m.Alone) :
    splitComparison? m.text =
      (Comparison.all.findSome? fun op =>
        (m.places (operator op.mark)).head?.map fun i => (op, i)).map
      fun (op, i) => (op, text (m.take i), text (m.drop (i + op.mark.length))) := by
  rw [splitComparison?, List.map_findSome?]
  refine congrArg (List.findSome? · _) (funext fun op => ?_)
  rw [h.findTop?_eq, Option.map_map, Function.comp_apply, Option.map_map]
  simp only [Function.comp_def, Text.Marked.text_drop, List.drop_drop]

theorem read_text (h : m.Alone) (hn : m ≠ []) : read m.text = ofMarked m := by
  have he : ¬ m.text.isEmpty = true := by
    rw [List.isEmpty_iff, Text.Marked.text_eq_nil]
    exact hn
  rw [read, if_neg he, ofMarked, h.findKeyword?_eq]
  cases (m.places (keyword "contains".toList)).head? with
  | some i =>
    rw [Option.map_some]
    simp only [Text.Marked.text_drop, List.drop_drop]
  | none =>
    rw [Option.map_none, splitComparison?_text h]
    cases Comparison.all.findSome? fun op =>
      (m.places (operator op.mark)).head?.map fun i => (op, i) <;> rfl

theorem holds_read_trim (now : Instant) (ctx : Context) (h : m.Alone) :
    (read (trim m.text)).holds now ctx = true ↔
      m.trim ≠ [] ∧ (ofMarked m.trim).holds now ctx = true := by
  rw [← Text.Marked.text_trim]
  by_cases hn : m.trim = []
  · have he : read (text m.trim) = empty := by rw [hn]; rfl
    rw [he]
    simp [holds, hn]
  · rw [read_text h.trim hn]
    simp [hn]

end Clause

namespace Condition

variable {m : Marked}

theorem holds_read_text (now : Instant) (ctx : Context) (h : m.Alone) :
    (read m.text).holds now ctx = true ↔
      ∃ p ∈ m.trim.cut "or".toList, ∀ t ∈ p.trim.cut "and".toList,
        t.trim ≠ [] ∧ (Clause.ofMarked t.trim).holds now ctx = true := by
  rw [read, Junction.splitKeyword_trim Junction.keyword_or h, List.map_map, holds, List.any_map,
    List.any_eq_true]
  refine exists_congr fun p => and_congr_right fun hp => ?_
  have ha := Text.Marked.alone_of_mem_cut Junction.keyword_or h.trim p hp
  rw [Function.comp_apply, Function.comp_apply, Junction.splitKeyword_trim Junction.keyword_and ha,
    List.map_map, List.all_map, List.all_eq_true]
  refine forall₂_congr fun t ht => ?_
  have hta := Text.Marked.alone_of_mem_cut Junction.keyword_and ha.trim t ht
  rw [Function.comp_apply, Function.comp_apply, Clause.holds_read_trim now ctx hta]

/-- Every text says an or of ands. The tree that it is read as is one, and it holds if in some piece
between the `or`s of the trimmed text all pieces between the `and`s are clauses that hold, where one
scan of the trimmed text says what is at the top level. -/
theorem parse_eq_or_of_ands (s : String) :
    Junction.parse s = .ofCondition (parse s) ∧ (Junction.parse s).IsOrOfAnds ∧
      ∀ (now : Instant) (ctx : Context),
        (parse s).holds now ctx = (Junction.parse s).holds now ctx ∧
        ((parse s).holds now ctx = true ↔
          ∃ p ∈ (Text.Scan.start.mark (trim s.toList)).cut "or".toList,
            ∀ t ∈ p.trim.cut "and".toList,
              t.trim ≠ [] ∧ (Clause.ofMarked t.trim).holds now ctx = true) := by
  have he : Junction.parse s = .ofCondition (parse s) := Junction.read_eq_ofCondition s.toList
  refine ⟨he, ?_, fun now ctx => ⟨?_, ?_⟩⟩
  · rw [he]
    exact Junction.isOrOfAnds_ofCondition _
  · rw [he, Junction.holds_ofCondition]
  · have h := holds_read_text now ctx (Text.Marked.alone_mark s.toList)
    rwa [Text.Marked.text_mark, Text.Marked.trim_mark] at h

end Condition

end Stencil

import Stencil.Proofs.Standing

/-! What stands between the marks of a block: a body with blanks around it, and a dash next to a mark
where the text beyond it is to be trimmed. The relations look at the text alone; what blocks compute
of themselves is what they say. -/

namespace Stencil.Markup.Block

open Text (Padded IsTrimmed)

/-- The second text is the first without the dash it starts with, if it starts with one. -/
inductive DashOff : List Char → List Char → Prop
  | dash (cs : List Char) : DashOff ('-' :: cs) cs
  | none {cs : List Char} (h : ∀ rest, cs ≠ '-' :: rest) : DashOff cs cs

/-- The second text is the first without the dash it ends with, if it ends with one. -/
inductive LastDashOff : List Char → List Char → Prop
  | dash (cs : List Char) : LastDashOff (cs ++ ['-']) cs
  | none {cs : List Char} (h : ∀ front, cs ≠ front ++ ['-']) : LastDashOff cs cs

def DashFirst (b : Block) : Prop := ∃ rest, b.inner = '-' :: rest

def DashLast (b : Block) : Prop := ∃ front, b.inner = front ++ ['-']

/-- A block says a body: the text between its marks is, without a first and then without a last dash,
the body with any blanks around it. A dash alone is a first one. -/
def Says (b : Block) (body : List Char) : Prop :=
  ∃ rest text, DashOff b.inner rest ∧ LastDashOff rest text ∧ Padded body text ∧ IsTrimmed body

def Names (b : Block) (name : String) : Prop := b.kind = .tag ∧ b.Says name.toList

variable {b : Block} {cs ds body behind : List Char} {name : String}

theorem dashOff_iff : DashOff cs ds ↔ (if cs.head? == some '-' then cs.drop 1 else cs) = ds := by
  constructor
  · intro h
    cases h with
    | dash => rfl
    | none h =>
      refine if_neg fun hc => ?_
      obtain ⟨rest, hr⟩ := List.head?_eq_some_iff.1 (beq_iff_eq.1 hc)
      exact h rest hr
  · rintro rfl
    split
    · rename_i hc
      obtain ⟨rest, rfl⟩ := List.head?_eq_some_iff.1 (beq_iff_eq.1 hc)
      exact .dash rest
    · rename_i hc
      refine .none fun rest hr => hc ?_
      rw [hr]
      rfl

theorem lastDashOff_iff :
    LastDashOff cs ds ↔ (if cs.getLast? == some '-' then cs.dropLast else cs) = ds := by
  constructor
  · intro h
    cases h with
    | dash => simp
    | none h =>
      refine if_neg fun hc => ?_
      obtain ⟨front, hr⟩ := List.getLast?_eq_some_iff.1 (beq_iff_eq.1 hc)
      exact h front hr
  · rintro rfl
    split
    · rename_i hc
      obtain ⟨front, rfl⟩ := List.getLast?_eq_some_iff.1 (beq_iff_eq.1 hc)
      rw [List.dropLast_concat]
      exact .dash front
    · rename_i hc
      refine .none fun front hr => hc ?_
      simp [hr]

theorem DashOff.exists_append (h : DashOff cs ds) : ∃ l, cs = l ++ ds ∧ ∀ c ∈ l, c = '-' := by
  cases h with
  | dash => exact ⟨['-'], rfl, by simp⟩
  | none => exact ⟨[], rfl, by simp⟩

theorem LastDashOff.exists_append (h : LastDashOff cs ds) : ∃ r, cs = ds ++ r ∧ ∀ c ∈ r, c = '-' := by
  cases h with
  | dash => exact ⟨['-'], rfl, by simp⟩
  | none => exact ⟨[], (List.append_nil cs).symm, by simp⟩

theorem trimsBefore_iff : b.trimsBefore = true ↔ b.DashFirst := by
  unfold trimsBefore DashFirst
  rw [beq_iff_eq, List.head?_eq_some_iff]

theorem trimsBehind_iff : b.trimsBehind = true ↔ b.DashLast := by
  unfold trimsBehind DashLast
  rw [beq_iff_eq, List.getLast?_eq_some_iff]

theorem body_eq_iff : b.body = body ↔ b.Says body := by
  constructor
  · rintro rfl
    obtain ⟨hp, ht⟩ := Text.trim_eq_iff.1 (rfl : Text.trim _ = b.body)
    exact ⟨_, _, dashOff_iff.2 rfl, lastDashOff_iff.2 rfl, hp, ht⟩
  · rintro ⟨rest, text, hf, hl, hp, ht⟩
    obtain rfl := dashOff_iff.1 hf
    obtain rfl := lastDashOff_iff.1 hl
    exact Text.trim_eq_iff.2 ⟨hp, ht⟩

theorem isTag_iff : b.isTag name = true ↔ b.Names name := by
  unfold isTag Names
  rw [Bool.and_eq_true, beq_iff_eq, beq_iff_eq, body_eq_iff]

theorem isTag_eq_false_iff : b.isTag name = false ↔ ¬ b.Names name := by
  rw [← isTag_iff, Bool.not_eq_true]

/-- A block is all of a text that something stands behind. -/
structure Fills (b : Block) (cs behind : List Char) : Prop where
  fronts : b.Fronts (cs ++ behind)
  behind : b.behind = behind

theorem Fills.eq_raw (h : b.Fills cs behind) : cs = b.raw := by
  have he := h.fronts.eq_append
  rw [h.behind] at he
  exact List.append_cancel_right he

theorem Fronts.fills (h : b.Fronts (b.raw ++ b.behind)) : b.Fills b.raw b.behind := ⟨h, rfl⟩

end Stencil.Markup.Block

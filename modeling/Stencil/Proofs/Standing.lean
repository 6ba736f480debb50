import Stencil.Proofs.Written

/-! Where blocks stand. A block stands at the front of a text if nothing closes it earlier than its
own closing mark, and the searches for blocks find just what stands in a text. -/

namespace Stencil

namespace Text

variable {mark cs before behind : List Char}

theorem cutAt?_eq_none_iff : cutAt? mark cs = none ↔ ∀ p q, cs ≠ p ++ mark ++ q := by
  constructor
  · intro h
    induction cs with
    | nil =>
      intro p q he
      have hm : mark = [] := by simp_all
      simp [cutAt?, hm] at h
    | cons c cs ih =>
      rw [cutAt?] at h
      split at h
      · cases h
      · rename_i hm
        rw [Option.map_eq_none_iff] at h
        intro p q he
        cases p with
        | nil =>
          rw [he] at hm
          exact hm (List.isPrefixOf_iff_prefix.2 ⟨q, by simp⟩)
        | cons d p =>
          obtain ⟨-, he⟩ := List.cons.inj he
          exact ih h p q he
  · intro h
    cases hc : cutAt? mark cs with
    | none => rfl
    | some r => exact absurd (append_of_cutAt? hc) (h r.1 r.2)

theorem length_le_of_cutAt? (h : cutAt? mark cs = some (before, behind)) :
    ∀ p q, cs = p ++ mark ++ q → before.length ≤ p.length := by
  induction cs generalizing before with
  | nil =>
    have hb := append_of_cutAt? h
    simp_all
  | cons c cs ih =>
    rw [cutAt?] at h
    split at h
    · cases h
      exact fun p q _ => Nat.zero_le _
    · rename_i hm
      obtain ⟨⟨b, r⟩, hc, he⟩ := Option.map_eq_some_iff.1 h
      cases he
      intro p q hp
      cases p with
      | nil =>
        rw [hp] at hm
        exact absurd (List.isPrefixOf_iff_prefix.2 ⟨q, by simp⟩) hm
      | cons d p =>
        obtain ⟨-, hp⟩ := List.cons.inj hp
        exact Nat.succ_le_succ (ih hc p q hp)

theorem cutAt?_eq_some_iff : cutAt? mark cs = some (before, behind) ↔
    cs = before ++ mark ++ behind ∧ ∀ p q, cs = p ++ mark ++ q → before.length ≤ p.length := by
  constructor
  · exact fun h => ⟨append_of_cutAt? h, length_le_of_cutAt? h⟩
  · rintro ⟨he, hf⟩
    cases hc : cutAt? mark cs with
    | none => exact absurd he (cutAt?_eq_none_iff.1 hc before behind)
    | some r =>
      obtain ⟨b, rest⟩ := r
      have hr := append_of_cutAt? hc
      have hl : b.length = before.length :=
        Nat.le_antisymm (length_le_of_cutAt? hc _ _ he) (hf _ _ hr)
      rw [he, List.append_assoc, List.append_assoc] at hr
      obtain ⟨hb, hr⟩ := List.append_inj hr hl.symm
      rw [hb, List.append_cancel_left hr]

end Text

namespace Markup

open Text (cutAt?)

namespace Block

/-- the marks between which the blocks of a kind stand -/
inductive Marks : Kind → List Char → List Char → Prop
  | output : Marks .output ['\x7b', '\x7b'] ['\x7d', '\x7d']
  | tag : Marks .tag ['\x7b', '%'] ['%', '\x7d']

/-- A block stands at the front of a text: its closing mark is the first one behind its opening
mark. -/
inductive Fronts (b : Block) (cs : List Char) : Prop
  | mk {opener closer : List Char} (marks : Marks b.kind opener closer)
      (eq : cs = opener ++ (b.inner ++ closer ++ b.behind))
      (first : ∀ p q, b.inner ++ closer ++ b.behind = p ++ closer ++ q →
        b.inner.length ≤ p.length)

/-- Does an opening mark stand at the front of a text that a closing mark follows anywhere? -/
def Opens (cs : List Char) : Prop :=
  ∃ (kind : Kind) (opener closer inner rest : List Char),
    Marks kind opener closer ∧ cs = opener ++ (inner ++ closer ++ rest)

theorem marks_iff {kind : Kind} {opener closer : List Char} :
    Marks kind opener closer ↔ opener = kind.opener ∧ closer = kind.closer := by
  constructor
  · intro h
    cases h <;> exact ⟨rfl, rfl⟩
  · rintro ⟨rfl, rfl⟩
    cases kind
    · exact .output
    · exact .tag

variable {b : Block} {cs before : List Char} {name : String}

theorem fronts_iff : b.Fronts cs ↔ cs = b.kind.opener ++ (b.inner ++ b.kind.closer ++ b.behind) ∧
    ∀ p q, b.inner ++ b.kind.closer ++ b.behind = p ++ b.kind.closer ++ q →
      b.inner.length ≤ p.length := by
  constructor
  · rintro ⟨hm, he, hf⟩
    obtain ⟨rfl, rfl⟩ := marks_iff.1 hm
    exact ⟨he, hf⟩
  · rintro ⟨he, hf⟩
    exact .mk (marks_iff.2 ⟨rfl, rfl⟩) he hf

theorem Fronts.eq_append (h : b.Fronts cs) : cs = b.raw ++ b.behind := by
  rw [(fronts_iff.1 h).1]
  simp [raw]

theorem opens_iff : Opens cs ↔
    ∃ (kind : Kind) (inner rest : List Char), cs = kind.opener ++ (inner ++ kind.closer ++ rest) := by
  constructor
  · rintro ⟨kind, _, _, inner, rest, hm, he⟩
    obtain ⟨rfl, rfl⟩ := marks_iff.1 hm
    exact ⟨kind, inner, rest, he⟩
  · rintro ⟨kind, inner, rest, he⟩
    exact ⟨kind, _, _, inner, rest, marks_iff.2 ⟨rfl, rfl⟩, he⟩

theorem close?_eq_some_iff {kind : Kind} : close? kind cs = some b ↔
    b.kind = kind ∧ cutAt? kind.closer cs = some (b.inner, b.behind) := by
  obtain ⟨k, inner, behind⟩ := b
  rw [close?, Option.map_eq_some_iff]
  constructor
  · rintro ⟨⟨i, r⟩, hc, he⟩
    cases he
    exact ⟨rfl, hc⟩
  · rintro ⟨rfl, hc⟩
    exact ⟨_, hc, rfl⟩

theorem here?_opener (kind : Kind) (cs : List Char) : here? (kind.opener ++ cs) = close? kind cs := by
  cases kind <;> rfl

theorem here?_eq_none (h : ∀ (kind : Kind) rest, cs ≠ kind.opener ++ rest) : here? cs = none := by
  rw [here?.eq_def]
  split
  · exact absurd rfl (h .output _)
  · exact absurd rfl (h .tag _)
  · rfl

theorem here?_eq_some_iff : here? cs = some b ↔ b.Fronts cs := by
  constructor
  · intro h
    by_cases ho : ∃ (kind : Kind) (rest : List Char), cs = kind.opener ++ rest
    · obtain ⟨kind, rest, rfl⟩ := ho
      rw [here?_opener, close?_eq_some_iff] at h
      obtain ⟨rfl, hc⟩ := h
      obtain ⟨he, hf⟩ := Text.cutAt?_eq_some_iff.1 hc
      exact fronts_iff.2 ⟨by rw [he], by rwa [he] at hf⟩
    · rw [here?_eq_none fun kind rest he => ho ⟨kind, rest, he⟩] at h
      cases h
  · intro h
    obtain ⟨he, hf⟩ := fronts_iff.1 h
    rw [he, here?_opener, close?_eq_some_iff, Text.cutAt?_eq_some_iff]
    exact ⟨rfl, rfl, hf⟩

theorem here?_eq_none_iff : here? cs = none ↔ ¬ Opens cs := by
  rw [opens_iff]
  constructor
  · rintro h ⟨kind, inner, rest, rfl⟩
    rw [here?_opener, close?, Option.map_eq_none_iff, Text.cutAt?_eq_none_iff] at h
    exact h inner rest rfl
  · intro h
    cases hh : here? cs with
    | none => rfl
    | some b =>
      have hf := fronts_iff.1 (here?_eq_some_iff.1 hh)
      exact absurd ⟨b.kind, b.inner, b.behind, hf.1⟩ h

theorem not_opens_of_find? (h : find? cs = none) : ∀ q, q <:+ cs → ¬ Opens q := by
  induction cs with
  | nil =>
    intro q hq
    rw [List.suffix_nil.1 hq]
    exact here?_eq_none_iff.1 rfl
  | cons c cs ih =>
    rw [find?] at h
    split at h
    · cases h
    · rename_i hh
      rw [Option.map_eq_none_iff] at h
      intro q hq
      rcases List.suffix_cons_iff.1 hq with rfl | hq
      · exact here?_eq_none_iff.1 hh
      · exact ih h q hq

/-- A search for a block finds one that stands in the text, and none can open before it. -/
theorem fronts_of_find? (h : find? cs = some (before, b)) :
    b.Fronts (b.raw ++ b.behind) ∧
      ∀ q, q <:+ before → q ≠ [] → ¬ Opens (q ++ (b.raw ++ b.behind)) := by
  induction cs generalizing before with
  | nil => simp [find?] at h
  | cons c cs ih =>
    have hs := append_of_find? h
    rw [find?] at h
    split at h
    · rename_i hh
      cases h
      rw [List.nil_append] at hs
      refine ⟨hs ▸ here?_eq_some_iff.1 hh, fun q hq hn => ?_⟩
      exact absurd (List.suffix_nil.1 hq) hn
    · rename_i hh
      obtain ⟨⟨p, b'⟩, hf, he⟩ := Option.map_eq_some_iff.1 h
      cases he
      obtain ⟨h1, h2⟩ := ih hf
      refine ⟨h1, fun q hq hn => ?_⟩
      rcases List.suffix_cons_iff.1 hq with rfl | hq
      · rw [← List.append_assoc, ← hs]
        exact here?_eq_none_iff.1 hh
      · exact h2 q hq hn

theorem not_fronts_of_findTag? (h : findTag? name cs = none) :
    ∀ q, q <:+ cs → ∀ b : Block, b.Fronts q → b.isTag name = false := by
  induction cs with
  | nil =>
    intro q hq b hb
    rw [List.suffix_nil.1 hq, ← here?_eq_some_iff] at hb
    cases hb
  | cons c cs ih =>
    rw [findTag?] at h
    split at h
    · cases h
    · rename_i hh
      rw [Option.map_eq_none_iff] at h
      intro q hq b hb
      rcases List.suffix_cons_iff.1 hq with rfl | hq
      · rw [here?_eq_some_iff.2 hb] at hh
        simpa using hh
      · exact ih h q hq b hb

/-- A search for a tag of a name finds one that stands in the text, and none stands before it. -/
theorem fronts_of_findTag? (h : findTag? name cs = some (before, b)) :
    b.Fronts (b.raw ++ b.behind) ∧ b.isTag name = true ∧
      ∀ q, q <:+ before → q ≠ [] →
        ∀ b' : Block, b'.Fronts (q ++ (b.raw ++ b.behind)) → b'.isTag name = false := by
  induction cs generalizing before with
  | nil => simp [findTag?] at h
  | cons c cs ih =>
    have hs := append_of_findTag? h
    rw [findTag?] at h
    split at h
    · rename_i hh
      cases h
      obtain ⟨hh, ht⟩ := Option.filter_eq_some_iff.1 hh
      rw [List.nil_append] at hs
      refine ⟨hs ▸ here?_eq_some_iff.1 hh, ht, fun q hq hn => ?_⟩
      exact absurd (List.suffix_nil.1 hq) hn
    · rename_i hh
      obtain ⟨⟨p, b'⟩, hf, he⟩ := Option.map_eq_some_iff.1 h
      cases he
      obtain ⟨h1, h2, h3⟩ := ih hf
      refine ⟨h1, h2, fun q hq hn b' hb => ?_⟩
      rcases List.suffix_cons_iff.1 hq with rfl | hq
      · rw [← List.append_assoc, ← hs] at hb
        rw [here?_eq_some_iff.2 hb] at hh
        simpa using hh
      · exact h3 q hq hn b' hb

end Block

end Markup

end Stencil

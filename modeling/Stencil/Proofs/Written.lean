import Stencil.Markup.Token
import Stencil.Proofs.Word

/-! Scanning gives back the tokens that a source was written from. A block is written with one blank
inside each mark; no blank is trimmed then, and no mark is found but those that were written. -/

namespace Stencil

namespace Markup

open Text (trim hasPart)

/-- a block with a text between its marks and one blank on each side -/
def Block.enclose (kind : Block.Kind) (body : List Char) : List Char :=
  kind.opener ++ ' ' :: body ++ ' ' :: kind.closer

/-- A text that stands in a block as it is: without blanks at its ends and without the mark that
closes the block. -/
structure Block.Encloses (kind : Block.Kind) (body : List Char) : Prop where
  trimmed : trim body = body
  unclosed : hasPart kind.closer body = false

namespace Block

instance (kind : Kind) (body : List Char) : Decidable (Encloses kind body) :=
  decidable_of_iff (trim body = body ∧ hasPart kind.closer body = false)
    ⟨fun h => ⟨h.1, h.2⟩, fun h => ⟨h.trimmed, h.unclosed⟩⟩

theorem Kind.exists_closer (kind : Kind) : ∃ a b, kind.closer = [a, b] ∧ a ≠ ' ' ∧ b ≠ ' ' := by
  cases kind with
  | output => exact ⟨_, _, rfl, by decide, by decide⟩
  | tag => exact ⟨_, _, rfl, by decide, by decide⟩

theorem close?_surround {kind : Kind} {body : List Char} (h : Encloses kind body)
    (rest : List Char) :
    close? kind (' ' :: body ++ ' ' :: kind.closer ++ rest) =
      some ⟨kind, ' ' :: body ++ [' '], rest⟩ := by
  obtain ⟨a, b, hk, ha, hb⟩ := kind.exists_closer
  have hu : Text.cutAt? [a, b] body = none := by
    have := h.unclosed
    rwa [hk, hasPart, Option.isSome_eq_false_iff, Option.isNone_iff_eq_none] at this
  have hl : (' ' :: body ++ [' ']).getLast? ≠ some a := by
    rw [List.getLast?_concat]; simpa using ha.symm
  have hc := Text.cutAt?_append (Text.cutAt?_surround ha hb hu) hl rest
  rw [close?, hk]
  simp only [List.append_assoc, List.cons_append, List.nil_append] at hc ⊢
  rw [hc]
  rfl

theorem here?_enclose {kind : Kind} {body : List Char} (h : Encloses kind body)
    (rest : List Char) :
    here? (enclose kind body ++ rest) = some ⟨kind, ' ' :: body ++ [' '], rest⟩ := by
  rw [← close?_surround h rest]
  cases kind <;> simp [enclose, Kind.opener, here?]

theorem length_behind_of_find? {cs before : List Char} {b : Block}
    (h : find? cs = some (before, b)) : b.behind.length < cs.length := by
  have hl := congrArg List.length (append_of_find? h)
  have hr := b.length_raw_pos
  simp only [List.length_append] at hl
  omega

theorem find?_append {cs : List Char} (h : '\x7b' ∉ cs) (rest : List Char) :
    find? (cs ++ rest) = (find? rest).map fun (before, b) => (cs ++ before, b) := by
  induction cs with
  | nil => simp
  | cons c cs ih =>
    have hc : c ≠ '\x7b' := fun hc => h (by simp [hc])
    have hh : here? (c :: (cs ++ rest)) = none := by
      rw [here?.eq_def]
      split <;> simp_all
    rw [List.cons_append, find?, hh, ih (fun hm => h (List.mem_cons_of_mem _ hm))]
    simp [Option.map_map, Function.comp_def]

theorem find?_enclose {kind : Kind} {body : List Char} (h : Encloses kind body)
    (rest : List Char) :
    find? (enclose kind body ++ rest) = some ([], ⟨kind, ' ' :: body ++ [' '], rest⟩) := by
  have hh := here?_enclose h rest
  cases hs : enclose kind body ++ rest with
  | nil => cases kind <;> simp [enclose, Kind.opener] at hs
  | cons c cs =>
    rw [hs] at hh
    rw [find?, hh]

theorem body_of_inner {kind : Kind} {inner : List Char} (hf : inner.head? ≠ some '-')
    (hl : inner.getLast? ≠ some '-') (behind : List Char) :
    Block.body ⟨kind, inner, behind⟩ = trim inner := by
  simp [Block.body, trimsBefore, hf, hl]

theorem body_surround {kind : Kind} {body : List Char} (h : Encloses kind body)
    (behind : List Char) : Block.body ⟨kind, ' ' :: body ++ [' '], behind⟩ = body := by
  have hl : (' ' :: body ++ [' ']).getLast? = some ' ' := List.getLast?_concat
  rw [body_of_inner (by simp) (by rw [hl]; decide), Text.trim_surround h.trimmed]

end Block

namespace Token

def isText : Token → Bool
  | text _ => true
  | _ => false

def source : Token → List Char
  | text s => s
  | output body => Block.enclose .output body
  | tag _ raw => raw

/-- Can the token be written? A text has no brace that might open a block, and a tag must open no
comment. -/
def Writable : Token → Prop
  | text s => s ≠ [] ∧ '\x7b' ∉ s
  | output body => Block.Encloses .output body
  | tag body raw =>
    raw = Block.enclose .tag body ∧ Block.Encloses .tag body ∧ body ≠ "comment".toList

/-- Tokens that can be written one after the other: two texts would become one. -/
def Written : List Token → Prop
  | [] => True
  | t :: ts => t.Writable ∧ (t.isText = true → ts.head?.any isText = false) ∧ Written ts

theorem scanFrom_of_none {cs : List Char} (h : Block.find? cs = none) (hne : cs ≠ [])
    (p : Position) : scanFrom p false cs = [(text cs, ⟨p, p.after cs⟩)] := by
  rw [scanFrom]
  simp only [Bool.false_eq_true, if_false]
  split
  · simp [hne]
  · simp_all

theorem scanFrom_of_some {cs before : List Char} {b : Block}
    (h : Block.find? cs = some (before, b)) (p : Position) :
    scanFrom p false cs = leading p before b ++
      match commentEnd? b with
      | some (hidden, close) =>
        scanFrom ((p.after before).after (b.raw ++ hidden ++ close.raw)) close.trimsBehind
          close.behind
      | none =>
        (ofBlock b, ⟨p.after before, (p.after before).after b.raw⟩) ::
          scanFrom ((p.after before).after b.raw) b.trimsBehind b.behind := by
  rw [scanFrom]
  simp only [Bool.false_eq_true, if_false]
  split
  · simp_all
  · rename_i hf
    simp only [Bool.false_eq_true, if_false] at hf
    rw [h] at hf
    cases hf
    split <;> simp_all

end Token

end Markup

end Stencil

import Stencil.Text.Blank
import Stencil.Text.Search

/-! Blocks: outputs between double braces and tags between braces with percent signs. A block is
one only if it is closed; a dash inside either mark asks to trim the text next to it. -/

namespace Stencil.Markup

open Text (cutAt?)

inductive Block.Kind where
  | output
  | tag
  deriving DecidableEq, Repr

def Block.Kind.opener : Block.Kind → List Char
  | output => ['\x7b', '\x7b']
  | tag => ['\x7b', '%']

def Block.Kind.closer : Block.Kind → List Char
  | output => ['\x7d', '\x7d']
  | tag => ['%', '\x7d']

/-- a block with the text between its marks and the text behind it -/
structure Block where
  kind : Block.Kind
  inner : List Char
  behind : List Char

namespace Block

def raw (b : Block) : List Char := b.kind.opener ++ b.inner ++ b.kind.closer

def trimsBefore (b : Block) : Bool := b.inner.head? == some '-'

def trimsBehind (b : Block) : Bool := b.inner.getLast? == some '-'

/-- the text between the marks without dashes at its ends, trimmed -/
def body (b : Block) : List Char :=
  let inner := if b.trimsBefore then b.inner.drop 1 else b.inner
  Text.trim (if inner.getLast? == some '-' then inner.dropLast else inner)

def isTag (b : Block) (name : String) : Bool := b.kind == .tag && b.body == name.toList

/-- the rest of a block whose opening mark has been read, up to the first closing mark -/
def close? (kind : Kind) (cs : List Char) : Option Block :=
  (cutAt? kind.closer cs).map fun (inner, behind) => ⟨kind, inner, behind⟩

/-- the block that starts right here -/
def here? : List Char → Option Block
  | '\x7b' :: '\x7b' :: cs => close? .output cs
  | '\x7b' :: '%' :: cs => close? .tag cs
  | _ => none

/-- the first block and the text before it -/
def find? : List Char → Option (List Char × Block)
  | [] => none
  | c :: cs =>
    match here? (c :: cs) with
    | some b => some ([], b)
    | none => (find? cs).map fun (before, b) => (c :: before, b)

/-- The first tag of a name, and the text before it. Unlike in a search for any block, one may start
inside another. -/
def findTag? (name : String) : List Char → Option (List Char × Block)
  | [] => none
  | c :: cs =>
    match (here? (c :: cs)).filter (·.isTag name) with
    | some b => some ([], b)
    | none => (findTag? name cs).map fun (before, b) => (c :: before, b)

theorem append_of_close? {kind : Kind} {cs : List Char} {b : Block} (h : close? kind cs = some b) :
    b.kind = kind ∧ cs = b.inner ++ kind.closer ++ b.behind := by
  obtain ⟨⟨inner, behind⟩, hc, rfl⟩ := Option.map_eq_some_iff.1 h
  exact ⟨rfl, Text.append_of_cutAt? hc⟩

theorem append_of_here? {cs : List Char} {b : Block} (h : here? cs = some b) :
    cs = b.raw ++ b.behind := by
  rw [here?.eq_def] at h
  split at h
  · obtain ⟨hk, hc⟩ := append_of_close? h
    simp [raw, hk, Kind.opener, hc]
  · obtain ⟨hk, hc⟩ := append_of_close? h
    simp [raw, hk, Kind.opener, hc]
  · simp at h

theorem append_of_find? {cs before : List Char} {b : Block} (h : find? cs = some (before, b)) :
    cs = before ++ b.raw ++ b.behind := by
  induction cs generalizing before with
  | nil => simp [find?] at h
  | cons c cs ih =>
    rw [find?] at h
    split at h
    · rename_i hb
      simp only [Option.some.injEq, Prod.mk.injEq] at h
      obtain ⟨rfl, rfl⟩ := h
      simpa using append_of_here? hb
    · obtain ⟨⟨p, b'⟩, hf, he⟩ := Option.map_eq_some_iff.1 h
      simp only [Prod.mk.injEq] at he
      obtain ⟨rfl, rfl⟩ := he
      have := ih hf
      simp [← this]

theorem append_of_findTag? {name : String} {cs before : List Char} {b : Block}
    (h : findTag? name cs = some (before, b)) : cs = before ++ b.raw ++ b.behind := by
  induction cs generalizing before with
  | nil => simp [findTag?] at h
  | cons c cs ih =>
    rw [findTag?] at h
    split at h
    · rename_i hb
      simp only [Option.some.injEq, Prod.mk.injEq] at h
      obtain ⟨rfl, rfl⟩ := h
      simpa using append_of_here? (Option.filter_eq_some_iff.1 hb).1
    · obtain ⟨⟨p, b'⟩, hf, he⟩ := Option.map_eq_some_iff.1 h
      simp only [Prod.mk.injEq] at he
      obtain ⟨rfl, rfl⟩ := he
      have := ih hf
      simp [← this]

theorem length_raw_pos (b : Block) : 0 < b.raw.length := by
  cases h : b.kind <;> simp [raw, h, Kind.opener]

end Block

end Stencil.Markup

import Stencil.Proofs.Bare
import Stencil.Proofs.Written

/-! Writing a tree as source text, and reading single tags back. -/

namespace Stencil

open Markup (Block Token)
open Text (isBlank trim trimStart firstWord isWord)

def phrase (word : String) (rest : List Char) : List Char := word.toList ++ ' ' :: rest

namespace Node

def written (body : List Char) : Token := .tag body (Block.enclose .tag body)

mutual

def tokens : Node → List Token
  | text s _ => [.text s]
  | output e _ => [.output e]
  | rawTag body raw _ => [.tag body raw]
  | assign target value _ => [written (phrase "assign" (target ++ ' ' :: phrase "=" value))]
  | inclusion args _ => [written (phrase "include" args)]
  | choice negated arms otherwise _ =>
    tokensArms (if negated then "unless" else "if") "elsif" arms ++ tokensElse otherwise ++
      [written (if negated then "endunless" else "endif").toList]
  | loop target items body otherwise _ =>
    written (phrase "for" (target ++ ' ' :: phrase "in" items)) :: tokensAll body ++
      tokensElse otherwise ++ [written "endfor".toList]
  | select subject _ lead arms otherwise _ =>
    written (phrase "case" subject) :: tokensAll lead ++ tokensArms "when" "when" arms ++
      tokensElse otherwise ++ [written "endcase".toList]

def tokensAll : List Node → List Token
  | [] => []
  | n :: ns => n.tokens ++ tokensAll ns

/-- Arms, each behind a tag that says its head: the first one with a word of its own. -/
def tokensArms (first next : String) : List Arm → List Token
  | [] => []
  | .mk head body :: as => written (phrase first head) :: tokensAll body ++ tokensArms next next as

def tokensElse : Option (List Node) → List Token
  | none => []
  | some body => written "else".toList :: tokensAll body
termination_by structural o => o

end

def print (ns : List Node) : String := .ofList ((tokensAll ns).flatMap Token.source)

mutual

/-- how many blocks are open at a time inside a node, itself included -/
def depth : Node → Nat
  | text .. | output .. | rawTag .. | assign .. | inclusion .. => 0
  | choice _ arms otherwise _ => max (depthArms arms) (depthElse otherwise) + 1
  | loop _ _ body otherwise _ => max (depthAll body) (depthElse otherwise) + 1
  | select _ _ lead arms otherwise _ =>
    max (depthAll lead) (max (depthArms arms) (depthElse otherwise)) + 1

def depthAll : List Node → Nat
  | [] => 0
  | n :: ns => max n.depth (depthAll ns)

def depthArms : List Arm → Nat
  | [] => 0
  | .mk _ body :: as => max (depthAll body) (depthArms as)

def depthElse : Option (List Node) → Nat
  | none => 0
  | some body => depthAll body
termination_by structural o => o

end

def isText : Node → Bool
  | text .. => true
  | _ => false

/-- what a tag can say behind its first word -/
structure Sayable (cs : List Char) : Prop extends Block.Encloses .tag cs where
  ne_nil : cs ≠ []

instance (cs : List Char) : Decidable (Sayable cs) :=
  decidable_of_iff (Block.Encloses .tag cs ∧ cs ≠ [])
    ⟨fun h => ⟨h.1, h.2⟩, fun h => ⟨h.toEncloses, h.ne_nil⟩⟩

mutual

/-- Can the node be written so that it is read back? -/
def Printable : Node → Prop
  | text s _ => s ≠ [] ∧ '\x7b' ∉ s
  | output e _ => Block.Encloses .output e
  | rawTag body raw _ =>
    Block.Encloses .tag body ∧ raw = Block.enclose .tag body ∧ Tag.read body = .raw ∧
      body ≠ "comment".toList
  | assign target value _ => isWord target = true ∧ Sayable value
  | inclusion args _ => Sayable args
  | choice _ arms otherwise _ => arms ≠ [] ∧ PrintableArms arms ∧ PrintableElse otherwise
  | loop target items body otherwise _ =>
    isWord target = true ∧ Sayable items ∧ PrintableAll body ∧ PrintableElse otherwise
  | select subject _ lead arms otherwise _ =>
    Sayable subject ∧ PrintableAll lead ∧ PrintableArms arms ∧ PrintableElse otherwise

/-- Nodes that stand in one body. Two texts would become one. -/
def PrintableAll : List Node → Prop
  | [] => True
  | n :: ns =>
    n.Printable ∧ (n.isText = true → ns.head?.any isText = false) ∧ PrintableAll ns

def PrintableArms : List Arm → Prop
  | [] => True
  | .mk head body :: as => Sayable head ∧ PrintableAll body ∧ PrintableArms as

def PrintableElse : Option (List Node) → Prop
  | none => True
  | some body => PrintableAll body
termination_by structural o => o

end

end Node

open Text (Solid)

namespace Tag

variable {cs target : List Char}

theorem of_mem_controlStarts : ∀ word ∈ controlStarts,
    Solid word.toList ∧ word.toList ∉ ["case", "when", "endcase", "include"].map String.toList := by
  decide

theorem read_control {word : String} (h : word ∈ controlStarts) (ht : trimStart cs = cs) :
    read (phrase word cs) = readControl (phrase word cs) word.toList cs := by
  have hp : controlStarts.any (·.toList.isPrefixOf (phrase word cs)) = true :=
    List.any_eq_true.2 ⟨word, h, by simp [phrase]⟩
  obtain ⟨hs, hc⟩ := of_mem_controlStarts word h
  have hf : firstWord (phrase word cs) = (word.toList, cs) := Text.firstWord_append hs ht
  simp only [List.map_cons, List.map_nil, List.mem_cons, List.not_mem_nil, or_false, not_or] at hc
  obtain ⟨h₁, h₂, h₃, h₄⟩ := hc
  simp only [read, hf, hp, beq_false_of_ne h₁, beq_false_of_ne h₂, beq_false_of_ne h₃,
    beq_false_of_ne h₄, Bool.false_and, Bool.false_eq_true, if_false, if_true]

theorem read_if (hn : cs ≠ []) (ht : trimStart cs = cs) : read (phrase "if" cs) = ifOpen cs := by
  rw [read_control (by decide) ht]
  simp [readControl, hn]

theorem read_unless (hn : cs ≠ []) (ht : trimStart cs = cs) :
    read (phrase "unless" cs) = unlessOpen cs := by
  rw [read_control (by decide) ht]
  simp [readControl, hn]

theorem read_elsif (hn : cs ≠ []) (ht : trimStart cs = cs) :
    read (phrase "elsif" cs) = elsif cs := by
  rw [read_control (by decide) ht]
  simp [readControl, hn]

theorem read_for (hn : cs ≠ []) (ht : trimStart cs = cs) (hw : isWord target = true) :
    read (phrase "for" (target ++ ' ' :: phrase "in" cs)) = loopOpen target cs := by
  have hs := Text.solid_of_isWord hw
  have hi : firstWord (phrase "in" cs) = ("in".toList, cs) :=
    Text.firstWord_append (by decide) ht
  have hin : trimStart (phrase "in" cs) = phrase "in" cs :=
    Text.trimStart_append (by decide) _
  have hc (rest : List Char) : readControl (phrase "for" rest) "for".toList rest = readLoop rest := by
    simp [readControl, phrase, closers]
  rw [read_control (by decide) (Text.trimStart_append hs _), hc, readLoop,
    Text.firstWord_append hs hin]
  simp [hi, hn, hw]

theorem read_assign (hn : cs ≠ []) (ht : trim cs = cs) (hw : isWord target = true) :
    read (phrase "assign" (target ++ ' ' :: phrase "=" cs)) = assign target cs := by
  have hs := Text.solid_of_isWord hw
  have hq : '=' ∉ target ++ [' '] := by
    simp only [isWord, Bool.and_eq_true, List.all_eq_true] at hw
    intro hm
    rcases List.mem_append.1 hm with hm | hm
    · exact absurd (hw.2 _ hm) (by decide)
    · simp at hm
  have hcut : Text.cutAt? ['='] (target ++ ' ' :: phrase "=" cs) =
      some (target ++ [' '], ' ' :: cs) := by
    have := Text.cutAt?_singleton hq (' ' :: cs)
    simpa [phrase] using this
  have ht₁ : trim (target ++ [' ']) = target := Text.trim_surround (Text.trim_of_solid hs)
  have ht₂ : trim (' ' :: cs) = cs := ht
  have hc (rest : List Char) :
      readControl (phrase "assign" rest) "assign".toList rest = readAssign rest := by
    simp [readControl, phrase, closers]
  rw [read_control (by decide) (Text.trimStart_append hs _), hc, readAssign, hcut]
  simp [ht₁, ht₂, hn, hw]

theorem read_case (hn : cs ≠ []) (ht : trimStart cs = cs) :
    read (phrase "case" cs) = caseOpen cs := by
  have hf : firstWord (phrase "case" cs) = ("case".toList, cs) :=
    Text.firstWord_append (by decide) ht
  simp [read, hf, hn]

theorem read_when (hn : cs ≠ []) (ht : trimStart cs = cs) : read (phrase "when" cs) = when cs := by
  have hf : firstWord (phrase "when" cs) = ("when".toList, cs) :=
    Text.firstWord_append (by decide) ht
  simp [read, hf, hn]

theorem read_include (hn : cs ≠ []) (ht : trimStart cs = cs) :
    read (phrase "include" cs) = inclusion cs := by
  have hf : firstWord (phrase "include" cs) = ("include".toList, cs) :=
    Text.firstWord_append (by decide) ht
  simp [read, hf, hn]

theorem read_else : read "else".toList = otherwise := by decide

theorem read_endcase : read "endcase".toList = endCase := by decide

theorem read_closer : ∀ word ∈ closers, read word.toList = close := by decide

end Tag

end Stencil

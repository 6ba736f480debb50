import Stencil.Template.Builder

/-! Templates as they are written: trees in which cases are still whole and the texts of
expressions are not read yet. Lowering a tree numbers its cases in the order of their tags and makes
the statements that a template runs. -/

namespace Stencil

open Markup (Span)
open Builder (caseVariable)

mutual

inductive Node where
  | text (s : List Char) (span : Span)
  | output (e : List Char) (span : Span)
  /-- a tag without a meaning here: what it says, and the tag as it stands -/
  | rawTag (body raw : List Char) (span : Span)
  | assign (target value : List Char) (span : Span)
  | inclusion (args : List Char) (span : Span)
  /-- an if or an unless: only its first arm is negated -/
  | choice (negated : Bool) (arms : List Arm) (otherwise : Option (List Node)) (span : Span)
  | loop (target items : List Char) (body : List Node) (otherwise : Option (List Node))
    (span : Span)
  /-- a case: `opening` is the span of its tag, `span` goes from its first when to its end -/
  | select (subject : List Char) (opening : Span) (lead : List Node) (arms : List Arm)
    (otherwise : Option (List Node)) (span : Span)

/-- a branch of a choice or a when: what its tag says behind the first word, and its body -/
inductive Arm where
  | mk (head : List Char) (body : List Node)

end

instance : Inhabited Node := ⟨.text [] .none⟩

namespace Node

mutual

def count : Node → Nat
  | text .. | output .. | rawTag .. | assign .. | inclusion .. => 0
  | choice _ arms otherwise _ => countArms arms + countElse otherwise
  | loop _ _ body otherwise _ => countAll body + countElse otherwise
  | select _ _ lead arms otherwise _ => 1 + countAll lead + countArms arms + countElse otherwise

def countAll : List Node → Nat
  | [] => 0
  | n :: ns => n.count + countAll ns

def countArms : List Arm → Nat
  | [] => 0
  | .mk _ body :: as => countAll body + countArms as

def countElse : Option (List Node) → Nat
  | none => 0
  | some body => countAll body
termination_by structural o => o

end

mutual

/-- The statements of a node that stands behind `c` cases. -/
def lower (c : Nat) : Node → List Stmt
  | text s span => [.text (.ofList s) span]
  | output e span => [.output (.read e) span]
  | rawTag _ raw span => [.rawTag (.ofList raw) span]
  | assign target value span => [.assign (.ofList target) (.read value) span]
  | inclusion args span =>
    [.inclusion (Parameter.readInclude args).1 (Parameter.readInclude args).2 span]
  | choice negated arms otherwise span =>
    [.choice (lowerArms .read negated c arms) (lowerElse (c + countArms arms) otherwise) span]
  | loop target items body otherwise span =>
    [.loop (.ofList target) (.read items) (lowerAll c body)
      (lowerElse (c + countAll body) otherwise) span]
  | select subject opening lead arms otherwise span =>
    let name := caseVariable (c + 1)
    let whens := lowerArms (whenCondition name) false (c + 1 + countAll lead) arms
    let rest := lowerElse (c + 1 + countAll lead + countArms arms) otherwise
    .assign name (.read subject) opening :: lowerAll (c + 1) lead ++
      if arms.isEmpty then rest else [.choice whens rest span]

def lowerAll (c : Nat) : List Node → List Stmt
  | [] => []
  | n :: ns => n.lower c ++ lowerAll (c + n.count) ns

/-- Branches of arms whose heads are conditions as `read` has it; the first may be negated. -/
def lowerArms (read : List Char → Condition) (negated : Bool) (c : Nat) : List Arm → List Branch
  | [] => []
  | .mk head body :: as =>
    .mk (read head) negated (lowerAll c body) :: lowerArms read false (c + countAll body) as

def lowerElse (c : Nat) : Option (List Node) → List Stmt
  | none => []
  | some body => lowerAll c body
termination_by structural o => o

end

@[simp] theorem countAll_append (as bs : List Node) :
    countAll (as ++ bs) = countAll as + countAll bs := by
  induction as with
  | nil => simp [countAll]
  | cons a as ih => simp [countAll, ih, Nat.add_assoc]

@[simp] theorem countArms_append (as bs : List Arm) :
    countArms (as ++ bs) = countArms as + countArms bs := by
  induction as with
  | nil => simp [countArms]
  | cons a as ih => cases a; simp [countArms, ih, Nat.add_assoc]

theorem lowerAll_append (c : Nat) (as bs : List Node) :
    lowerAll c (as ++ bs) = lowerAll c as ++ lowerAll (c + countAll as) bs := by
  induction as generalizing c with
  | nil => simp [lowerAll, countAll]
  | cons a as ih => simp [lowerAll, countAll, ih, Nat.add_assoc]

theorem lowerArms_append (read : List Char → Condition) (negated : Bool) (c : Nat)
    (as bs : List Arm) :
    lowerArms read negated c (as ++ bs) =
      lowerArms read negated c as ++ lowerArms read (negated && as.isEmpty) (c + countArms as) bs := by
  induction as generalizing c negated with
  | nil => simp [lowerArms, countArms]
  | cons a as ih => cases a; simp [lowerArms, countArms, ih, Nat.add_assoc]

mutual

def same : Node → Node → Bool
  | text s p, text s' p' => s == s' && p == p'
  | output e p, output e' p' => e == e' && p == p'
  | rawTag b r p, rawTag b' r' p' => b == b' && r == r' && p == p'
  | assign t v p, assign t' v' p' => t == t' && v == v' && p == p'
  | inclusion a p, inclusion a' p' => a == a' && p == p'
  | choice n as o p, choice n' as' o' p' => n == n' && sameArms as as' && sameElse o o' && p == p'
  | loop t i b o p, loop t' i' b' o' p' =>
    t == t' && i == i' && sameAll b b' && sameElse o o' && p == p'
  | select s q l as o p, select s' q' l' as' o' p' =>
    s == s' && q == q' && sameAll l l' && sameArms as as' && sameElse o o' && p == p'
  | _, _ => false

def sameAll : List Node → List Node → Bool
  | [], [] => true
  | a :: as, b :: bs => same a b && sameAll as bs
  | _, _ => false

def sameArms : List Arm → List Arm → Bool
  | [], [] => true
  | .mk h a :: as, .mk h' b :: bs => h == h' && sameAll a b && sameArms as bs
  | _, _ => false

def sameElse : Option (List Node) → Option (List Node) → Bool
  | none, none => true
  | some a, some b => sameAll a b
  | _, _ => false
termination_by structural o => o

end

mutual

theorem eq_of_same (a b : Node) (h : a.same b = true) : a = b := by
  cases a with
  | text | output | rawTag | assign | inclusion =>
    cases b <;> simp_all [same]
  | choice n as o p =>
    cases b with
    | choice n' as' o' p' =>
      simp only [same, Bool.and_eq_true, beq_iff_eq] at h
      obtain ⟨⟨⟨rfl, ha⟩, ho⟩, rfl⟩ := h
      rw [eq_of_sameArms as as' ha, eq_of_sameElse o o' ho]
    | _ => simp [same] at h
  | loop t i body o p =>
    cases b with
    | loop t' i' body' o' p' =>
      simp only [same, Bool.and_eq_true, beq_iff_eq] at h
      obtain ⟨⟨⟨⟨rfl, rfl⟩, hb⟩, ho⟩, rfl⟩ := h
      rw [eq_of_sameAll body body' hb, eq_of_sameElse o o' ho]
    | _ => simp [same] at h
  | select s q l as o p =>
    cases b with
    | select s' q' l' as' o' p' =>
      simp only [same, Bool.and_eq_true, beq_iff_eq] at h
      obtain ⟨⟨⟨⟨⟨rfl, rfl⟩, hl⟩, ha⟩, ho⟩, rfl⟩ := h
      rw [eq_of_sameAll l l' hl, eq_of_sameArms as as' ha, eq_of_sameElse o o' ho]
    | _ => simp [same] at h

theorem eq_of_sameAll (as bs : List Node) (h : sameAll as bs = true) : as = bs := by
  cases as with
  | nil => cases bs <;> simp_all [sameAll]
  | cons a as =>
    cases bs with
    | nil => simp [sameAll] at h
    | cons b bs =>
      simp only [sameAll, Bool.and_eq_true] at h
      rw [eq_of_same a b h.1, eq_of_sameAll as bs h.2]

theorem eq_of_sameArms (as bs : List Arm) (h : sameArms as bs = true) : as = bs := by
  cases as with
  | nil => cases bs <;> simp_all [sameArms]
  | cons a as =>
    obtain ⟨head, a⟩ := a
    cases bs with
    | nil => simp [sameArms] at h
    | cons b bs =>
      obtain ⟨head', b⟩ := b
      simp only [sameArms, Bool.and_eq_true, beq_iff_eq] at h
      rw [h.1.1, eq_of_sameAll a b h.1.2, eq_of_sameArms as bs h.2]

theorem eq_of_sameElse (o o' : Option (List Node)) (h : sameElse o o' = true) : o = o' := by
  cases o with
  | none => cases o' <;> simp_all [sameElse]
  | some a =>
    cases o' with
    | none => simp [sameElse] at h
    | some b => rw [eq_of_sameAll a b h]
termination_by structural o

end

end Node

end Stencil

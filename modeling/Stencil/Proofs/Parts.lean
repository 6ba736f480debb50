import Stencil.Proofs.Draft

/-! What stands anywhere inside a template: its statements at any depth, the bodies they stand in,
and the nodes of its tree. The statements of a node stand in a row in one body, and a statement binds
a variable only if a tag of the tree does or if it is the variable of a case. -/

namespace Stencil

open Markup (Span)
open Builder (caseVariable)

namespace Stmt

mutual

def parts : Stmt → List Stmt
  | choice branches otherwise span =>
    .choice branches otherwise span :: (partsBranches branches ++ partsAll otherwise)
  | loop target items body otherwise span =>
    .loop target items body otherwise span :: (partsAll body ++ partsAll otherwise)
  | s => [s]

def partsAll : List Stmt → List Stmt
  | [] => []
  | s :: ss => s.parts ++ partsAll ss

def partsBranches : List Branch → List Stmt
  | [] => []
  | .mk _ _ body :: bs => partsAll body ++ partsBranches bs

end

mutual

def bodies : Stmt → List (List Stmt)
  | choice branches otherwise _ => bodiesBranches branches ++ otherwise :: bodiesAll otherwise
  | loop _ _ body otherwise _ => body :: bodiesAll body ++ otherwise :: bodiesAll otherwise
  | _ => []

def bodiesAll : List Stmt → List (List Stmt)
  | [] => []
  | s :: ss => s.bodies ++ bodiesAll ss

def bodiesBranches : List Branch → List (List Stmt)
  | [] => []
  | .mk _ _ body :: bs => body :: bodiesAll body ++ bodiesBranches bs

end

def Binds (name : String) : Stmt → Prop
  | assign target _ _ => target = name
  | loop target _ _ _ _ => target = name
  | _ => False

end Stmt

namespace Node

mutual

/-- A node behind `c` cases and all nodes inside it, each with the number of cases before it. -/
def parts (c : Nat) : Node → List (Nat × Node)
  | choice negated arms otherwise span =>
    (c, .choice negated arms otherwise span) ::
      (partsArms c arms ++ partsElse (c + countArms arms) otherwise)
  | loop target items body otherwise span =>
    (c, .loop target items body otherwise span) ::
      (partsAll c body ++ partsElse (c + countAll body) otherwise)
  | select subject opening lead arms otherwise span =>
    (c, .select subject opening lead arms otherwise span) ::
      (partsAll (c + 1) lead ++ partsArms (c + 1 + countAll lead) arms ++
        partsElse (c + 1 + countAll lead + countArms arms) otherwise)
  | n => [(c, n)]

def partsAll (c : Nat) : List Node → List (Nat × Node)
  | [] => []
  | n :: ns => n.parts c ++ partsAll (c + n.count) ns

def partsArms (c : Nat) : List Arm → List (Nat × Node)
  | [] => []
  | .mk _ body :: as => partsAll c body ++ partsArms (c + countAll body) as

def partsElse (c : Nat) : Option (List Node) → List (Nat × Node)
  | none => []
  | some body => partsAll c body
termination_by structural o => o

end

/-- Does an assignment or a loop of the source bind the variable? -/
def Binds (name : String) : Node → Prop
  | assign target _ _ => .ofList target = name
  | loop target _ _ _ _ => .ofList target = name
  | _ => False

/-- What accounts for a statement that nodes are lowered to, from behind `c` cases up to the
`d`th: a variable that it binds is bound by a node or is the variable of a case, and an include is
one of the nodes. -/
structure Origin (c d : Nat) (ps : List (Nat × Node)) (s : Stmt) : Prop where
  binds : ∀ name, s.Binds name →
    (∃ p ∈ ps, p.2.Binds name) ∨ ∃ m, c < m ∧ m ≤ d ∧ name = caseVariable m
  inclusion : ∀ name params span, s = .inclusion name params span →
    ∃ p ∈ ps, ∃ args, p.2 = .inclusion args span ∧ Parameter.readInclude args = (name, params)

theorem Origin.mono {c c' d d' : Nat} {ps ps' : List (Nat × Node)} {s : Stmt}
    (h : Origin c d ps s) (hc : c' ≤ c) (hd : d ≤ d') (hp : ps ⊆ ps') : Origin c' d' ps' s := by
  refine ⟨fun name hb => ?_, fun name params span he => ?_⟩
  · rcases h.binds name hb with ⟨p, hm, hb⟩ | ⟨m, hm, hm', rfl⟩
    · exact .inl ⟨p, hp hm, hb⟩
    · exact .inr ⟨m, by omega, by omega, rfl⟩
  · obtain ⟨p, hm, h⟩ := h.inclusion name params span he
    exact ⟨p, hp hm, h⟩

theorem Origin.of_plain {c d : Nat} {ps : List (Nat × Node)} {s : Stmt}
    (hb : ∀ name, ¬ s.Binds name) (hi : ∀ name params span, s ≠ .inclusion name params span) :
    Origin c d ps s :=
  ⟨fun name h => absurd h (hb name), fun name params span h => absurd h (hi name params span)⟩

theorem Origin.of_binds {c d : Nat} {ps : List (Nat × Node)} {s : Stmt}
    (hi : ∀ name params span, s ≠ .inclusion name params span)
    (hb : ∀ name, s.Binds name →
      (∃ p ∈ ps, p.2.Binds name) ∨ ∃ m, c < m ∧ m ≤ d ∧ name = caseVariable m) :
    Origin c d ps s :=
  ⟨hb, fun name params span h => absurd h (hi name params span)⟩

end Node

namespace Stmt

theorem partsAll_append (as bs : List Stmt) :
    partsAll (as ++ bs) = partsAll as ++ partsAll bs := by
  induction as with
  | nil => rfl
  | cons a as ih => simp [partsAll, ih]

theorem bodiesAll_append (as bs : List Stmt) :
    bodiesAll (as ++ bs) = bodiesAll as ++ bodiesAll bs := by
  induction as with
  | nil => rfl
  | cons a as ih => simp [bodiesAll, ih]

/-- The statements of a block stand in a row, among others or in a body inside one of them. -/
def Stands (block ss : List Stmt) : Prop :=
  ∃ body ∈ ss :: bodiesAll ss, block <:+: body

theorem Stands.refl (block : List Stmt) : Stands block block :=
  ⟨block, List.mem_cons_self, List.infix_rfl⟩

theorem Stands.append {block ss : List Stmt} (h : Stands block ss) (before after : List Stmt) :
    Stands block (before ++ ss ++ after) := by
  obtain ⟨body, hb, hi⟩ := h
  rcases List.mem_cons.1 hb with rfl | hb
  · exact ⟨_, List.mem_cons_self, hi.trans (List.infix_append ..)⟩
  · exact ⟨body, List.mem_cons_of_mem _ (by simp [bodiesAll_append, hb]), hi⟩

theorem Stands.of_body {block body ss : List Stmt} (h : Stands block body)
    (hs : body :: bodiesAll body ⊆ bodiesAll ss) : Stands block ss := by
  obtain ⟨inner, hb, hi⟩ := h
  exact ⟨inner, List.mem_cons_of_mem _ (hs hb), hi⟩

end Stmt

namespace Node

open Stmt (partsBranches)

theorem mem_partsAll_select {c : Nat} {subject : List Char} {opening : Span} {lead : List Node}
    {arms : List Arm} {otherwise : Option (List Node)} {span : Span} {s : Stmt} :
    s ∈ Stmt.partsAll ((select subject opening lead arms otherwise span).lower c) ↔
      let whens := lowerArms (whenCondition (caseVariable (c + 1))) false
        (c + 1 + countAll lead) arms
      let rest := lowerElse (c + 1 + countAll lead + countArms arms) otherwise
      s = .assign (caseVariable (c + 1)) (.read subject) opening ∨
        s ∈ Stmt.partsAll (lowerAll (c + 1) lead) ∨ (arms ≠ [] ∧ s = .choice whens rest span) ∨
        (arms ≠ [] ∧ s ∈ partsBranches whens) ∨ s ∈ Stmt.partsAll rest := by
  cases arms with
  | nil => simp [lower, Stmt.partsAll, Stmt.parts, Stmt.partsAll_append]
  | cons a as =>
    simp [lower, Stmt.partsAll, Stmt.parts, Stmt.partsAll_append]

mutual

theorem origin_lower (c : Nat) (n : Node) :
    ∀ s ∈ Stmt.partsAll (n.lower c), Origin c (c + n.count) (n.parts c) s := by
  cases n with
  | text | output | rawTag =>
    simp only [lower, Stmt.partsAll, Stmt.parts, List.append_nil, List.mem_singleton, forall_eq]
    exact .of_plain (fun _ => id) (by simp)
  | assign target value span =>
    simp only [lower, Stmt.partsAll, Stmt.parts, List.append_nil, List.mem_singleton, forall_eq]
    exact .of_binds (by simp) fun name h => .inl ⟨_, List.mem_singleton.2 rfl, h⟩
  | inclusion args span =>
    simp only [lower, Stmt.partsAll, Stmt.parts, List.append_nil, List.mem_singleton, forall_eq]
    refine ⟨fun _ => False.elim, fun name params span' h => ?_⟩
    obtain ⟨rfl, rfl, rfl⟩ := Stmt.inclusion.inj h
    exact ⟨_, List.mem_singleton.2 rfl, args, rfl, rfl⟩
  | choice negated arms otherwise span =>
    have ha := origin_lowerArms .read negated c arms
    have ho := origin_lowerElse (c + countArms arms) otherwise
    simp only [lower, Stmt.partsAll, Stmt.parts, List.append_nil, List.mem_cons, List.mem_append,
      count, parts]
    rintro s (rfl | hs | hs)
    · exact .of_plain (fun _ => id) (by simp)
    · exact (ha s hs).mono (by omega) (by omega) (by simp)
    · exact (ho s hs).mono (by omega) (by omega) (by simp)
  | loop target items body otherwise span =>
    have hb := origin_lowerAll c body
    have ho := origin_lowerElse (c + countAll body) otherwise
    simp only [lower, Stmt.partsAll, Stmt.parts, List.append_nil, List.mem_cons, List.mem_append,
      count, parts]
    rintro s (rfl | hs | hs)
    · exact .of_binds (by simp) fun name h => .inl ⟨_, List.mem_cons_self, h⟩
    · exact (hb s hs).mono (by omega) (by omega) (by simp)
    · exact (ho s hs).mono (by omega) (by omega) (by simp)
  | select subject opening lead arms otherwise span =>
    have hl := origin_lowerAll (c + 1) lead
    have ha := origin_lowerArms (whenCondition (caseVariable (c + 1))) false
      (c + 1 + countAll lead) arms
    have ho := origin_lowerElse (c + 1 + countAll lead + countArms arms) otherwise
    simp only [mem_partsAll_select, count, parts]
    rintro s (rfl | hs | ⟨-, rfl⟩ | ⟨-, hs⟩ | hs)
    -- the variable of the case itself is the first one behind the cases before
    · refine .of_binds (by simp) fun name h => .inr ⟨c + 1, by omega, by omega, h.symm⟩
    · exact (hl s hs).mono (by omega) (by omega) (by simp)
    · exact .of_plain (fun _ => id) (by simp)
    · exact (ha s hs).mono (by omega) (by omega) fun p hp => by simp [hp]
    · exact (ho s hs).mono (by omega) (by omega) fun p hp => by simp [hp]

theorem origin_lowerAll (c : Nat) (ns : List Node) :
    ∀ s ∈ Stmt.partsAll (lowerAll c ns), Origin c (c + countAll ns) (partsAll c ns) s := by
  cases ns with
  | nil => simp [lowerAll, Stmt.partsAll]
  | cons n ns =>
    have hn := origin_lower c n
    have hr := origin_lowerAll (c + n.count) ns
    rw [lowerAll, Stmt.partsAll_append]
    intro s hs
    rcases List.mem_append.1 hs with hs | hs
    · exact (hn s hs).mono (by omega) (by simp only [countAll]; omega) (by simp [partsAll])
    · exact (hr s hs).mono (by omega) (by simp only [countAll]; omega) (by simp [partsAll])

theorem origin_lowerArms (read : List Char → Condition) (negated : Bool) (c : Nat) (as : List Arm) :
    ∀ s ∈ partsBranches (lowerArms read negated c as),
      Origin c (c + countArms as) (partsArms c as) s := by
  cases as with
  | nil => simp [lowerArms, partsBranches]
  | cons a as =>
    obtain ⟨head, body⟩ := a
    have hb := origin_lowerAll c body
    have hr := origin_lowerArms read false (c + countAll body) as
    rw [lowerArms, partsBranches]
    intro s hs
    rcases List.mem_append.1 hs with hs | hs
    · exact (hb s hs).mono (by omega) (by simp only [countArms]; omega) (by simp [partsArms])
    · exact (hr s hs).mono (by omega) (by simp only [countArms]; omega) (by simp [partsArms])

theorem origin_lowerElse (c : Nat) (o : Option (List Node)) :
    ∀ s ∈ Stmt.partsAll (lowerElse c o), Origin c (c + countElse o) (partsElse c o) s := by
  cases o with
  | none => simp [lowerElse, Stmt.partsAll]
  | some body => exact origin_lowerAll c body
termination_by structural o

end

theorem stands_lead {block : List Stmt} {c : Nat} {subject : List Char} {opening : Span}
    {lead : List Node} {arms : List Arm} {otherwise : Option (List Node)} {span : Span}
    (h : Stmt.Stands block (lowerAll (c + 1) lead)) :
    Stmt.Stands block ((select subject opening lead arms otherwise span).lower c) := by
  simpa [lower] using h.append [.assign (caseVariable (c + 1)) (.read subject) opening] _

theorem stands_rest {block : List Stmt} {c : Nat} {subject : List Char} {opening : Span}
    {lead : List Node} {arms : List Arm} {otherwise : Option (List Node)} {span : Span}
    (h : Stmt.Stands block
      (lowerElse (c + 1 + countAll lead + countArms arms) otherwise)) :
    Stmt.Stands block ((select subject opening lead arms otherwise span).lower c) := by
  cases arms with
  | nil =>
    simpa [lower] using h.append
      (.assign (caseVariable (c + 1)) (.read subject) opening :: lowerAll (c + 1) lead) []
  | cons a as =>
    refine h.of_body fun body hb => ?_
    rcases List.mem_cons.1 hb with rfl | hb <;>
    simp [lower, Stmt.bodiesAll, Stmt.bodies, Stmt.bodiesAll_append, *]

mutual

theorem stands_lower (c : Nat) (n : Node) :
    ∀ p ∈ n.parts c, Stmt.Stands (p.2.lower p.1) (n.lower c) := by
  cases n with
  | text | output | rawTag | assign | inclusion =>
    simp only [parts, List.mem_singleton, forall_eq]
    exact .refl _
  | choice negated arms otherwise span =>
    simp only [parts, List.mem_cons, List.mem_append]
    rintro p (rfl | hp | hp)
    · exact .refl _
    · obtain ⟨body, hb, h⟩ := stands_lowerArms .read negated c arms p hp
      refine h.of_body fun inner hi => ?_
      simp [lower, Stmt.bodiesAll, Stmt.bodies, hb hi]
    · refine (stands_lowerElse (c + countArms arms) otherwise p hp).of_body fun inner hi => ?_
      rcases List.mem_cons.1 hi with rfl | hi <;>
      simp [lower, Stmt.bodiesAll, Stmt.bodies, *]
  | loop target items body otherwise span =>
    simp only [parts, List.mem_cons, List.mem_append]
    rintro p (rfl | hp | hp)
    · exact .refl _
    · refine (stands_lowerAll c body p hp).of_body fun inner hi => ?_
      rcases List.mem_cons.1 hi with rfl | hi <;>
      simp [lower, Stmt.bodiesAll, Stmt.bodies, *]
    · refine (stands_lowerElse (c + countAll body) otherwise p hp).of_body fun inner hi => ?_
      rcases List.mem_cons.1 hi with rfl | hi <;>
      simp [lower, Stmt.bodiesAll, Stmt.bodies, *]
  | select subject opening lead arms otherwise span =>
    simp only [parts, List.mem_cons, List.mem_append]
    rintro p (rfl | (hp | hp) | hp)
    · exact .refl _
    · exact stands_lead (stands_lowerAll (c + 1) lead p hp)
    · obtain ⟨body, hb, h⟩ := stands_lowerArms (whenCondition (caseVariable (c + 1))) false
        (c + 1 + countAll lead) arms p hp
      refine h.of_body fun inner hi => ?_
      cases arms with
      | nil => exact absurd hp List.not_mem_nil
      | cons a as => simp [lower, Stmt.bodiesAll, Stmt.bodies, Stmt.bodiesAll_append, hb hi]
    · exact stands_rest (stands_lowerElse (c + 1 + countAll lead + countArms arms) otherwise p hp)

theorem stands_lowerAll (c : Nat) (ns : List Node) :
    ∀ p ∈ partsAll c ns, Stmt.Stands (p.2.lower p.1) (lowerAll c ns) := by
  cases ns with
  | nil => simp [partsAll]
  | cons n ns =>
    intro p hp
    rcases List.mem_append.1 hp with hp | hp
    · exact (stands_lower c n p hp).append [] (lowerAll (c + n.count) ns)
    · simpa [lowerAll] using (stands_lowerAll (c + n.count) ns p hp).append (n.lower c) []

theorem stands_lowerArms (read : List Char → Condition) (negated : Bool) (c : Nat) (as : List Arm) :
    ∀ p ∈ partsArms c as, ∃ body,
      body :: Stmt.bodiesAll body ⊆ Stmt.bodiesBranches (lowerArms read negated c as) ∧
        Stmt.Stands (p.2.lower p.1) body := by
  cases as with
  | nil => simp [partsArms]
  | cons a as =>
    obtain ⟨head, body⟩ := a
    intro p hp
    rcases List.mem_append.1 hp with hp | hp
    · exact ⟨_, by simp [lowerArms, Stmt.bodiesBranches], stands_lowerAll c body p hp⟩
    · obtain ⟨inner, hi, h⟩ := stands_lowerArms read false (c + countAll body) as p hp
      refine ⟨inner, fun b hb => ?_, h⟩
      simp [lowerArms, Stmt.bodiesBranches, hi hb]

theorem stands_lowerElse (c : Nat) (o : Option (List Node)) :
    ∀ p ∈ partsElse c o, Stmt.Stands (p.2.lower p.1) (lowerElse c o) := by
  cases o with
  | none => simp [partsElse]
  | some body => exact stands_lowerAll c body
termination_by structural o

end

end Node

end Stencil

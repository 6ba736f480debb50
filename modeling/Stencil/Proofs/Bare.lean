import Stencil.Proofs.Draft

/-! Trees and statements without their spans. Neither building nor lowering a tree looks at a span,
so a row of tokens makes the same tree wherever its tokens stand. -/

namespace Stencil

open Markup (Span Token)

namespace Stmt

mutual

def bare : Stmt → Stmt
  | text raw _ => .text raw .none
  | output e _ => .output e .none
  | rawTag raw _ => .rawTag raw .none
  | choice branches otherwise _ => .choice (bareBranches branches) (bareAll otherwise) .none
  | loop target items body otherwise _ =>
    .loop target items (bareAll body) (bareAll otherwise) .none
  | assign target e _ => .assign target e .none
  | inclusion name params _ => .inclusion name params .none

def bareAll : List Stmt → List Stmt
  | [] => []
  | s :: ss => s.bare :: bareAll ss

def bareBranches : List Branch → List Branch
  | [] => []
  | .mk condition negated body :: bs => .mk condition negated (bareAll body) :: bareBranches bs

end

@[simp] theorem bareAll_append (as bs : List Stmt) :
    bareAll (as ++ bs) = bareAll as ++ bareAll bs := by
  induction as with
  | nil => simp [bareAll]
  | cons a as ih => simp [bareAll, ih]

end Stmt

namespace Node

mutual

def bare : Node → Node
  | text s _ => .text s .none
  | output e _ => .output e .none
  | rawTag body raw _ => .rawTag body raw .none
  | assign target value _ => .assign target value .none
  | inclusion args _ => .inclusion args .none
  | choice negated arms otherwise _ => .choice negated (bareArms arms) (bareElse otherwise) .none
  | loop target items body otherwise _ =>
    .loop target items (bareAll body) (bareElse otherwise) .none
  | select subject _ lead arms otherwise _ =>
    .select subject .none (bareAll lead) (bareArms arms) (bareElse otherwise) .none

def bareAll : List Node → List Node
  | [] => []
  | n :: ns => n.bare :: bareAll ns

def bareArms : List Arm → List Arm
  | [] => []
  | .mk head body :: as => .mk head (bareAll body) :: bareArms as

def bareElse : Option (List Node) → Option (List Node)
  | none => none
  | some body => some (bareAll body)
termination_by structural o => o

end

theorem bareAll_eq_map (ns : List Node) : bareAll ns = ns.map bare := by
  induction ns with
  | nil => rfl
  | cons n ns ih => simp [bareAll, ih]

theorem bareArms_append (as bs : List Arm) :
    bareArms (as ++ bs) = bareArms as ++ bareArms bs := by
  induction as with
  | nil => rfl
  | cons a as ih => cases a; simp [bareArms, ih]

@[simp] theorem bareAll_reverse (ns : List Node) : bareAll ns.reverse = (bareAll ns).reverse := by
  simp [bareAll_eq_map]

@[simp] theorem bareArms_reverse (as : List Arm) :
    bareArms as.reverse = (bareArms as).reverse := by
  induction as with
  | nil => rfl
  | cons a as ih => cases a; simp [bareArms, bareArms_append, ih]

mutual

theorem count_bare (n : Node) : n.bare.count = n.count := by
  cases n with
  | choice negated arms otherwise span =>
    simp [bare, count, countArms_bare arms, countElse_bare otherwise]
  | loop target items body otherwise span =>
    simp [bare, count, countAll_bare body, countElse_bare otherwise]
  | select subject opening lead arms otherwise span =>
    simp [bare, count, countAll_bare lead, countArms_bare arms, countElse_bare otherwise]
  | _ => rfl

theorem countAll_bare (ns : List Node) : countAll (bareAll ns) = countAll ns := by
  cases ns with
  | nil => rfl
  | cons n ns => simp [bareAll, countAll, count_bare n, countAll_bare ns]

theorem countArms_bare (as : List Arm) : countArms (bareArms as) = countArms as := by
  cases as with
  | nil => rfl
  | cons a as =>
    obtain ⟨head, body⟩ := a
    simp [bareArms, countArms, countAll_bare body, countArms_bare as]

theorem countElse_bare (o : Option (List Node)) : countElse (bareElse o) = countElse o := by
  cases o with
  | none => rfl
  | some body => simp [bareElse, countElse, countAll_bare body]
termination_by structural o

end

mutual

theorem bareAll_lower (c : Nat) (n : Node) : Stmt.bareAll (n.lower c) = n.bare.lower c := by
  cases n with
  | choice negated arms otherwise span =>
    simp [lower, bare, Stmt.bareAll, Stmt.bare, bareBranches_lowerArms _ _ _ arms,
      bareAll_lowerElse _ otherwise, countArms_bare]
  | loop target items body otherwise span =>
    simp [lower, bare, Stmt.bareAll, Stmt.bare, bareAll_lowerAll _ body,
      bareAll_lowerElse _ otherwise, countAll_bare]
  | select subject opening lead arms otherwise span =>
    have hb := bareAll_lowerAll (c + 1) lead
    have he := bareAll_lowerElse (c + 1 + countAll lead + countArms arms) otherwise
    cases arms with
    | nil => simp [lower, bare, Stmt.bareAll, Stmt.bare, bareArms, countAll_bare, hb, he]
    | cons a as =>
      have ha := bareBranches_lowerArms (whenCondition (Builder.caseVariable (c + 1))) false
        (c + 1 + countAll lead) (a :: as)
      obtain ⟨head, body⟩ := a
      have hc := countArms_bare (.mk head body :: as)
      simp only [bareArms] at ha hc
      simp [lower, bare, Stmt.bareAll, Stmt.bare, bareArms, countAll_bare, hb, he, ha, hc]
  | _ => rfl

theorem bareAll_lowerAll (c : Nat) (ns : List Node) :
    Stmt.bareAll (lowerAll c ns) = lowerAll c (bareAll ns) := by
  cases ns with
  | nil => rfl
  | cons n ns => simp [lowerAll, bareAll, bareAll_lower c n, bareAll_lowerAll _ ns, count_bare]

theorem bareBranches_lowerArms (read : List Char → Condition) (negated : Bool) (c : Nat)
    (as : List Arm) :
    Stmt.bareBranches (lowerArms read negated c as) = lowerArms read negated c (bareArms as) := by
  cases as with
  | nil => rfl
  | cons a as =>
    obtain ⟨head, body⟩ := a
    simp [lowerArms, bareArms, Stmt.bareBranches, bareAll_lowerAll c body,
      bareBranches_lowerArms read false _ as, countAll_bare]

theorem bareAll_lowerElse (c : Nat) (o : Option (List Node)) :
    Stmt.bareAll (lowerElse c o) = lowerElse c (bareElse o) := by
  cases o with
  | none => rfl
  | some body => simp [lowerElse, bareElse, bareAll_lowerAll c body]
termination_by structural o

end

end Node

namespace Draft

open Node (bareAll bareArms)

def Part.bare : Part → Part
  | branch _ negated done condition => .branch .none negated (bareArms done) condition
  | branchElse _ negated done => .branchElse .none negated (bareArms done)
  | loop _ target items => .loop .none target items
  | loopElse _ target items body => .loopElse .none target items (bareAll body)
  | lead _ subject => .lead .none subject
  | arm _ subject before _ done values =>
    .arm .none subject (bareAll before) .none (bareArms done) values
  | caseElse _ subject before _ done =>
    .caseElse .none subject (bareAll before) .none (bareArms done)

namespace Frame

def bare (f : Frame) : Frame := ⟨f.part.bare, bareAll f.body⟩

theorem bare_finish (f : Frame) (last : Span) :
    (f.finish last).bare = f.bare.finish .none := by
  obtain ⟨part, body⟩ := f
  cases part <;>
    simp [finish, bare, Part.bare, Node.bare, bareArms, Node.bareElse, Node.bareArms_append,
      Span.upTo, Span.none]

theorem turn?_bare (f : Frame) (tag : Tag) (span : Span) :
    f.bare.turn? tag .none = (f.turn? tag span).map Part.bare := by
  obtain ⟨part, body⟩ := f
  cases part <;> cases tag <;> simp [turn?, bare, Part.bare, bareArms]

theorem endsAt_bare (f : Frame) (tag : Tag) : f.bare.endsAt tag = f.endsAt tag := by
  obtain ⟨part, body⟩ := f
  cases part <;> cases tag <;> rfl

end Frame

def bare (d : Draft) : Draft := ⟨bareAll d.root, d.frames.map Frame.bare, d.skipping, .none⟩

theorem bare_push (d : Draft) (n : Node) : (d.push n).bare = d.bare.push n.bare := by
  obtain ⟨root, frames, skipping, last⟩ := d
  cases frames <;> simp [push, bare, Frame.bare, bareAll]

theorem bare_leave (d : Draft) : d.leave.bare = d.bare.leave := by
  obtain ⟨root, frames, skipping, last⟩ := d
  cases frames with
  | nil => rfl
  | cons f fs => simp only [leave, bare_push, Frame.bare_finish]; rfl

theorem bare_openTag (d : Draft) (tag : Tag) (span : Span) :
    (d.openTag tag span).bare = d.bare.openTag tag .none := by
  have hl : d.bare.frames.length = d.frames.length := List.length_map _
  unfold openTag
  rw [hl]
  split
  · rfl
  · cases tag <;> rfl

theorem bare_plainTag (d : Draft) (tag : Tag) (body raw : List Char) (span : Span) :
    (d.plainTag tag body raw span).bare = d.bare.plainTag tag body raw .none := by
  cases tag <;> first | rfl | exact bare_push _ _ | exact bare_openTag _ _ _

theorem bare_tag (d : Draft) (tag : Tag) (body raw : List Char) (span : Span) :
    (d.tag tag body raw span).bare = d.bare.tag tag body raw .none := by
  have hp := bare_plainTag d tag body raw span
  have hv := bare_leave d
  obtain ⟨root, frames, skipping, last⟩ := d
  cases frames with
  | nil => exact hp
  | cons f fs =>
    simp only [Draft.tag, bare, List.map_cons, Frame.turn?_bare f tag span, Frame.endsAt_bare]
    cases f.turn? tag span with
    | some part => rfl
    | none =>
      simp only [Option.map_none]
      split
      · exact hv
      · exact hp

theorem bare_skip (d : Draft) (t : Token) : (d.skip t).bare = d.bare.skip t := by
  cases t with
  | tag body raw =>
    simp only [skip]
    split
    · rfl
    · split <;> rfl
  | _ => rfl

theorem bare_step (d : Draft) (t : Token) (span : Span) :
    (d.step (t, span)).bare = d.bare.step (t, .none) := by
  have hs : d.bare.skipping = d.skipping := rfl
  simp only [step, hs]
  split
  · exact bare_skip _ _
  · cases t with
    | text s => exact bare_push _ _
    | output body => exact bare_push _ _
    | tag body raw => exact bare_tag _ _ _ _ _

theorem bare_leaveAll (d : Draft) : d.leaveAll.bare = d.bare.leaveAll := by
  have h (fs : List Frame) (e : Draft) :
      (fs.foldl (fun e _ => e.leave) e).bare =
        (fs.map Frame.bare).foldl (fun e _ => e.leave) e.bare := by
    induction fs generalizing e with
    | nil => rfl
    | cons f fs ih => rw [List.foldl_cons, List.map_cons, List.foldl_cons, ih, bare_leave]
  exact h d.frames d

theorem bare_foldl_step (ts : List (Token × Span)) (d : Draft) :
    (ts.foldl step d).bare = (ts.map fun t => (t.1, Span.none)).foldl step d.bare := by
  induction ts generalizing d with
  | nil => rfl
  | cons t ts ih => rw [List.foldl_cons, ih, bare_step, List.map_cons, List.foldl_cons]

end Draft

theorem Template.bareAll_ofTokens (ts : List (Token × Span)) :
    Stmt.bareAll (ofTokens ts).children =
      Node.lowerAll 0
        ((ts.map fun t => (t.1, Span.none)).foldl Draft.step .empty).leaveAll.root.reverse := by
  have hb : (ts.foldl Draft.step .empty).leaveAll.bare =
      ((ts.map fun t => (t.1, Span.none)).foldl Draft.step .empty).leaveAll := by
    rw [Draft.bare_leaveAll, Draft.bare_foldl_step]
    rfl
  rw [children_ofTokens, Node.bareAll_lowerAll, Node.bareAll_reverse, ← hb]
  rfl

/-- The same tokens make the same statements up to spans, wherever they stand. -/
theorem Template.bareAll_ofTokens_congr {ts ts' : List (Token × Span)}
    (h : ts.map (·.1) = ts'.map (·.1)) :
    Stmt.bareAll (ofTokens ts).children = Stmt.bareAll (ofTokens ts').children := by
  have hm : ∀ us : List (Token × Span),
      us.map (fun t => (t.1, Span.none)) = (us.map (·.1)).map fun t => (t, Span.none) := by simp
  rw [bareAll_ofTokens, bareAll_ofTokens, hm, hm, h]

end Stencil

import Stencil.Condition.Eval
import Stencil.Proofs.Frame

/-! What a case does. Its statements run what stands before its first when, and then the body of the
first when that accepts what the variable of the case holds. As no two cases of a template share
their variable, it still holds the value of the case there, unless an include took it over. -/

namespace Stencil

open Calendar (Instant)
open Markup (Span)
open Builder (caseVariable)
open Render (andThen andThen_ok andThen_error)

variable {now : Instant} {template : String} {load : String → Render String}

namespace Builder

def casePrefix : List Char := "__case_".toList

theorem prefix_caseVariable (n : Nat) : casePrefix <+: (caseVariable n).toList :=
  ⟨_, String.toList_append.symm⟩

theorem caseVariable_injective {m n : Nat} (h : caseVariable m = caseVariable n) : m = n := by
  have hd : Nat.toDigits 10 m = Nat.toDigits 10 n := by
    simpa [caseVariable] using congrArg String.toList h
  rw [← Nat.ofDigitChars_ten_toDigits (n := m), hd, Nat.ofDigitChars_ten_toDigits]

theorem caseVariable_ne {n : Nat} {name : String} (h : ¬ casePrefix <+: name.toList) :
    caseVariable n ≠ name := by
  rintro rfl
  exact h (prefix_caseVariable n)

theorem caseVariable_ne_forloop (n : Nat) : caseVariable n ≠ "forloop" :=
  caseVariable_ne (by decide)

theorem caseVariable_ne_include (n : Nat) : caseVariable n ≠ "include" :=
  caseVariable_ne (by decide)

end Builder

open Builder (casePrefix)

namespace Arm

/-- the values of a when: its text is split at commas and these pieces at each or -/
def values : Arm → List Expr
  | mk head _ =>
    ((Text.splitArguments head).flatMap (Text.splitKeyword "or".toList)).map Expr.read

def accepts (now : Instant) (ctx : Context) (v : Value) (a : Arm) : Bool :=
  a.values.any fun e => v == e.eval now ctx

end Arm

theorem holds_whenCondition (name : String) (head : List Char) (body : List Node) (ctx : Context) :
    (whenCondition name head).holds now ctx =
      (Arm.mk head body).accepts now ctx (ctx.resolve [name]) := by
  simp [whenCondition, Condition.holds, Condition.oneOf, Arm.accepts, Arm.values, Clause.holds,
    Comparison.holds, Expr.var, Expr.eval, Function.comp_def]

namespace Node

/-- The body that a case takes, whose whens begin behind `c` cases: that of the first of them that
accepts, or else what is left. -/
inductive Takes (accepts : Arm → Bool) (c : Nat) (arms : List Arm) (otherwise : Option (List Node)) :
    List Stmt → Prop
  | arm {before after : List Arm} {head : List Char} {body : List Node}
      (split : arms = before ++ .mk head body :: after) (first : ∀ a ∈ before, accepts a = false)
      (accepted : accepts (.mk head body) = true) :
      Takes accepts c arms otherwise (lowerAll (c + countArms before) body)
  | rest (none : ∀ a ∈ arms, accepts a = false) :
      Takes accepts c arms otherwise (lowerElse (c + countArms arms) otherwise)

section

variable {accepts : Arm → Bool} {c : Nat} {arms : List Arm} {otherwise : Option (List Node)}
  {head : List Char} {body : List Node}

theorem Takes.of_accepts (ha : accepts (.mk head body) = true) :
    Takes accepts c (.mk head body :: arms) otherwise (lowerAll c body) := by
  have h : Takes accepts c ([] ++ .mk head body :: arms) otherwise
      (lowerAll (c + countArms []) body) := .arm rfl (by simp) ha
  exact h

theorem Takes.cons {ss : List Stmt} (ha : accepts (.mk head body) = false)
    (h : Takes accepts (c + countAll body) arms otherwise ss) :
    Takes accepts c (.mk head body :: arms) otherwise ss := by
  cases h with
  | @arm before after head' body' split first accepted =>
    have h : Takes accepts c (.mk head body :: arms) otherwise
        (lowerAll (c + countArms (.mk head body :: before)) body') :=
      .arm (congrArg (Arm.mk head body :: ·) split) (by simpa [ha] using first) accepted
    rwa [countArms, ← Nat.add_assoc] at h
  | rest none =>
    have h : Takes accepts c (.mk head body :: arms) otherwise
        (lowerElse (c + countArms (.mk head body :: arms)) otherwise) :=
      .rest (by simpa [ha] using none)
    rwa [countArms, ← Nat.add_assoc] at h

theorem Takes.of_cons {ss : List Stmt} (h : Takes accepts c (.mk head body :: arms) otherwise ss) :
    (accepts (.mk head body) = true ∧ ss = lowerAll c body) ∨
      (accepts (.mk head body) = false ∧ Takes accepts (c + countAll body) arms otherwise ss) := by
  cases h with
  | @arm before after head' body' split first accepted =>
    cases before with
    | nil =>
      cases split
      exact .inl ⟨accepted, rfl⟩
    | cons b before =>
      cases split
      refine .inr ⟨first _ List.mem_cons_self, ?_⟩
      rw [countArms, ← Nat.add_assoc]
      exact .arm rfl (fun a ha => first a (List.mem_cons_of_mem _ ha)) accepted
  | rest none =>
    refine .inr ⟨none _ List.mem_cons_self, ?_⟩
    rw [countArms, ← Nat.add_assoc]
    exact .rest fun a ha => none a (List.mem_cons_of_mem _ ha)

end

theorem Takes.unique {accepts : Arm → Bool} {arms : List Arm} {otherwise : Option (List Node)}
    {ss ss' : List Stmt} :
    ∀ {c}, Takes accepts c arms otherwise ss → Takes accepts c arms otherwise ss' → ss = ss' := by
  induction arms with
  | nil =>
    intro c h h'
    rcases h with ⟨split, -, -⟩ | -
    · simp at split
    · rcases h' with ⟨split, -, -⟩ | -
      · simp at split
      · rfl
  | cons a arms ih =>
    intro c h h'
    obtain ⟨head, body⟩ := a
    rcases h.of_cons with ⟨ha, rfl⟩ | ⟨ha, h⟩
    · rcases h'.of_cons with ⟨-, rfl⟩ | ⟨ha', -⟩
      · rfl
      · rw [ha] at ha'
        cases ha'
    · rcases h'.of_cons with ⟨ha', -⟩ | ⟨-, h'⟩
      · rw [ha] at ha'
        cases ha'
      · exact ih h h'

variable (now : Instant) (template : String) (load : String → Render String)

theorem exists_takes (name : String) (ctx : Context) (arms : List Arm)
    (otherwise : Option (List Node)) :
    ∀ c, ∃ body, Takes (·.accepts now ctx (ctx.resolve [name])) c arms otherwise body ∧
      Stmt.runBranches now template load
        (Stmt.runAll now template load (lowerElse (c + countArms arms) otherwise))
        (lowerArms (whenCondition name) false c arms) ctx = Stmt.runAll now template load body ctx := by
  induction arms with
  | nil => exact fun c => ⟨_, .rest (by simp), rfl⟩
  | cons a arms ih =>
    intro c
    obtain ⟨head, body⟩ := a
    simp only [lowerArms, Stmt.runBranches, holds_whenCondition name head body, Bool.bne_false]
    rcases ha : (Arm.mk head body).accepts now ctx (ctx.resolve [name]) with _ | _
    · obtain ⟨ss, ht, hr⟩ := ih (c + countAll body)
      refine ⟨ss, ht.cons ha, ?_⟩
      rw [if_neg Bool.false_ne_true, ← hr, countArms, Nat.add_assoc]
    · exact ⟨_, .of_accepts ha, by rw [if_pos rfl]⟩

theorem runAll_select (c : Nat) (subject : List Char) (opening : Span) (lead : List Node)
    (arms : List Arm) (otherwise : Option (List Node)) (span : Span) (ctx : Context) :
    Stmt.runAll now template load ((select subject opening lead arms otherwise span).lower c) ctx =
      andThen (Stmt.runAll now template load (lowerAll (c + 1) lead))
        (Stmt.runBranches now template load
          (Stmt.runAll now template load
            (lowerElse (c + 1 + countAll lead + countArms arms) otherwise))
          (lowerArms (whenCondition (caseVariable (c + 1))) false (c + 1 + countAll lead) arms))
        (ctx.insert (caseVariable (c + 1)) ((Expr.read subject).eval now ctx)) := by
  have ha : Stmt.run now template load (.assign (caseVariable (c + 1)) (.read subject) opening) ctx =
      (.ok "", ctx.insert (caseVariable (c + 1)) ((Expr.read subject).eval now ctx)) := rfl
  rw [lower, List.cons_append, Stmt.runAll, andThen_ok ha, Stmt.runAll_append]
  have hw : ∀ whens rest, arms.isEmpty = whens.isEmpty →
      Stmt.runAll now template load (if arms.isEmpty then rest else [.choice whens rest span]) =
        Stmt.runBranches now template load (Stmt.runAll now template load rest) whens := by
    intro whens rest he
    cases whens with
    | nil => simp [he, Stmt.runBranches]
    | cons b bs => simp [he, Stmt.runAll, Stmt.run]
  have he : ∀ read, arms.isEmpty = (lowerArms read false (c + 1 + countAll lead) arms).isEmpty := by
    rcases arms with _ | ⟨⟨head, body⟩, arms⟩ <;> simp [lowerArms]
  rw [hw _ _ (he _), Render.map_empty_append]

/-- What a step gives that fails as its first part does, or else runs statements that may come next
and writes their text behind that of the first part. -/
inductive Continues (run : List Stmt → Render String) (next : Context → List Stmt → Prop) :
    Except Error String × Context → Except Error String × Context → Prop
  | fail (e : Error) (mid : Context) : Continues run next (.error e, mid) (.error e, mid)
  | body {first : String} {mid : Context} {ss : List Stmt} (h : next mid ss) :
      Continues run next (.ok first, mid) ((run ss mid).1.map (first ++ ·), (run ss mid).2)

theorem run_select (c : Nat) (subject : List Char) (opening : Span) (lead : List Node)
    (arms : List Arm) (otherwise : Option (List Node)) (span : Span) (ctx : Context) :
    let k := caseVariable (c + 1)
    let run := Stmt.runAll now template load
    Continues run
      (fun mid => Takes (·.accepts now mid (mid.resolve [k])) (c + 1 + countAll lead) arms otherwise)
      (run (lowerAll (c + 1) lead) (ctx.insert k ((Expr.read subject).eval now ctx)))
      (run ((select subject opening lead arms otherwise span).lower c) ctx) := by
  intro k run
  have hb : run ((select subject opening lead arms otherwise span).lower c) ctx = _ :=
    runAll_select now template load c subject opening lead arms otherwise span ctx
  rw [hb]
  rcases h : run (lowerAll (c + 1) lead) (ctx.insert k ((Expr.read subject).eval now ctx)) with
    ⟨e | first, mid⟩
  · rw [andThen_error h]
    exact .fail e mid
  · obtain ⟨body, ht, hr⟩ := exists_takes now template load k mid arms otherwise
      (c + 1 + countAll lead)
    rw [andThen_ok h, hr]
    exact .body ht

theorem Continues.imp {run : List Stmt → Render String} {next next' : Context → List Stmt → Prop}
    {r r' : Except Error String × Context} (h : Continues run next r r')
    (hn : ∀ ss, next r.2 ss → next' r.2 ss) : Continues run next' r r' := by
  cases h with
  | fail e mid => exact .fail e mid
  | body h => exact .body (hn _ h)

/-- No node binds a variable that is named like those of cases. -/
def SparesCases (ps : List (Nat × Node)) : Prop :=
  ∀ p ∈ ps, ∀ name, p.2.Binds name → ¬ casePrefix <+: name.toList

theorem not_binds_caseVariable {c : Nat} {ns : List Node} (h : SparesCases (partsAll (c + 1) ns))
    {s : Stmt} (hs : s ∈ Stmt.partsAll (lowerAll (c + 1) ns)) : ¬ s.Binds (caseVariable (c + 1)) := by
  intro hb
  rcases (origin_lowerAll (c + 1) ns s hs).binds _ hb with ⟨p, hp, hb⟩ | ⟨m, hm, -, he⟩
  · exact h p hp _ hb (Builder.prefix_caseVariable _)
  · -- the cases inside have greater numbers than the case they stand in
    have := Builder.caseVariable_injective he
    omega

theorem resolve_lead {c : Nat} {lead : List Node} (hb : SparesCases (partsAll (c + 1) lead))
    (hi : ∀ p ∈ partsAll (c + 1) lead, ∀ args span, p.2 = .inclusion args span →
      Render.Keeps (·.get? (caseVariable (c + 1))) (load (Parameter.readInclude args).1))
    (ctx : Context) (v : Value) :
    (Stmt.runAll now template load (lowerAll (c + 1) lead)
      (ctx.insert (caseVariable (c + 1)) v)).2.resolve [caseVariable (c + 1)] = v := by
  have hk : Render.Keeps (·.get? (caseVariable (c + 1)))
      (Stmt.runAll now template load (lowerAll (c + 1) lead)) := by
    refine Stmt.keeps_runAll _ fun s hs => ?_
    refine Stmt.spares_get? (not_binds_caseVariable hb hs) (Builder.caseVariable_ne_forloop _) ?_
    rintro name params span rfl
    obtain ⟨p, hp, args, he, hr⟩ := (origin_lowerAll (c + 1) lead _ hs).inclusion name params span rfl
    have hl := hi p hp args span he
    rw [hr] at hl
    exact ⟨Builder.caseVariable_ne_include _, hl⟩
  exact (Context.resolve_congr (hk _)).trans (Context.resolve_insert ctx _ v)

/-- Behind the leading statements of a case its variable is as their last include left it. -/
theorem resolve_left {c : Nat} {lead : List Node} (hb : SparesCases (partsAll (c + 1) lead))
    (ctx : Context) :
    (Stmt.runAll now template load (lowerAll (c + 1) lead) ctx).2.resolve [caseVariable (c + 1)] =
      ((Stmt.leftAll now template load (lowerAll (c + 1) lead) ctx).getLast?.getD ctx).resolve
        [caseVariable (c + 1)] := by
  have hf : ∀ {name : String}, caseVariable (c + 1) ≠ name →
      Context.Ignores (·.resolve [caseVariable (c + 1)]) name := Context.ignores_resolve
  have hl := hf (Builder.caseVariable_ne_forloop (c + 1))
  refine Stmt.follows_runAll _ (fun s hs name hn => hf ?_) hl ctx
  rintro rfl
  exact not_binds_caseVariable hb hs hn

theorem stands_of_mem {source : String} {c : Nat} {n : Node}
    (h : (c, n) ∈ partsAll 0 (Template.tree source.toList)) :
    Stmt.Stands (n.lower c) (Template.parse source).children := by
  rw [Template.parse, Template.children_read]
  exact stands_lowerAll 0 _ _ h

end Node

namespace Template

variable {source : String} {c : Nat} {subject : List Char} {opening span : Span}
  {lead : List Node} {arms : List Arm} {otherwise : Option (List Node)}

/-- A case whose leading statements hold no include runs these, and then the body that it takes for
the value that it had to begin with. -/
theorem run_case
    (hn : (c, .select subject opening lead arms otherwise span) ∈
      Node.partsAll 0 (Template.tree source.toList))
    (hi : ∀ p ∈ Node.partsAll (c + 1) lead, ∀ args at', p.2 ≠ .inclusion args at')
    (hb : Node.SparesCases (Node.partsAll (c + 1) lead)) :
    let stmts := (Node.select subject opening lead arms otherwise span).lower c
    Stmt.Stands stmts (Template.parse source).children ∧
      ∀ (now : Instant) (template : String) (load : String → Render String) (ctx : Context),
        let run := Stmt.runAll now template load
        let v := (Expr.read subject).eval now ctx
        Node.Continues run
          (fun mid => Node.Takes (·.accepts now mid v) (c + 1 + Node.countAll lead) arms otherwise)
          (run (Node.lowerAll (c + 1) lead) (ctx.insert (caseVariable (c + 1)) v))
          (run stmts ctx) := by
  refine ⟨Node.stands_of_mem hn, fun now template load ctx => ?_⟩
  have hv := Node.resolve_lead now template load hb
    (fun p hp args at' he => absurd he (hi p hp args at')) ctx ((Expr.read subject).eval now ctx)
  have hr := Node.run_select now template load c subject opening lead arms otherwise span ctx
  refine hr.imp fun ss h => ?_
  rwa [hv] at h

/-- a case in front of the first when of another one -/
theorem run_case_nested :
    let at' (a b : Nat) : Span := ⟨⟨1, a, a⟩, ⟨1, b, b⟩⟩
    let inner : Node :=
      .select ['y'] (at' 12 24) [] [.mk ['1'] [.text ['a'] (at' 36 37)]] none (at' 24 50)
    let arms : List Arm := [.mk "1, 2".toList [.text ['A'] (at' 65 66)]]
    let rest : List Node := [.text ['B'] (at' 76 77)]
    let block : Node := .select ['x'] (at' 0 12) [inner] arms (some rest) (at' 50 90)
    let source := "{% case x %}{% case y %}{% when 1 %}a{% endcase %}" ++
      "{% when 1, 2 %}A{% else %}B{% endcase %}"
    (0, block) ∈ Node.partsAll 0 (tree source.toList) ∧
      (∀ p ∈ Node.partsAll 1 [inner], ∀ args at', p.2 ≠ .inclusion args at') ∧
      Node.SparesCases (Node.partsAll 1 [inner]) ∧
      ∀ (now : Instant) (template : String) (load : String → Render String) (ctx : Context),
        let run := Stmt.runAll now template load
        let v := (Expr.read ['x']).eval now ctx
        Node.Continues run (fun mid => Node.Takes (·.accepts now mid v) 2 arms (some rest))
          (run (Node.lowerAll 1 [inner]) (ctx.insert (caseVariable 1) v))
          (run (block.lower 0) ctx) := by
  intro at' inner arms rest block source
  have ht : tree source.toList = [block] := Node.eq_of_sameAll _ _ (by decide +kernel)
  have hn : (0, block) ∈ Node.partsAll 0 (tree source.toList) := by
    rw [ht]
    exact List.mem_cons_self
  have hi : ∀ p ∈ Node.partsAll 1 [inner], ∀ args at', p.2 ≠ .inclusion args at' := by
    simp [inner, Node.partsAll, Node.parts, Node.partsArms, Node.partsElse]
  have hb : Node.SparesCases (Node.partsAll 1 [inner]) := by
    simp [inner, Node.SparesCases, Node.partsAll, Node.parts, Node.partsArms, Node.partsElse,
      Node.Binds]
  exact ⟨hn, hi, hb, (run_case hn hi hb).2⟩

/-- A case compares what its variable holds behind its leading statements. That is its own value
unless the last include there left another one, which takes a tag in an include that binds the
variable. -/
theorem run_case_of_includes
    (hn : (c, .select subject opening lead arms otherwise span) ∈
      Node.partsAll 0 (Template.tree source.toList))
    (hb : Node.SparesCases (Node.partsAll (c + 1) lead)) :
    let stmts := (Node.select subject opening lead arms otherwise span).lower c
    let k := caseVariable (c + 1)
    Stmt.Stands stmts (Template.parse source).children ∧
      ∀ (env : Environment) (left : Nat) (now : Instant) (template : String) (ctx : Context),
        let run := Stmt.runAll now template (env.load now left)
        let v := (Expr.read subject).eval now ctx
        let start := ctx.insert k v
        let leading := Node.lowerAll (c + 1) lead
        let compared := (run leading start).2.resolve [k]
        Node.Continues run
            (fun mid => Node.Takes (·.accepts now mid compared) (c + 1 + Node.countAll lead) arms
              otherwise)
            (run leading start) (run stmts ctx) ∧
          (compared = v ↔
            ∀ last ∈ (Stmt.leftAll now template (env.load now left) leading start).getLast?,
              last.resolve [k] = v) ∧
          ((∀ p ∈ Node.partsAll (c + 1) lead, ∀ args at', p.2 = .inclusion args at' →
              env.LeavesAlone k left (Parameter.readInclude args).1) →
            compared = v) := by
  intro stmts k
  refine ⟨Node.stands_of_mem hn, fun env left now template ctx => ?_⟩
  intro run v start leading compared
  refine ⟨?_, ?_, fun ha => Node.resolve_lead _ _ _ hb (fun p hp args at' he => ?_) ctx v⟩
  · have hr := Node.run_select now template (env.load now left) c subject opening lead arms
      otherwise span ctx
    exact hr.imp fun ss h => h
  · have hl : compared = _ := Node.resolve_left now template (env.load now left) hb start
    have hs : start.resolve [k] = v := Context.resolve_insert ctx k v
    rw [hl]
    rcases (Stmt.leftAll now template (env.load now left) leading start).getLast? with _ | last
    · simpa using hs
    · simp [k]
  · exact Environment.keeps_load (Builder.caseVariable_ne_forloop _)
      (Builder.caseVariable_ne_include _) (ha p hp args at' he)

/-- an include in front of the first when of a case -/
theorem run_case_of_one_include :
    let at' (a b : Nat) : Span := ⟨⟨1, a, a⟩, ⟨1, b, b⟩⟩
    let lead : List Node := [.inclusion ['a'] (at' 12 27)]
    let arms : List Arm := [.mk ['1'] [.text ['A'] (at' 39 40)]]
    let rest : List Node := [.text ['B'] (at' 50 51)]
    let block : Node := .select ['x'] (at' 0 12) lead arms (some rest) (at' 27 64)
    let source := "{% case x %}{% include a %}{% when 1 %}A{% else %}B{% endcase %}"
    (0, block) ∈ Node.partsAll 0 (tree source.toList) ∧
      Node.SparesCases (Node.partsAll 1 lead) ∧
      ∀ (env : Environment) (left : Nat) (now : Instant) (template : String) (ctx : Context),
        let v := (Expr.read ['x']).eval now ctx
        let start := ctx.insert (caseVariable 1) v
        let leading := Node.lowerAll 1 lead
        ((Stmt.runAll now template (env.load now left) leading start).2.resolve [caseVariable 1] = v ↔
          ∀ last ∈ (Stmt.leftAll now template (env.load now left) leading start).getLast?,
            last.resolve [caseVariable 1] = v) := by
  intro at' lead arms rest block source
  have ht : tree source.toList = [block] := Node.eq_of_sameAll _ _ (by decide +kernel)
  have hn : (0, block) ∈ Node.partsAll 0 (tree source.toList) := by
    rw [ht]
    exact List.mem_cons_self
  have hb : Node.SparesCases (Node.partsAll 1 lead) := by
    simp [lead, Node.SparesCases, Node.partsAll, Node.parts, Node.Binds]
  refine ⟨hn, hb, fun env left now template ctx => ?_⟩
  exact ((run_case_of_includes hn hb).2 env left now template ctx).2.1

/-- A case in an include takes over the variable of the case that includes it: one that compares 1
does not take the body for 1. -/
theorem case_taken_over :
    let env : Environment := { includes := [("a", "{% case 2 %}{% endcase %}")] }
    let now : Instant := ⟨0, 0, 0⟩
    let ctx := Context.empty.insert "x" (.ofNat 1)
    let lead : List Node := [.inclusion ['a'] ⟨⟨1, 12, 12⟩, ⟨1, 27, 27⟩⟩]
    let v := (Expr.read ['x']).eval now ctx
    let compared := (Stmt.runAll now "page" (env.load now env.limit) (Node.lowerAll 1 lead)
      (ctx.insert (caseVariable 1) v)).2.resolve [caseVariable 1]
    let source := "{% case x %}{% include a %}{% when 1 %}A{% else %}B{% endcase %}"
    (v == .ofNat 1) = true ∧ (compared == v) = false ∧
      (env.render now "page" source ctx).1.toOption = some "B" := by
  decide +kernel

end Template

end Stencil

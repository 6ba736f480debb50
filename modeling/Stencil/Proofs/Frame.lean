import Stencil.Proofs.Steps

/-! What a run can change. A run keeps whatever is observed of a context, if the observation ignores
the variables that statements bind and every include keeps it. With includes that do not, what is
observed at the end is what the last include left. -/

namespace Stencil

open Calendar (Instant)
open Render (Always Chains done andThen within andThen_error andThen_ok)

variable {β : Type} {f : Context → β} {now : Instant} {template : String}
  {load : String → Render String}

/-- Binding a variable and unbinding it make no difference to what is observed. -/
structure Context.Ignores (f : Context → β) (name : String) : Prop where
  insert : ∀ ctx v, f (ctx.insert name v) = f ctx
  erase : ∀ ctx, f (ctx.erase name) = f ctx

namespace Context

theorem Ignores.restore {name : String} (h : Ignores f name) (ctx : Context) (v : Option Value) :
    f (ctx.restore name v) = f ctx := by
  rcases restore_erase_or_insert name v with hr | ⟨w, hr⟩
  · rw [hr, h.erase]
  · rw [hr, h.insert]

theorem ignores_get? {k name : String} (h : k ≠ name) : Ignores (·.get? k) name := by
  refine ⟨fun ctx v => ?_, fun ctx => ?_⟩
  · rw [get?_insert, if_neg h]
  · rw [get?_erase, if_neg h]

theorem ignores_resolve {k name : String} (h : k ≠ name) : Ignores (·.resolve [k]) name :=
  ⟨fun ctx v => congrArg (·.getD .nil) ((ignores_get? h).insert ctx v),
    fun ctx => congrArg (·.getD .nil) ((ignores_get? h).erase ctx)⟩

theorem resolve_congr {a b : Context} {k : String} (h : a.get? k = b.get? k) :
    a.resolve [k] = b.resolve [k] :=
  congrArg (·.getD .nil) h

theorem resolve_insert (ctx : Context) (k : String) (v : Value) :
    (ctx.insert k v).resolve [k] = v := by
  have h : (ctx.insert k v).get? k = some v := by rw [get?_insert, if_pos rfl]
  exact congrArg (·.getD .nil) h

end Context

namespace Render

/-- what is observed of the context stays, whatever the step gives -/
def Keeps (f : Context → β) (r : Render String) : Prop :=
  Always (fun ctx result => f result.2 = f ctx) r

theorem chains_keeps (f : Context → β) : Chains fun ctx result => f result.2 = f ctx :=
  ⟨fun _ _ => rfl, fun _ _ _ _ h h' => h'.trans h⟩

end Render

open Render (Keeps)
open Context (Ignores)

namespace Stmt

theorem locating_snd (site : Error.Site) (run : Render String) (ctx : Context) :
    (locating site run ctx).2 = (run ctx).2 := by
  rw [locating]
  rcases run ctx with ⟨_ | a, next⟩ <;> rfl

theorem keeps_runLoop {target : String} {body otherwise : Render String} (ht : Ignores f target)
    (hl : Ignores f "forloop") (hb : Keeps f body) (ho : Keeps f otherwise) (items : List Value) :
    Keeps f (runLoop target items body otherwise) := by
  apply always_runLoop (Render.chains_keeps f) hb _ ho
  · intro ctx result h
    rw [ht.erase, h]
  · intro ctx result h
    rw [hl.restore, ht.erase, h, hl.erase]
  · intro ctx v w result h
    rw [h, hl.insert, ht.insert]

theorem keeps_runInclusion {params : List (String × String)} {run : Render String}
    (hi : Ignores f "include") (h : Keeps f run) : Keeps f (runInclusion params run) := by
  intro ctx
  have hr := h (ctx.insert "include" (parameterValue params))
  exact (hi.restore _ _).trans (hr.trans (hi.insert ctx _))

/-- What is observed ignores the variables that a statement binds, and an include keeps it. -/
def Spares (f : Context → β) (load : String → Render String) : Stmt → Prop
  | assign target _ _ => Ignores f target
  | loop target _ _ _ _ => Ignores f target ∧ Ignores f "forloop"
  | inclusion name _ _ => Ignores f "include" ∧ Keeps f (load name)
  | _ => True

theorem Spares.admits {s : Stmt} (h : s.Spares f load) :
    s.Admits (fun ctx result => f result.2 = f ctx) template load := by
  cases s with
  | assign target =>
    intro ctx v
    exact Ignores.insert h ctx v
  | loop target =>
    intro items body otherwise hb ho
    exact keeps_runLoop h.1 h.2 hb ho items
  | inclusion name params span =>
    intro ctx
    rw [locating_snd]
    exact keeps_runInclusion h.1 h.2 ctx
  | _ => trivial

theorem keeps_runAll (ss : List Stmt) (h : ∀ t ∈ partsAll ss, Spares f load t) :
    Keeps f (runAll now template load ss) := by
  apply always_runAll (Render.chains_keeps f)
  intro t ht
  exact (h t ht).admits

theorem spares_get? {k : String} {s : Stmt} (hb : ¬ s.Binds k) (hl : k ≠ "forloop")
    (hi : ∀ name params span, s = .inclusion name params span →
      k ≠ "include" ∧ Keeps (·.get? k) (load name)) : Spares (·.get? k) load s := by
  cases s with
  | assign target => exact Context.ignores_get? (Ne.symm hb)
  | loop target => exact ⟨Context.ignores_get? (Ne.symm hb), Context.ignores_get? hl⟩
  | inclusion name params span =>
    obtain ⟨hi, hk⟩ := hi name params span rfl
    exact ⟨Context.ignores_get? hi, hk⟩
  | _ => trivial

end Stmt

namespace Environment

/-- No tag of an include binds the variable, and none of an include in it does, down to some
levels. -/
def LeavesAlone (env : Environment) (k : String) : Nat → String → Prop
  | 0, _ => True
  | left + 1, name =>
    ∀ source, env.source? name = some source →
      ∀ s ∈ Stmt.partsAll (Template.parse source).children, ¬ s.Binds k ∧
        ∀ inner params span, s = .inclusion inner params span → env.LeavesAlone k left inner

theorem keeps_load {env : Environment} {k : String} (hl : k ≠ "forloop") (hi : k ≠ "include") :
    ∀ {left : Nat} {name : String}, env.LeavesAlone k left name →
      Keeps (·.get? k) (env.load now left name) := by
  intro left
  induction left with
  | zero => exact fun _ _ => rfl
  | succ left ih =>
    intro name h
    rw [load]
    rcases hs : env.source? name with _ | source
    · exact fun _ => rfl
    · refine Stmt.keeps_runAll _ fun s hm => ?_
      obtain ⟨hb, hn⟩ := h source hs s hm
      exact Stmt.spares_get? hb hl fun inner params span he => ⟨hi, ih (hn inner params span he)⟩

end Environment

namespace Render

/-- The contexts of two steps of which the second starts where the first ends, if it does not
fail. -/
def chained (first : Render String) (l l' : Context → List Context) (ctx : Context) : List Context :=
  l ctx ++
    match first ctx with
    | (.ok _, mid) => l' mid
    | (.error _, _) => []

/-- At the end of a step the same is observed as of the last of some contexts on its way. -/
def Follows (f : Context → β) (r : Render String) (l : Context → List Context) : Prop :=
  ∀ ctx, f (r ctx).2 = f ((l ctx).getLast?.getD ctx)

theorem follows_done (text : String) : Follows f (done text) fun _ => [] := fun _ => rfl

theorem Follows.andThen {first second : Render String} {l l' : Context → List Context}
    (h : Follows f first l) (h' : Follows f second l') :
    Follows f (andThen first second) (chained first l l') := by
  intro ctx
  have h1 := h ctx
  rcases hf : first ctx with ⟨e | a, mid⟩
  · rw [andThen_error hf, chained, hf]
    rw [hf] at h1
    simpa using h1
  · rw [andThen_ok hf, h' mid, chained, hf]
    rw [hf] at h1
    rcases hl : (l' mid).getLast? with _ | last
    · simpa [List.getLast?_append, hl] using h1
    · simp [List.getLast?_append, hl]

theorem Follows.within {before after : Context → Context} {r : Render String}
    {l : Context → List Context} (h : Follows f r l) (hb : ∀ ctx, f (before ctx) = f ctx)
    (ha : ∀ ctx, f (after ctx) = f ctx) :
    Follows f (within before after r) fun ctx => l (before ctx) := by
  intro ctx
  refine (ha _).trans ((h _).trans ?_)
  rcases (l (before ctx)).getLast? with _ | last
  · exact hb ctx
  · rfl

end Render

open Render (Follows chained)

namespace Stmt

def leftItems (target : String) (body : Render String) (left : Context → List Context)
    (count : Nat) : Nat → List Value → Context → List Context
  | _, [] => fun _ => []
  | index, v :: vs =>
    chained (fun ctx => body ((ctx.insert target v).insert "forloop" (loopEntry index count)))
      (fun ctx => left ((ctx.insert target v).insert "forloop" (loopEntry index count)))
      (leftItems target body left count (index + 1) vs)

def leftLoop (target : String) (items : List Value) (body : Render String)
    (left leftElse : Context → List Context) : Context → List Context :=
  match items with
  | [] => leftElse
  | _ :: _ => fun ctx => leftItems target body left items.length 0 items (ctx.erase "forloop")

mutual

/-- the contexts that the includes run by a statement leave, in order -/
def left (now : Instant) (template : String) (load : String → Render String) :
    Stmt → Context → List Context
  | .choice branches otherwise _ =>
    leftBranches now template load (leftAll now template load otherwise) branches
  | .loop target items body otherwise _ => fun ctx =>
    leftLoop target (items.eval now ctx).toItems (runAll now template load body)
      (leftAll now template load body) (leftAll now template load otherwise) ctx
  | .inclusion name params _ => fun ctx => [(runInclusion params (load name) ctx).2]
  | _ => fun _ => []

def leftAll (now : Instant) (template : String) (load : String → Render String) :
    List Stmt → Context → List Context
  | [] => fun _ => []
  | s :: ss => chained (run now template load s) (left now template load s)
      (leftAll now template load ss)

def leftBranches (now : Instant) (template : String) (load : String → Render String)
    (leftElse : Context → List Context) : List Branch → Context → List Context
  | [] => leftElse
  | .mk condition negated body :: bs => fun ctx =>
    if condition.holds now ctx != negated then leftAll now template load body ctx
    else leftBranches now template load leftElse bs ctx

end

theorem follows_runItems {target : String} {body : Render String} {left : Context → List Context}
    (ht : Ignores f target) (hl : Ignores f "forloop") (hb : Follows f body left) (count : Nat)
    (vs : List Value) :
    ∀ index, Follows f (runItems target body count index vs)
      (leftItems target body left count index vs) := by
  induction vs with
  | nil => exact fun _ => Render.follows_done ""
  | cons v vs ih =>
    intro index
    refine Follows.andThen (fun ctx => ?_) (ih (index + 1))
    rw [hb]
    rcases (left _).getLast? with _ | last
    · exact (hl.insert _ _).trans (ht.insert ctx v)
    · rfl

theorem follows_runLoop {target : String} {body otherwise : Render String}
    {left leftElse : Context → List Context} (ht : Ignores f target) (hl : Ignores f "forloop")
    (hb : Follows f body left) (ho : Follows f otherwise leftElse) (items : List Value) :
    Follows f (runLoop target items body otherwise)
      (leftLoop target items body left leftElse) := by
  intro ctx
  cases items with
  | nil => exact (ho.within (fun _ => rfl) ht.erase) ctx
  | cons v vs =>
    refine ((follows_runItems ht hl hb _ (v :: vs) 0).within hl.erase fun after => ?_) ctx
    rw [hl.restore, ht.erase]

mutual

/-- What a run leaves of what is observed is what its last include left. -/
theorem follows_run (s : Stmt) (h : ∀ t ∈ s.parts, ∀ name, t.Binds name → Ignores f name)
    (hl : Ignores f "forloop") : Follows f (run now template load s) (left now template load s) := by
  cases s with
  | text raw | rawTag raw =>
    rw [run, left]
    · exact Render.follows_done raw
    all_goals simp
  | output e =>
    rw [run, left]
    · exact fun _ => rfl
    all_goals simp
  | choice branches otherwise span =>
    rw [run, left]
    refine follows_runBranches branches (fun t ht => h t ?_)
      (follows_runAll otherwise (fun t ht => h t ?_) hl) hl
    · simp [parts, ht]
    · simp [parts, ht]
  | loop target items body otherwise span =>
    rw [run, left]
    have ht := h (.loop target items body otherwise span) (by simp [parts]) target rfl
    have hb := follows_runAll body (fun t ht => h t (by simp [parts, ht])) hl
    have ho := follows_runAll otherwise (fun t ht => h t (by simp [parts, ht])) hl
    exact fun ctx => follows_runLoop ht hl hb ho _ ctx
  | assign target e span =>
    rw [run, left]
    · have ht := h (.assign target e span) (by simp [parts]) target rfl
      exact fun ctx => ht.insert ctx _
    all_goals simp
  | inclusion name params span =>
    rw [run, left]
    exact fun ctx => congrArg f (locating_snd _ _ ctx)

theorem follows_runAll (ss : List Stmt)
    (h : ∀ t ∈ partsAll ss, ∀ name, t.Binds name → Ignores f name) (hl : Ignores f "forloop") :
    Follows f (runAll now template load ss) (leftAll now template load ss) := by
  cases ss with
  | nil => exact Render.follows_done ""
  | cons s ss =>
    rw [runAll, leftAll]
    refine (follows_run s (fun t ht => h t ?_) hl).andThen (follows_runAll ss (fun t ht => h t ?_) hl)
    · simp [partsAll, ht]
    · simp [partsAll, ht]

theorem follows_runBranches {otherwise : Render String} {leftElse : Context → List Context}
    (bs : List Branch) (h : ∀ t ∈ partsBranches bs, ∀ name, t.Binds name → Ignores f name)
    (ho : Follows f otherwise leftElse) (hl : Ignores f "forloop") :
    Follows f (runBranches now template load otherwise bs)
      (leftBranches now template load leftElse bs) := by
  cases bs with
  | nil => exact ho
  | cons b bs =>
    obtain ⟨condition, negated, body⟩ := b
    have hb := follows_runAll body (fun t ht => h t (by simp [partsBranches, ht])) hl
    have hr := follows_runBranches bs (fun t ht => h t (by simp [partsBranches, ht])) ho hl
    intro ctx
    simp only [runBranches, leftBranches]
    split
    · exact hb ctx
    · exact hr ctx

end

end Stmt

end Stencil

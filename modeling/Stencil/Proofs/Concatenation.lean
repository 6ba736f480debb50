import Stencil.Proofs.Mirror

/-! A loop over two lists in a row, next to a loop over the first and then one over the second. The
body is told another place of each item, and between the two loops the variable and `forloop` are
unbound. Neither is seen where nothing looks `forloop` up, as each item binds the variable anew. -/

namespace Stencil

open Calendar (Instant)
open Render (done andThen within Mirrors andThen_error andThen_ok)

namespace Context

/-- Two contexts bind the same, and to the same values, but for some variables. -/
def AgreeOff (ks : List String) (a b : Context) : Prop := ∀ k, k ∉ ks → a.get? k = b.get? k

theorem carries_agreeOff (ks : List String) (name : String) : Carries (AgreeOff ks) name :=
  carries_get? (· ∉ ks) name

theorem AgreeOff.insert {ks : List String} {name : String} (hk : name ∈ ks) {a b : Context}
    (h : AgreeOff ks a b) (v w : Value) : AgreeOff ks (a.insert name v) (b.insert name w) := by
  intro k hk'
  have hne : k ≠ name := by
    rintro rfl
    exact hk' hk
  rw [get?_insert, get?_insert, if_neg hne, if_neg hne, h k hk']

theorem AgreeOff.insert_cons {ks : List String} {name : String} {a b : Context}
    (h : AgreeOff (name :: ks) a b) (v : Value) :
    AgreeOff ks (a.insert name v) (b.insert name v) := by
  intro k hk
  rw [get?_insert, get?_insert]
  by_cases hn : k = name
  · rw [if_pos hn, if_pos hn]
  · rw [if_neg hn, if_neg hn, h k fun hm => (List.mem_cons.1 hm).elim hn hk]

end Context

open Context (AgreeOff Carries)

namespace Stmt

section

variable {target : String} {body : Render String}

theorem runItems_append (count : Nat) (ys xs : List Value) :
    ∀ index, runItems target body count index (xs ++ ys) =
      andThen (runItems target body count index xs)
        (runItems target body count (index + xs.length) ys) := by
  induction xs with
  | nil => exact fun _ => (Render.done_andThen _).symm
  | cons x xs ih =>
    intro index
    rw [List.cons_append, runItems, runItems, ih, Render.andThen_assoc, List.length_cons,
      Nat.add_assoc, Nat.add_comm 1]

theorem runItems_insert (count index : Nat) (v w : Value) (vs : List Value) (ctx : Context) :
    runItems target body count index (v :: vs) (ctx.insert target w) =
      runItems target body count index (v :: vs) ctx := by
  simp only [runItems, andThen, Context.insert_insert]

variable (hb : Mirrors (fun _ => True) (AgreeOff ["forloop"]) body body)
include hb

theorem mirrors_runItems_of_place (count count' : Nat) (vs : List Value) :
    ∀ index index', Mirrors (fun _ => True) (AgreeOff ["forloop"])
      (runItems target body count index vs) (runItems target body count' index' vs) := by
  induction vs with
  | nil => exact fun _ _ => Render.mirrors_done ""
  | cons v vs ih =>
    intro index index'
    refine Mirrors.andThen (fun a b h => ?_) (ih (index + 1) (index' + 1))
    exact hb _ _ (.insert (.head _) ((Context.carries_agreeOff _ target).insert h v) _ _)

/-- Where there is an item, contexts need not agree on the variable either. -/
theorem runItems_of_agreeOff {vs : List Value} (hvs : vs ≠ []) (count count' index index' : Nat)
    {a b : Context} (h : AgreeOff [target, "forloop"] a b) :
    (runItems target body count' index' vs b).1 = (runItems target body count index vs a).1 ∧
      AgreeOff ["forloop"] (runItems target body count index vs a).2
        (runItems target body count' index' vs b).2 := by
  cases vs with
  | nil => exact absurd rfl hvs
  | cons v vs =>
    rw [← runItems_insert count index v v, ← runItems_insert count' index' v v]
    exact mirrors_runItems_of_place hb count count' (v :: vs) index index' _ _ (h.insert_cons v)
      fun _ _ => trivial

end

/-- what a loop leaves of the context after its items -/
def leave (target : String) (before : Option Value) (after : Context) : Context :=
  (after.erase target).restore "forloop" before

theorem runLoop_of_ne_nil {items : List Value} (h : items ≠ []) (target : String)
    (body otherwise : Render String) (ctx : Context) :
    runLoop target items body otherwise ctx =
      within (·.erase "forloop") (leave target (ctx.get? "forloop"))
        (runItems target body items.length 0 items) ctx := by
  cases items with
  | nil => exact absurd rfl h
  | cons v vs => rfl

theorem get?_leave {target : String} {before before' : Option Value} {a b : Context}
    (hv : before.filter (!·.isNil) = before'.filter (!·.isNil)) (h : AgreeOff ["forloop"] a b)
    (k : String) : (leave target before a).get? k = (leave target before' b).get? k := by
  rw [leave, leave, Context.get?_restore, Context.get?_restore, hv]
  by_cases hk : k = "forloop"
  · rw [if_pos hk, if_pos hk]
  · rw [if_neg hk, if_neg hk, Context.get?_erase, Context.get?_erase]
    rw [h k fun hm => hk (List.mem_singleton.1 hm)]

theorem agreeOff_leave {target : String} {before : Option Value} {a b : Context}
    (h : AgreeOff ["forloop"] a b) :
    AgreeOff [target, "forloop"] a ((leave target before b).erase "forloop") := by
  intro k hk
  rw [List.mem_cons, List.mem_singleton, not_or] at hk
  rw [Context.get?_erase, if_neg hk.2, leave, Context.get?_restore, if_neg hk.2, Context.get?_erase,
    if_neg hk.1]
  exact h k fun hm => hk.2 (List.mem_singleton.1 hm)

/-- Looping over two lists in a row gives what looping over the first and then over the second
gives, if the body does not mind what `forloop` is. -/
theorem runLoop_append {body : Render String}
    (hb : Mirrors (fun _ => True) (AgreeOff ["forloop"]) body body) {xs ys : List Value}
    (hxs : xs ≠ []) (hys : ys ≠ []) (target : String) (otherwise : Render String) (ctx : Context) :
    (runLoop target (xs ++ ys) body otherwise ctx).1 =
        (andThen (runLoop target xs body otherwise) (runLoop target ys body otherwise) ctx).1 ∧
      ∀ k, (runLoop target (xs ++ ys) body otherwise ctx).2.get? k =
        (andThen (runLoop target xs body otherwise) (runLoop target ys body otherwise)
          ctx).2.get? k := by
  have hx : Mirrors (fun _ => True) (AgreeOff ["forloop"])
      (runItems target body (xs ++ ys).length 0 xs) (runItems target body xs.length 0 xs) :=
    mirrors_runItems_of_place hb _ _ xs 0 0
  have hne := List.append_ne_nil_of_left_ne_nil hxs ys
  have honce := runLoop_of_ne_nil hne target body otherwise ctx
  have hfirst := runLoop_of_ne_nil hxs target body otherwise ctx
  rw [runItems_append, within] at honce
  rw [within] at hfirst
  rcases hf : runItems target body (xs ++ ys).length 0 xs (ctx.erase "forloop") with ⟨e | text, mid⟩
  · -- an item of the first list fails, and both runs end there
    obtain ⟨mid', hf', hm⟩ := hx.of_error (fun _ _ => rfl) hf trivial
    rw [hf'] at hfirst
    rw [andThen_error hf] at honce
    rw [honce, andThen_error hfirst]
    exact ⟨rfl, get?_leave rfl hm⟩
  · obtain ⟨mid', hf', hm⟩ := hx.of_ok (fun _ _ => rfl) hf
    rw [hf'] at hfirst
    rw [andThen_ok hf] at honce
    rw [honce, andThen_ok hfirst, runLoop_of_ne_nil hys]
    have hstart : AgreeOff [target, "forloop"] mid
        ((leave target (ctx.get? "forloop") mid').erase "forloop") := agreeOff_leave hm
    obtain ⟨h1, h2⟩ :=
      runItems_of_agreeOff hb hys (xs ++ ys).length ys.length (0 + xs.length) 0 hstart
    refine ⟨congrArg (Except.map (text ++ ·)) h1.symm, get?_leave ?_ h2⟩
    -- what was put back after the first loop is what the second finds
    rw [leave, Context.get?_restore, if_pos rfl, Option.filter_filter]
    simp

theorem respects_of_forloop {s : Stmt} (h : "forloop" ∉ s.names) :
    s.Respects (AgreeOff ["forloop"]) := by
  refine ⟨fun k hk a b hr => hr k fun hm => ?_, fun k _ => Context.carries_agreeOff _ k⟩
  exact h (List.mem_singleton.1 hm ▸ hk)

end Stmt

namespace Environment

variable {env : Environment} {now : Instant}

theorem mirrors_of_forloop {body : List Stmt}
    (hbody : ∀ s ∈ Stmt.partsAll body, "forloop" ∉ s.names)
    (hincludes : ∀ source ∈ env.includes.map (·.2),
      ∀ s ∈ Stmt.partsAll (Template.parse source).children, "forloop" ∉ s.names)
    (left : Nat) (template : String) :
    Mirrors (fun _ => True) (AgreeOff ["forloop"])
      (Stmt.runAll now template (env.load now left) body)
      (Stmt.runAll now template (env.load now left) body) := by
  have hc := Context.carries_agreeOff ["forloop"]
  have hload : ∀ name, Mirrors (fun _ => True) (AgreeOff ["forloop"]) (env.load now left name)
      (env.load now left name) := by
    refine mirrors_load (hc _) (hc _) (fun _ source hs s hm => ?_) (fun _ _ => id) (.inl rfl) left
    exact Stmt.respects_of_forloop (hincludes source (mem_includes_of_source? hs) s hm)
  refine Stmt.mirrors_runAll (hc _) body (fun s hs => Stmt.respects_of_forloop (hbody s hs)) ?_
  exact fun s _ => Stmt.runsAlike_of_load (hc _) hload (fun _ _ => id) s

/-- A loop over two lists in a row, neither of them empty, gives the same text or error as a loop
over the first and then one over the second, and leaves the same bindings, if neither the body nor
an include looks `forloop` up. What they bind does not matter. -/
theorem run_loop_append {body : List Stmt} {items : Expr} {ctx : Context} {xs ys : List Value}
    (hbody : ∀ s ∈ Stmt.partsAll body, "forloop" ∉ s.names)
    (hincludes : ∀ source ∈ env.includes.map (·.2),
      ∀ s ∈ Stmt.partsAll (Template.parse source).children, "forloop" ∉ s.names)
    (hxs : xs ≠ []) (hys : ys ≠ []) (hitems : (items.eval now ctx).toItems = xs ++ ys) (left : Nat)
    (template target : String) (otherwise : List Stmt) (span : Markup.Span) :
    let once := Stmt.run now template (env.load now left)
      (.loop target items body otherwise span) ctx
    let twice := Stmt.runAll now template (env.load now left)
      [.loop target (.const (.seq xs)) body otherwise span,
        .loop target (.const (.seq ys)) body otherwise span] ctx
    once.1 = twice.1 ∧ ∀ k, once.2.get? k = twice.2.get? k := by
  have hfixed : ∀ vs, Stmt.run now template (env.load now left)
      (.loop target (.const (.seq vs)) body otherwise span) =
        Stmt.runLoop target vs (Stmt.runAll now template (env.load now left) body)
          (Stmt.runAll now template (env.load now left) otherwise) := by
    intro vs
    rw [Stmt.run]
    rfl
  simp only [Stmt.runAll, Render.andThen_done, hfixed]
  simp only [Stmt.run, hitems]
  exact Stmt.runLoop_append (mirrors_of_forloop hbody hincludes left template) hxs hys target _ ctx

/-- a body that changes the variable of the loop and the list, and an include that changes
`forloop` -/
theorem run_loop_append_reassigned :
    let env : Environment :=
      { includes := [("a", "{% for j in x %}{{ j }}{% endfor %}{% assign forloop = j %}")] }
    let source := "{{ i }}{% include a %}{% assign i = 0 %}{% assign x = i %}"
    let body := (Template.parse source).children
    let ctx := Context.ofEntries [("x", .seq [.int 1, .int 2, .int 3]), ("forloop", .text "f")]
    ∀ now : Instant,
      let once := Stmt.run now "t" (env.load now 1) (.loop "i" (.path ["x"]) body [] .none) ctx
      let twice := Stmt.runAll now "t" (env.load now 1)
        [.loop "i" (.const (.seq [.int 1])) body [] .none,
          .loop "i" (.const (.seq [.int 2, .int 3])) body [] .none] ctx
      once.1 = twice.1 ∧ ∀ k, once.2.get? k = twice.2.get? k := by
  intro env source body ctx now
  have hbody : ∀ s ∈ Stmt.partsAll body, "forloop" ∉ s.names := by decide +kernel
  have hincludes : ∀ source ∈ env.includes.map (·.2),
      ∀ s ∈ Stmt.partsAll (Template.parse source).children, "forloop" ∉ s.names := by
    decide +kernel
  exact run_loop_append hbody hincludes (List.cons_ne_nil _ _) (List.cons_ne_nil _ _) rfl 1 "t" "i"
    [] .none

end Environment

end Stencil

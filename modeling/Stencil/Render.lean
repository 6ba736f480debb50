import Stencil.Condition.Eval
import Stencil.Data
import Stencil.Environment
import Stencil.Error
import Stencil.Template.Builder

/-! Rendering: a template, run in an environment, writes text and changes its context. It fails only
at an include, and the changes made until then stay. -/

namespace Stencil

open Calendar (Instant)

/-- A step of a render: it may fail, and it leaves a context either way. -/
abbrev Render (α : Type) := Context → Except Error α × Context

namespace Render

def done (text : String) : Render String := fun ctx => (.ok text, ctx)

def fail (e : Error) : Render String := fun ctx => (.error e, ctx)

/-- one step, then another, unless the first fails -/
def andThen (first second : Render String) : Render String := fun ctx =>
  match first ctx with
  | (.ok a, ctx) =>
    match second ctx with
    | (.ok b, ctx) => (.ok (a ++ b), ctx)
    | (.error e, ctx) => (.error e, ctx)
  | (.error e, ctx) => (.error e, ctx)

/-- changes the context of a step before it and after it, whether it fails or not -/
def within (before after : Context → Context) (step : Render String) : Render String := fun ctx =>
  let (result, ctx) := step (before ctx)
  (result, after ctx)

end Render

open Render (done fail andThen)

namespace Stmt

/-- what a loop tells its body about the place of an item -/
def loopEntry (index count : Nat) : Value :=
  .map [("index", .ofNat (index + 1)), ("index0", .ofNat index), ("rindex", .ofNat (count - index)),
    ("rindex0", .ofNat (count - index - 1)), ("first", .bool (index == 0)),
    ("last", .bool (index + 1 == count)), ("length", .ofNat count)]

/-- runs the body of a loop for the items from a place on -/
def runItems (target : String) (body : Render String) (count : Nat) :
    Nat → List Value → Render String
  | _, [] => done ""
  | index, v :: vs =>
    andThen (fun ctx => body ((ctx.insert target v).insert "forloop" (loopEntry index count)))
      (runItems target body count (index + 1) vs)

/-- Runs a loop over items. The variable is unbound afterwards, and what `forloop` was before is put
back. -/
def runLoop (target : String) (items : List Value) (body otherwise : Render String) :
    Render String := fun ctx =>
  match items with
  | [] => Render.within id (·.erase target) otherwise ctx
  | _ :: _ =>
    Render.within (·.erase "forloop")
      (fun after => (after.erase target).restore "forloop" (ctx.get? "forloop"))
      (runItems target body items.length 0 items) ctx

/-- The parameters of an include as a value. Of equal keys the last value counts. -/
def parameterValue (params : List (String × String)) : Value :=
  .map (Entries.ofList (params.map fun (k, v) => (k, .text v)))

/-- Runs an include with its parameters bound. What `include` was before is put back. -/
def runInclusion (params : List (String × String)) (run : Render String) : Render String :=
  fun ctx =>
    Render.within (·.insert "include" (parameterValue params))
      (·.restore "include" (ctx.get? "include")) run ctx

def locating (site : Error.Site) (run : Render String) : Render String := fun ctx =>
  match run ctx with
  | (.error e, ctx) => (.error (e.locate site), ctx)
  | r => r

mutual

/-- Runs a statement of a named template. `load` runs an include by its name. -/
def run (now : Instant) (template : String) (load : String → Render String) :
    Stmt → Render String
  | .text raw _ => done raw
  | .output e _ => fun ctx => (.ok (e.eval now ctx).display, ctx)
  | .rawTag raw _ => done raw
  | .choice branches otherwise _ =>
    runBranches now template load (runAll now template load otherwise) branches
  | .loop target items body otherwise _ => fun ctx =>
    runLoop target (items.eval now ctx).toItems (runAll now template load body)
      (runAll now template load otherwise) ctx
  | .assign target e _ => fun ctx => (.ok "", ctx.insert target (e.eval now ctx))
  | .inclusion name params span =>
    locating ⟨template, span.first.line⟩ (runInclusion params (load name))

def runAll (now : Instant) (template : String) (load : String → Render String) :
    List Stmt → Render String
  | [] => done ""
  | s :: ss => andThen (run now template load s) (runAll now template load ss)

/-- runs the first branch that is taken, or else what is left -/
def runBranches (now : Instant) (template : String) (load : String → Render String)
    (otherwise : Render String) : List Branch → Render String
  | [] => otherwise
  | .mk condition negated body :: bs => fun ctx =>
    if condition.holds now ctx != negated then runAll now template load body ctx
    else runBranches now template load otherwise bs ctx

end

end Stmt

namespace Environment

/-- Runs an include that may hold includes down to `left - 1` further levels. -/
def load (env : Environment) (now : Instant) : Nat → String → Render String
  | 0, _ => fail (.tooDeep env.limit)
  | left + 1, name =>
    match env.source? name with
    | none => fail (.notFound name)
    | some source =>
      Stmt.runAll now name (env.load now left) (Template.parse source).children

/-- Renders a template under a name, which errors show. -/
def render (env : Environment) (now : Instant) (name source : String) : Render String :=
  Stmt.runAll now name (env.load now env.limit) (Template.parse source).children

def renderInclude (env : Environment) (now : Instant) (name : String) : Render String :=
  env.load now env.limit name

def unnamed : String := "<string>"

/-- Renders a template with data in place of a context. -/
def renderData (env : Environment) (now : Instant) (source : String) (d : Data) :
    Except Error String := do
  let ctx ← Context.ofData d
  (env.render now unnamed source ctx).1

end Environment

end Stencil

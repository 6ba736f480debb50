import Stencil.Filter

/-! Slashes in joined paths. A text is cut into its runs of slashes; collapsing goes over it once,
character by character, and comes to the same as to shorten each run on its own. -/

namespace Stencil.Filter

/-- A text as its runs of slashes: how many it starts with, then every other character and how many
slashes follow it. -/
structure Runs where
  first : Nat
  rest : List ({c : Char // c ≠ '/'} × Nat)

namespace Runs

def slashes (n : Nat) : List Char := List.replicate n '/'

def toList (r : Runs) : List Char :=
  slashes r.first ++ r.rest.flatMap fun (c, n) => c.1 :: slashes n

def cons (c : Char) (r : Runs) : Runs :=
  if h : c = '/' then ⟨r.first + 1, r.rest⟩ else ⟨0, (⟨c, h⟩, r.first) :: r.rest⟩

def ofList (cs : List Char) : Runs := cs.foldr cons ⟨0, []⟩

theorem toList_cons (c : Char) (r : Runs) : (cons c r).toList = c :: r.toList := by
  rw [cons]
  split
  · next h => rw [toList, h, slashes, List.replicate_succ]; rfl
  · rfl

theorem toList_ofList (cs : List Char) : (ofList cs).toList = cs := by
  induction cs with
  | nil => rfl
  | cons c cs ih => rw [ofList, List.foldr_cons, toList_cons, ← ofList, ih]

/-- the slashes that a run keeps behind a character, or at the start of a text -/
def most (prev : Option Char) : Nat := if prev = some ':' then 2 else 1

/-- The first run with at most `k` slashes, the others with as many as they may keep. -/
def shorten (k : Nat) (r : Runs) : Runs :=
  ⟨min r.first k, r.rest.map fun (c, n) => (c, min n (most (some c.1)))⟩

/-- each run with as many slashes as it may keep -/
def collapse (r : Runs) : Runs := r.shorten (most none)

theorem toList_shorten_slash (k : Nat) (r : Runs) :
    ((cons '/' r).shorten (k + 1)).toList = '/' :: (r.shorten k).toList := by
  simp only [cons, shorten, toList, slashes, dite_true, Nat.add_min_add_right, List.replicate_succ,
    List.cons_append]

theorem toList_shorten_other {c : Char} (h : c ≠ '/') (k : Nat) (r : Runs) :
    ((cons c r).shorten k).toList = c :: (r.shorten (most (some c))).toList := by
  rw [cons, dif_neg h]
  simp [shorten, toList, slashes]

theorem toList_shorten_zero (r : Runs) :
    ((cons '/' r).shorten 0).toList = (r.shorten 0).toList := by
  simp [cons, shorten]

end Runs

open Runs (slashes most)

variable {prev : Option Char} {closed : Bool} {cs : List Char}

/-- how many slashes of the run at hand still stay -/
def room (prev : Option Char) (closed : Bool) : Nat := if closed then 0 else most prev

theorem room_after_slash (prev : Option Char) :
    room (some '/') (prev != some ':') + 1 = most prev := by
  by_cases h : prev = some ':' <;> simp [room, most, h]

theorem collapseFrom_eq_shorten (prev : Option Char) (closed : Bool) (cs : List Char) :
    collapseFrom prev closed cs = ((Runs.ofList cs).shorten (room prev closed)).toList := by
  induction cs generalizing prev closed with
  | nil => simp [collapseFrom, Runs.ofList, Runs.shorten, Runs.toList, slashes]
  | cons c cs ih =>
    rw [collapseFrom, Runs.ofList, List.foldr_cons, ← Runs.ofList]
    by_cases hc : c = '/'
    · subst hc
      cases closed with
      | true => exact (ih prev true).trans (Runs.toList_shorten_zero _).symm
      | false =>
        show '/' :: collapseFrom (some '/') (prev != some ':') cs = _
        rw [room, if_neg Bool.false_ne_true, ← room_after_slash, Runs.toList_shorten_slash, ih]
    · rw [if_neg (by simpa using hc), Runs.toList_shorten_other hc, ih]
      rfl

theorem collapseSlashes_toList (cs : List Char) :
    collapseSlashes cs = (Runs.ofList cs).collapse.toList :=
  collapseFrom_eq_shorten none false cs

theorem collapseFrom_collapseFrom (prev : Option Char) (closed : Bool) (cs : List Char) :
    collapseFrom prev closed (collapseFrom prev closed cs) = collapseFrom prev closed cs := by
  induction cs generalizing prev closed with
  | nil => rfl
  | cons c cs ih => grind [collapseFrom]

theorem length_collapseFrom_le (prev : Option Char) (closed : Bool) (cs : List Char) :
    (collapseFrom prev closed cs).length ≤ cs.length := by
  induction cs generalizing prev closed with
  | nil => exact Nat.le_refl _
  | cons c cs ih => grind [collapseFrom]

theorem fixed_behind {c : Char} (h : collapseFrom prev closed (c :: cs) = c :: cs) :
    ∃ closed', collapseFrom (some c) closed' cs = cs := by
  have hlen := length_collapseFrom_le prev closed cs
  grind [collapseFrom]

theorem fixed_suffix {before : List Char}
    (h : collapseFrom prev closed (before ++ cs) = before ++ cs) :
    ∃ closed', collapseFrom (before.getLast?.or prev) closed' cs = cs := by
  induction before generalizing prev closed with
  | nil => exact ⟨closed, h⟩
  | cons c before ih =>
    obtain ⟨closed', h⟩ := fixed_behind h
    obtain ⟨closed', h⟩ := ih h
    refine ⟨closed', ?_⟩
    cases before <;> simpa [List.getLast?_cons] using h

theorem colon_of_fixed {before after : List Char}
    (h : collapseSlashes (before ++ '/' :: '/' :: after) = before ++ '/' :: '/' :: after) :
    before.getLast? = some ':' := by
  obtain ⟨closed, h⟩ := fixed_suffix h
  rw [Option.or_none] at h
  refine Decidable.byContradiction fun hprev => ?_
  -- behind anything but a colon the second slash is taken out, and nothing takes its place
  have hlen := length_collapseFrom_le (some '/') true after
  have hlen' := length_collapseFrom_le before.getLast? true after
  grind [collapseFrom]

/-- `joined` is a base without one slash at its end, a slash unless the path starts with one, and
the path. -/
def IsJoined (base path joined : List Char) : Prop :=
  ∃ stem, (base = stem ++ ['/'] ∨ base = stem ∧ ¬ ['/'] <:+ base) ∧
    (['/'] <+: path ∧ joined = stem ++ path ∨ ¬ ['/'] <+: path ∧ joined = stem ++ '/' :: path)

theorem isJoined_joinPath (base path : List Char) : IsJoined base path (joinPath base path) := by
  have hpath : path.head? = some '/' ↔ ['/'] <+: path := by
    rw [List.head?_eq_some_iff]
    exact exists_congr fun _ => eq_comm
  refine ⟨if base.getLast? == some '/' then base.dropLast else base, ?_, ?_⟩
  · by_cases h : base.getLast? = some '/'
    · obtain ⟨stem, rfl⟩ := List.getLast?_eq_some_iff.1 h
      simp
    · have hsuffix : ¬ ['/'] <:+ base := by
        rintro ⟨stem, rfl⟩
        simp at h
      simp [h, hsuffix]
  · simp only [joinPath, beq_iff_eq]
    by_cases h : path.head? = some '/'
    · exact .inl ⟨hpath.1 h, by rw [if_pos h]⟩
    · exact .inr ⟨mt hpath.2 h, by rw [if_neg h]⟩

def IsAbsolute (path : List Char) : Prop :=
  "http://".toList <+: path ∨ "https://".toList <+: path

theorem isAbsoluteUrl_iff (path : List Char) : isAbsoluteUrl path = true ↔ IsAbsolute path := by
  rw [isAbsoluteUrl, Bool.or_eq_true, List.isPrefixOf_iff_prefix, List.isPrefixOf_iff_prefix]
  rfl

theorem not_isAbsolute_of_slash (path : List Char) : ¬ IsAbsolute ('/' :: path) := by
  rintro (⟨rest, h⟩ | ⟨rest, h⟩) <;> cases h

theorem relativeUrl_of_absolute {v base : Value} (h : IsAbsolute v.display.toList) :
    relativeUrl v base = .text v.display := by
  rw [relativeUrl, if_pos ((isAbsoluteUrl_iff _).2 h)]

theorem relativeUrl_of_not_absolute {v base : Value} (h : ¬ IsAbsolute v.display.toList) :
    relativeUrl v base =
      .text (.ofList (collapseSlashes (joinPath base.display.toList v.display.toList))) := by
  rw [relativeUrl, if_neg (mt (isAbsoluteUrl_iff _).1 h)]

theorem joinPath_root {base : List Char} (hbase : base = [] ∨ base = ['/']) (path : List Char) :
    joinPath base path = if path.head? == some '/' then path else '/' :: path := by
  rcases hbase with rfl | rfl <;> rfl

theorem exists_cons_joinPath {base : List Char} (hbase : base = [] ∨ base = ['/'])
    (path : List Char) : ∃ rest, joinPath base path = '/' :: rest := by
  rw [joinPath_root hbase]
  split
  · next h => exact List.head?_eq_some_iff.1 (eq_of_beq h)
  · exact ⟨path, rfl⟩

/-- What the filter gives once it is under the root: given to it again, it stays. -/
theorem relativeUrl_relativeUrl {v base : Value} (hbase : base.display = "" ∨ base.display = "/") :
    relativeUrl (relativeUrl v base) base = relativeUrl v base := by
  by_cases habs : IsAbsolute v.display.toList
  · rw [relativeUrl_of_absolute habs]
    exact relativeUrl_of_absolute (v := .text v.display) habs
  · have hroot : base.display.toList = [] ∨ base.display.toList = ['/'] :=
      hbase.imp (fun h => by rw [h]; rfl) (fun h => by rw [h]; rfl)
    obtain ⟨rest, hjoin⟩ := exists_cons_joinPath hroot v.display.toList
    obtain ⟨url, hurl⟩ : ∃ url, collapseSlashes ('/' :: rest) = '/' :: url := ⟨_, rfl⟩
    rw [relativeUrl_of_not_absolute habs, hjoin, hurl]
    have hshow : (Value.text (.ofList ('/' :: url))).display.toList = '/' :: url :=
      String.toList_ofList
    have habs' : ¬ IsAbsolute (Value.text (.ofList ('/' :: url))).display.toList := by
      rw [hshow]
      exact not_isAbsolute_of_slash url
    have hagain : collapseSlashes ('/' :: url) = '/' :: url := by
      rw [← hurl]
      exact collapseFrom_collapseFrom none false _
    rw [relativeUrl_of_not_absolute habs', hshow, joinPath_root hroot, if_pos (by rfl), hagain]

/-- An address with a scheme stays. Any other path is joined to the base, and every run of slashes
shortened to one, or to two behind a colon: no three slashes follow each other, two only behind a
colon, and there is nothing left to collapse. Under an empty base or a lone slash the filter changes
nothing the second time. -/
theorem relativeUrl_collapses (v base : Value) :
    (IsAbsolute v.display.toList → relativeUrl v base = .text v.display) ∧
    (¬ IsAbsolute v.display.toList → ∃ (joined : Runs) (url : List Char),
      IsJoined base.display.toList v.display.toList joined.toList ∧
      url = joined.collapse.toList ∧ relativeUrl v base = .text (.ofList url) ∧
      ¬ ['/', '/', '/'] <:+: url ∧
      (∀ before after, url = before ++ '/' :: '/' :: after → before.getLast? = some ':') ∧
      collapseSlashes url = url) ∧
    (base.display = "" ∨ base.display = "/" →
      relativeUrl (relativeUrl v base) base = relativeUrl v base) := by
  refine ⟨relativeUrl_of_absolute, fun habs => ?_, relativeUrl_relativeUrl⟩
  have hcolon : ∀ before after,
      collapseSlashes (joinPath base.display.toList v.display.toList) =
        before ++ '/' :: '/' :: after → before.getLast? = some ':' := by
    intro before after h
    have hfixed : collapseSlashes (before ++ '/' :: '/' :: after) =
        before ++ '/' :: '/' :: after := by
      rw [← h]
      exact collapseFrom_collapseFrom none false _
    exact colon_of_fixed hfixed
  refine ⟨Runs.ofList (joinPath base.display.toList v.display.toList), _, ?_,
    collapseSlashes_toList _, relativeUrl_of_not_absolute habs, ?_, hcolon,
    collapseFrom_collapseFrom none false _⟩
  · rw [Runs.toList_ofList]
    exact isJoined_joinPath _ _
  · rintro ⟨before, after, h⟩
    -- the last two of three slashes would stand behind a slash
    have hlast := hcolon (before ++ ['/']) after (by rw [← h]; simp)
    simp at hlast

/-- runs across the border of base and path and behind colons, and an address with a scheme -/
theorem relativeUrl_collapses_border :
    let path : Value := .text "//a:///b//"
    let base : Value := .text "http://x//"
    let address : Value := .text "https://x//y"
    ¬ IsAbsolute path.display.toList ∧
      (∃ joined : Runs, IsJoined base.display.toList path.display.toList joined.toList ∧
        joined.collapse.toList = "http://x/a://b/".toList ∧
        relativeUrl path base = .text "http://x/a://b/") ∧
      IsAbsolute address.display.toList ∧ relativeUrl address base = address ∧
      relativeUrl (relativeUrl path (.text "/")) (.text "/") = relativeUrl path (.text "/") := by
  intro path base address
  have habs : ¬ IsAbsolute path.display.toList := by
    rw [← isAbsoluteUrl_iff]
    decide
  have habs' : IsAbsolute address.display.toList := (isAbsoluteUrl_iff _).1 (by decide)
  have hval : relativeUrl path base = .text "http://x/a://b/" := by
    rw [relativeUrl_of_not_absolute habs]
    exact congrArg Value.text (by decide)
  obtain ⟨joined, url, hjoined, hruns, hurl, -⟩ := (relativeUrl_collapses path base).2.1 habs
  have heq : String.ofList url = "http://x/a://b/" := Value.text.inj (hurl.symm.trans hval)
  refine ⟨habs, ⟨joined, hjoined, ?_, hval⟩, habs',
    (relativeUrl_collapses address base).1 habs',
    (relativeUrl_collapses path (.text "/")).2.2 (.inr rfl)⟩
  rw [← hruns, ← heq, String.toList_ofList]

end Stencil.Filter

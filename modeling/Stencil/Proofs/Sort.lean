import Mathlib.Data.List.Induction
import Stencil.Filter
import Stencil.Proofs.Transitive

/-! Sorting by an attribute. Where the attributes have no floats the order is a total preorder on
them, and inserting one item after the other gives the one stable arrangement of the items. -/

namespace Stencil.Value

open Std (OrientedOrd)

mutual

theorem order_swap (a b : Value) : order b a = (order a b).swap := by
  cases a with
  | seq as =>
    cases b with
    | seq bs => exact orderItems_swap as bs
    | _ => exact OrientedOrd.eq_swap
  | map as =>
    cases b with
    | map bs => exact orderEntries_swap as bs
    | _ => exact OrientedOrd.eq_swap
  | _ => cases b <;> exact OrientedOrd.eq_swap

theorem orderItems_swap (as bs : List Value) : orderItems bs as = (orderItems as bs).swap := by
  match as, bs with
  | [], [] => rfl
  | [], _ :: _ => rfl
  | _ :: _, [] => rfl
  | a :: as, b :: bs =>
    rw [orderItems, orderItems, Ordering.swap_then, order_swap a b, orderItems_swap as bs]

theorem orderEntries_swap (as bs : List (String × Value)) :
    orderEntries bs as = (orderEntries as bs).swap := by
  match as, bs with
  | [], [] => rfl
  | [], _ :: _ => rfl
  | _ :: _, [] => rfl
  | (k, a) :: as, (l, b) :: bs =>
    rw [orderEntries, orderEntries, Ordering.swap_then, Ordering.swap_then, order_swap a b,
      orderEntries_swap as bs, OrientedOrd.eq_swap (a := l)]

end

theorem order_trans_of_isFloatless {a b c : Value} (ha : a.isFloatless = true)
    (hb : b.isFloatless = true) (hc : c.isFloatless = true) (hab : order a b ≠ .gt)
    (hbc : order b c ≠ .gt) : order a c ≠ .gt :=
  (order_chain (fun _ _ _ hx => hx.elim) (hasNumbers_of_isFloatless ha)
    (hasNumbers_of_isFloatless hb) (hasNumbers_of_isFloatless hc) hab hbc).1

theorem eq_nil_of_order_nil {a : Value} (h : order a nil ≠ .gt) : a = nil := by
  have hk : a.kind = .nil := Kind.rank_injective (Nat.le_zero.1 (rank_le_of_order h))
  cases a <;> first | rfl | cases hk

/-- Is `cmp` a total preorder of the items of `P`? -/
structure IsPreorder {α : Type} (cmp : α → α → Ordering) (P : α → Prop) : Prop where
  swap : ∀ a b, cmp b a = (cmp a b).swap
  trans : ∀ a b c, P a → P b → P c → cmp a b ≠ .gt → cmp b c ≠ .gt → cmp a c ≠ .gt

section

variable {α : Type} {cmp : α → α → Ordering} {P : α → Prop} {p : α → Bool}

theorem insertBy_perm (x : α) (ys : List α) : (insertBy cmp x ys).Perm (x :: ys) := by
  induction ys with
  | nil => exact .refl _
  | cons y ys ih =>
    rw [insertBy]
    split
    · exact (ih.cons y).trans (.swap x y ys)
    · exact .refl _

theorem pairwise_insertBy (hc : IsPreorder cmp P) {x : α} {ys : List α} (hx : P x)
    (hys : ∀ y ∈ ys, P y) (h : ys.Pairwise fun a b => cmp b a ≠ .gt) :
    (insertBy cmp x ys).Pairwise fun a b => cmp b a ≠ .gt := by
  induction ys with
  | nil => exact List.pairwise_singleton _ x
  | cons y ys ih =>
    rw [List.forall_mem_cons] at hys
    obtain ⟨hy, h⟩ := List.pairwise_cons.1 h
    by_cases hlt : (cmp x y == .lt) = true
    · rw [insertBy, if_pos hlt]
      refine List.pairwise_cons.2 ⟨fun z hz => ?_, ih hys.2 h⟩
      rcases List.mem_cons.1 ((insertBy_perm x ys).mem_iff.1 hz) with rfl | hz
      · simp [eq_of_beq hlt]
      · exact hy z hz
    · rw [insertBy, if_neg hlt]
      have hyx : cmp y x ≠ .gt := by
        rw [hc.swap x y, Ne, Ordering.swap_eq_gt]
        exact fun hxy => hlt (beq_of_eq hxy)
      refine List.pairwise_cons.2 ⟨List.forall_mem_cons.2 ⟨hyx, fun z hz => ?_⟩,
        List.pairwise_cons.2 ⟨hy, h⟩⟩
      exact hc.trans z y x (hys.2 z hz) hys.1 hx (hy z hz) hyx

/-- Among items that are not less than each other the one inserted comes first. -/
theorem filter_insertBy {x : α} {ys : List α}
    (hp : ∀ y ∈ ys, p x = true → p y = true → cmp x y ≠ .lt) :
    (insertBy cmp x ys).filter p = [x].filter p ++ ys.filter p := by
  induction ys with
  | nil => simp [insertBy]
  | cons y ys ih =>
    rw [List.forall_mem_cons] at hp
    by_cases hlt : (cmp x y == .lt) = true
    · rw [insertBy, if_pos hlt]
      have hxy : p x = true → p y = false := fun hx =>
        Bool.eq_false_iff.2 fun hy => hp.1 hx hy (eq_of_beq hlt)
      cases hx : p x <;> simp [hx, hxy, ih hp.2, List.filter_cons]
    · rw [insertBy, if_neg hlt]
      exact List.filter_append [x] (y :: ys)

theorem insertBy_of_forall {x : α} {ys : List α} (h : ∀ y ∈ ys, cmp x y ≠ .lt) :
    insertBy cmp x ys = x :: ys := by
  cases ys with
  | nil => rfl
  | cons y ys => rw [insertBy, if_neg fun hlt => h y (.head _) (eq_of_beq hlt)]

theorem sortBy_append_singleton (xs : List α) (x : α) :
    sortBy cmp (xs ++ [x]) = (insertBy cmp x (sortBy cmp xs).reverse).reverse := by
  rw [sortBy, sortBy, List.foldl_append, List.reverse_reverse]
  rfl

theorem sortBy_perm (xs : List α) : (sortBy cmp xs).Perm xs := by
  induction xs using List.reverseRecOn with
  | nil => exact .refl _
  | append_singleton xs x ih =>
    rw [sortBy_append_singleton]
    have h := ((List.reverse_perm (sortBy cmp xs)).trans ih).cons x
    have h' := h.trans (List.perm_append_singleton x xs).symm
    exact (List.reverse_perm _).trans ((insertBy_perm x _).trans h')

theorem pairwise_sortBy (hc : IsPreorder cmp P) {xs : List α} (hxs : ∀ x ∈ xs, P x) :
    (sortBy cmp xs).Pairwise fun a b => cmp a b ≠ .gt := by
  induction xs using List.reverseRecOn with
  | nil => exact .nil
  | append_singleton xs x ih =>
    rw [List.forall_mem_append, List.forall_mem_singleton] at hxs
    rw [sortBy_append_singleton, List.pairwise_reverse]
    refine pairwise_insertBy hc hxs.2 (fun y hy => ?_) (List.pairwise_reverse.2 (ih hxs.1))
    exact hxs.1 y ((sortBy_perm xs).mem_iff.1 (List.mem_reverse.1 hy))

/-- Items that are not less than each other keep their places among each other. -/
theorem filter_sortBy {xs : List α}
    (hp : ∀ x ∈ xs, ∀ y ∈ xs, p x = true → p y = true → cmp x y ≠ .lt) :
    (sortBy cmp xs).filter p = xs.filter p := by
  induction xs using List.reverseRecOn with
  | nil => rfl
  | append_singleton xs x ih =>
    have hx : ∀ y ∈ (sortBy cmp xs).reverse, p x = true → p y = true → cmp x y ≠ .lt := by
      intro y hy
      have hy := (sortBy_perm xs).mem_iff.1 (List.mem_reverse.1 hy)
      exact hp x (List.mem_append_right _ (.head _)) y (List.mem_append_left _ hy)
    have hxs : ∀ x ∈ xs, ∀ y ∈ xs, p x = true → p y = true → cmp x y ≠ .lt :=
      fun x hx y hy => hp x (List.mem_append_left _ hx) y (List.mem_append_left _ hy)
    rw [sortBy_append_singleton, List.filter_reverse, filter_insertBy hx, List.filter_reverse,
      ih hxs, List.filter_append, List.reverse_append, List.reverse_reverse]
    cases h : p x <;> simp [h]

theorem sortBy_of_pairwise (hc : IsPreorder cmp P) {xs : List α}
    (h : xs.Pairwise fun a b => cmp a b ≠ .gt) : sortBy cmp xs = xs := by
  induction xs using List.reverseRecOn with
  | nil => rfl
  | append_singleton xs x ih =>
    rw [List.pairwise_append] at h
    obtain ⟨hxs, -, hx⟩ := h
    have hlast : ∀ y ∈ xs.reverse, cmp x y ≠ .lt := by
      intro y hy
      rw [hc.swap y x, Ne, Ordering.swap_eq_lt]
      exact hx y (List.mem_reverse.1 hy) x (.head _)
    rw [sortBy_append_singleton, ih hxs, insertBy_of_forall hlast, List.reverse_cons,
      List.reverse_reverse]

end

end Stencil.Value

namespace Stencil.Filter

open Value (order IsPreorder)

theorem filter_prefix_of_pairwise {α : Type} {p : α → Bool} {xs : List α}
    (h : xs.Pairwise fun a b => p b = true → p a = true) : xs.filter p <+: xs := by
  induction xs with
  | nil => exact List.nil_prefix
  | cons x xs ih =>
    obtain ⟨hx, h⟩ := List.pairwise_cons.1 h
    cases hp : p x with
    | true =>
      rw [List.filter_cons_of_pos hp]
      exact (List.prefix_cons_inj x).2 (ih h)
    | false =>
      have hnone : xs.filter p = [] :=
        List.filter_eq_nil_iff.2 fun y hy hpy => by simp [hx y hy hpy] at hp
      rw [List.filter_cons_of_neg (by simp [hp]), hnone]
      exact List.nil_prefix

theorem isPreorder_sortKey (key : String) :
    IsPreorder (fun a b => (sortKey key a).order (sortKey key b))
      (fun v => (sortKey key v).isFloatless = true) where
  swap _ _ := Value.order_swap _ _
  trans _ _ _ ha hb hc := Value.order_trans_of_isFloatless ha hb hc

theorem sort_of_ne_nil {items : List Value} {key : Value} (hkey : key ≠ .nil) :
    sort (.seq items) (some key) = .seq (Value.sortBy
      (fun a b => (sortKey key.display a).order (sortKey key.display b)) items) := by
  cases key <;> first | rfl | exact absurd rfl hkey

theorem sortKey_isFloatless {key : String} {v : Value}
    (h : ∀ w, v.attr? key = some w → w.isFloatless = true) :
    (sortKey key v).isFloatless = true := by
  rw [sortKey]
  cases hv : v.attr? key with
  | none => rfl
  | some w => exact h w hv

theorem filter_sortBy_of_sortKey {key : String} {items : List Value} {p : Value → Bool} {w : Value}
    (hw : w.isFloatless = true) (h : ∀ v ∈ items, p v = true → sortKey key v = w) :
    (Value.sortBy (fun a b => (sortKey key a).order (sortKey key b)) items).filter p =
      items.filter p := by
  refine Value.filter_sortBy fun x hx y hy hpx hpy => ?_
  rw [h x hx hpx, h y hy hpy, Value.order_self hw]
  nofun

theorem eq_nil_of_isNil {v : Value} (h : v.isNil = true) : v = .nil := by
  cases v <;> first | rfl | cases h

/-- Sorting by a key gives the items in the order of their attributes, with the items that have the
same attribute as they stood, so that sorting again changes nothing. Items without the attribute
count as having nil, and are in front. -/
theorem sort_stable {items : List Value} {key : Value} (hkey : key ≠ .nil)
    (hfloat : ∀ v ∈ items, ∀ w, v.attr? key.display = some w → w.isFloatless = true) :
    ∃ sorted, sort (.seq items) (some key) = .seq sorted ∧ sorted.Perm items ∧
      sorted.Pairwise (fun a b =>
        (sortKey key.display a).order (sortKey key.display b) ≠ .gt) ∧
      (∀ w, w.isFloatless = true →
        sorted.filter (fun v => (sortKey key.display v).order w == .eq) =
          items.filter (fun v => (sortKey key.display v).order w == .eq)) ∧
      items.filter (fun v => (sortKey key.display v).isNil) <+: sorted ∧
      sort (.seq sorted) (some key) = .seq sorted := by
  have hc := isPreorder_sortKey key.display
  have hitems : ∀ v ∈ items, (sortKey key.display v).isFloatless = true :=
    fun v hv => sortKey_isFloatless (hfloat v hv)
  have hpair := Value.pairwise_sortBy hc hitems
  refine ⟨_, sort_of_ne_nil hkey, Value.sortBy_perm items, hpair, fun w hw => ?_, ?_, ?_⟩
  · refine filter_sortBy_of_sortKey hw fun v hv heq => ?_
    exact Value.eq_of_order_eq (hitems v hv) hw (eq_of_beq heq)
  · rw [← filter_sortBy_of_sortKey (w := .nil) rfl fun v _ hv => eq_nil_of_isNil hv]
    refine filter_prefix_of_pairwise (hpair.imp fun hab hb => ?_)
    -- what is not greater than nil is nil
    rw [eq_nil_of_isNil hb] at hab
    rw [Value.eq_nil_of_order_nil hab]
    rfl
  · rw [sort_of_ne_nil hkey, Value.sortBy_of_pairwise hc hpair]

/-- items of several kinds, two of them without the attribute, sorted by nested attributes -/
theorem sort_stable_mixed :
    let a : Value := .map [("k", .seq [.int 2, .text "x"]), ("n", .int 1)]
    let b : Value := .text "no attribute"
    let c : Value := .map [("k", .seq [.int 2, .text "x"]), ("n", .int 2)]
    let d : Value := .map [("k", .bool true)]
    let e : Value := .int 7
    ∃ sorted, sort (.seq [a, b, c, d, e]) (some (.text "k")) = .seq sorted ∧
      sorted = [b, e, d, a, c] ∧ sort (.seq sorted) (some (.text "k")) = .seq sorted := by
  intro a b c d e
  have hkey : Value.text "k" ≠ .nil := nofun
  have hall : ∀ v ∈ [a, b, c, d, e], (v.attr? "k").all Value.isFloatless = true := by decide
  have hfloat : ∀ v ∈ [a, b, c, d, e], ∀ w, v.attr? (Value.text "k").display = some w →
      w.isFloatless = true := by
    intro v hv w hw
    have h := hall v hv
    rwa [show v.attr? "k" = some w from hw] at h
  obtain ⟨sorted, h, -, -, -, -, hagain⟩ := sort_stable hkey hfloat
  have hsorted : sort (.seq [a, b, c, d, e]) (some (.text "k")) = .seq [b, e, d, a, c] := by rfl
  exact ⟨sorted, h, Value.seq.inj (h.symm.trans hsorted), hagain⟩

end Stencil.Filter

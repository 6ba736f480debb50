import Mathlib.Data.List.Perm.Subperm
import Stencil.Entries
import Stencil.Proofs.Order

/-! Equality of values without floats, whose maps have one entry for each key. Two sequences are
equal if they have equal values at each index, two maps if they have equal values under each key:
for maps this takes counting, as only one of the two is looked through. So equality is an
equivalence relation, and how entries are ordered does not matter. -/

namespace Stencil

namespace Entries

variable {α : Type} {es : List (String × α)} {k : String} {v : α}

theorem mem_of_lookup (h : es.lookup k = some v) : (k, v) ∈ es := by
  obtain ⟨l₁, l₂, rfl, -⟩ := List.lookup_eq_some_iff.1 h
  exact List.mem_append_right _ (.head _)

theorem lookup_eq_none_iff : es.lookup k = none ↔ k ∉ keys es := by
  grind [keys, List.lookup_eq_none_iff]

theorem lookup_eq_some_iff_mem (h : (keys es).Nodup) : es.lookup k = some v ↔ (k, v) ∈ es := by
  refine ⟨mem_of_lookup, fun hm => ?_⟩
  induction es with
  | nil => cases hm
  | cons e es ih =>
    obtain ⟨he, h⟩ := List.nodup_cons.1 h
    rw [List.lookup_cons]
    rcases List.mem_cons.1 hm with rfl | hm
    · rw [beq_self_eq_true]
    · have hne : k ≠ e.1 := by
        rintro rfl
        exact he (List.mem_map.2 ⟨_, hm, rfl⟩)
      rw [beq_false_of_ne hne]
      exact ih h hm

theorem lookup_of_perm {fs : List (String × α)} (h : (keys es).Nodup) (hp : es.Perm fs) :
    es.lookup k = fs.lookup k := by
  have h' : (keys fs).Nodup := (hp.map _).nodup_iff.1 h
  refine Option.ext fun v => ?_
  rw [lookup_eq_some_iff_mem h, lookup_eq_some_iff_mem h', hp.mem_iff]

theorem mem_keys_of_length_eq {fs : List (String × α)} (h : (keys es).Nodup)
    (hlen : es.length = fs.length) (hsub : keys es ⊆ keys fs) (hk : k ∈ keys fs) : k ∈ keys es := by
  have hp := (List.subperm_of_subset h hsub).perm_of_length_le (by simp [keys, hlen])
  exact hp.mem_iff.2 hk

end Entries

namespace Value

theorem induct {motive : Value → Prop} (nil : motive .nil) (bool : ∀ b, motive (.bool b))
    (int : ∀ n, motive (.int n)) (float : ∀ x, motive (.float x)) (text : ∀ s, motive (.text s))
    (seq : ∀ items, (∀ a ∈ items, motive a) → motive (.seq items))
    (map : ∀ entries, (∀ e ∈ entries, motive e.2) → motive (.map entries)) (a : Value) :
    motive a := by
  match a with
  | .nil => exact nil
  | .bool b => exact bool b
  | .int n => exact int n
  | .float x => exact float x
  | .text s => exact text s
  | .seq items => exact seq items fun a _ => induct nil bool int float text seq map a
  | .map entries =>
    refine map entries fun (k, a) he => ?_
    have h : 1 + sizeOf k + sizeOf a < sizeOf entries := List.sizeOf_lt_of_mem he
    exact induct nil bool int float text seq map a

/-- A value without floats, with one entry for each key in its maps. -/
structure Plain (a : Value) : Prop where
  floatless : a.isFloatless = true
  keyed : a.isKeyed = true

theorem areFloatless_iff {as : List Value} :
    areFloatless as = true ↔ ∀ a ∈ as, a.isFloatless = true := by
  induction as with
  | nil => simp [areFloatless]
  | cons a as ih => rw [areFloatless, Bool.and_eq_true, ih, List.forall_mem_cons]

theorem areKeyed_iff {as : List Value} : areKeyed as = true ↔ ∀ a ∈ as, a.isKeyed = true := by
  induction as with
  | nil => simp [areKeyed]
  | cons a as ih => rw [areKeyed, Bool.and_eq_true, ih, List.forall_mem_cons]

theorem haveNoFloat_iff {as : List (String × Value)} :
    haveNoFloat as = true ↔ ∀ e ∈ as, e.2.isFloatless = true := by
  induction as with
  | nil => simp [haveNoFloat]
  | cons e as ih => rw [haveNoFloat, Bool.and_eq_true, ih, List.forall_mem_cons]

theorem haveKeys_iff {as : List (String × Value)} :
    haveKeys as = true ↔ (Entries.keys as).Nodup ∧ ∀ e ∈ as, e.2.isKeyed = true := by
  induction as with
  | nil => simp [haveKeys, Entries.keys]
  | cons e as ih =>
    have hn : (Entries.keys (e :: as)).Nodup ↔ e.1 ∉ as.map (·.1) ∧ (Entries.keys as).Nodup :=
      List.nodup_cons
    rw [haveKeys_cons, ih, List.forall_mem_cons, hn, and_assoc,
      and_left_comm (a := e.2.isKeyed = true)]

theorem plain_seq {as : List Value} : Plain (.seq as) ↔ ∀ a ∈ as, Plain a := by
  constructor
  · rintro ⟨hf, hk⟩ a ha
    exact ⟨areFloatless_iff.1 hf a ha, areKeyed_iff.1 hk a ha⟩
  · intro h
    exact ⟨areFloatless_iff.2 fun a ha => (h a ha).floatless,
      areKeyed_iff.2 fun a ha => (h a ha).keyed⟩

theorem plain_map {as : List (String × Value)} :
    Plain (.map as) ↔ (Entries.keys as).Nodup ∧ ∀ e ∈ as, Plain e.2 := by
  constructor
  · rintro ⟨hf, hk⟩
    obtain ⟨hn, hk⟩ := haveKeys_iff.1 hk
    exact ⟨hn, fun e he => ⟨haveNoFloat_iff.1 hf e he, hk e he⟩⟩
  · rintro ⟨hn, h⟩
    exact ⟨haveNoFloat_iff.2 fun e he => (h e he).floatless,
      haveKeys_iff.2 ⟨hn, fun e he => (h e he).keyed⟩⟩

/-- Are there equal values at two places, or none at both? -/
def SameAt (x y : Option Value) : Prop := Option.Rel (fun a b => beq a b = true) x y

theorem SameAt.eq_none_iff {x y : Option Value} (h : SameAt x y) : x = none ↔ y = none := by
  cases h <;> simp

theorem sameAt_comm {x y : Option Value}
    (hs : ∀ a ∈ x, ∀ b ∈ y, (beq a b = true ↔ beq b a = true)) : SameAt x y ↔ SameAt y x := by
  constructor
  · rintro (hab | _)
    · exact .some ((hs _ rfl _ rfl).1 hab)
    · exact .none
  · rintro (hba | _)
    · exact .some ((hs _ rfl _ rfl).2 hba)
    · exact .none

theorem SameAt.trans {x y z : Option Value} (h : SameAt x y) (h' : SameAt y z)
    (ht : ∀ a ∈ x, ∀ b ∈ y, ∀ c ∈ z, beq a b = true → beq b c = true → beq a c = true) :
    SameAt x z := by
  cases h with
  | none => exact h'
  | some hab =>
    cases h' with
    | some hbc => exact .some (ht _ rfl _ rfl _ rfl hab hbc)

theorem beqItems_iff {as bs : List Value} :
    beqItems as bs = true ↔ ∀ i : Nat, SameAt as[i]? bs[i]? := by
  induction as generalizing bs with
  | nil =>
    cases bs with
    | nil => exact ⟨fun _ _ => .none, fun _ => by rw [beqItems]⟩
    | cons b bs => exact ⟨fun h => by simp [beqItems] at h, fun h => nomatch h 0⟩
  | cons a as ih =>
    cases bs with
    | nil => exact ⟨fun h => by simp [beqItems] at h, fun h => nomatch h 0⟩
    | cons b bs =>
      rw [beqItems, Bool.and_eq_true, ih]
      constructor
      · rintro ⟨h0, h⟩ i
        cases i with
        | zero => exact .some h0
        | succ i => exact h i
      · intro h
        cases h 0 with
        | some h0 => exact ⟨h0, fun i => h (i + 1)⟩

theorem within_iff {as bs : List (String × Value)} :
    within as bs = true ↔ ∀ e ∈ as, SameAt (bs.lookup e.1) (some e.2) := by
  induction as with
  | nil => simp [within]
  | cons e as ih =>
    rw [within_cons, Bool.and_eq_true, ih, List.forall_mem_cons]
    refine and_congr ?_ Iff.rfl
    cases bs.lookup e.1 with
    | none => exact ⟨nofun, nofun⟩
    | some b => exact ⟨fun h => .some h, fun h => by cases h; assumption⟩

/-- Two maps are equal if what one has under each key is equal to what the other has there, and none
has a key of its own. -/
theorem beq_map_iff_flip {as bs : List (String × Value)} (ha : (Entries.keys as).Nodup)
    (hb : (Entries.keys bs).Nodup) :
    beq (.map as) (.map bs) = true ↔ ∀ k, SameAt (bs.lookup k) (as.lookup k) := by
  rw [beq, Bool.and_eq_true, beq_iff_eq, within_iff]
  constructor
  · rintro ⟨hlen, h⟩ k
    cases hk : as.lookup k with
    | some a => exact h (k, a) (Entries.mem_of_lookup hk)
    | none =>
      -- the other map has as many keys, and among them all of this one
      have hsub : Entries.keys as ⊆ Entries.keys bs := by
        intro l hl
        obtain ⟨e, he, rfl⟩ := List.mem_map.1 hl
        by_contra hn
        cases (h e he).eq_none_iff.1 (Entries.lookup_eq_none_iff.2 hn)
      have hk' : bs.lookup k = none := Entries.lookup_eq_none_iff.2 fun hm =>
        Entries.lookup_eq_none_iff.1 hk (Entries.mem_keys_of_length_eq ha hlen hsub hm)
      rw [hk']
      exact .none
  · intro h
    have hkeys : ∀ k, k ∈ Entries.keys as ↔ k ∈ Entries.keys bs := by
      intro k
      rw [← not_iff_not, ← Entries.lookup_eq_none_iff, ← Entries.lookup_eq_none_iff]
      exact (h k).eq_none_iff.symm
    have hp := (List.perm_ext_iff_of_nodup ha hb).2 hkeys
    refine ⟨by simpa [Entries.keys] using hp.length_eq, fun e he => ?_⟩
    rw [← (Entries.lookup_eq_some_iff_mem ha).2 he]
    exact h e.1

theorem beq_seq_iff {as bs : List Value} :
    beq (.seq as) (.seq bs) = true ↔ ∀ i : Nat, SameAt as[i]? bs[i]? := by
  rw [beq, beqItems_iff]

theorem eq_of_beq_of_kind {a b : Value} (ha : a.isFloatless = true) (hb : b.isFloatless = true)
    (h : beq a b = true) (hs : a.kind ≠ .seq) (hm : a.kind ≠ .map) : a = b := by
  cases a <;> cases b <;> simp_all [beq, isFloatless, kind]

theorem plain_of_getElem? {as : List Value} (h : Plain (.seq as)) {i : Nat} {a : Value}
    (ha : a ∈ as[i]?) : Plain a :=
  plain_seq.1 h a (List.mem_of_getElem? ha)

theorem plain_of_lookup {as : List (String × Value)} (h : Plain (.map as)) {k : String} {a : Value}
    (ha : a ∈ as.lookup k) : Plain a :=
  (plain_map.1 h).2 (k, a) (Entries.mem_of_lookup ha)

theorem Plain.beq_self {a : Value} (h : Plain a) : beq a a = true :=
  Value.beq_self h.floatless h.keyed

theorem beq_comm {a b : Value} (ha : Plain a) (hb : Plain b) : beq a b = true ↔ beq b a = true := by
  induction a using induct generalizing b with
  | seq as ih =>
    cases b with
    | seq bs =>
      rw [beq_seq_iff, beq_seq_iff]
      refine forall_congr' fun i => sameAt_comm fun a hx b hy => ?_
      exact ih a (List.mem_of_getElem? hx) (plain_of_getElem? ha hx) (plain_of_getElem? hb hy)
    | _ => simp [beq]
  | map as ih =>
    cases b with
    | map bs =>
      have hna := (plain_map.1 ha).1
      have hnb := (plain_map.1 hb).1
      rw [beq_map_iff_flip hna hnb, beq_map_iff_flip hnb hna]
      refine forall_congr' fun k => (sameAt_comm fun a hx b hy => ?_).symm
      exact ih (k, a) (Entries.mem_of_lookup hx) (plain_of_lookup ha hx) (plain_of_lookup hb hy)
    | _ => simp [beq]
  | _ =>
    constructor
    · intro h
      have heq := eq_of_beq_of_kind ha.floatless hb.floatless h nofun nofun
      exact heq ▸ ha.beq_self
    · intro h
      have hfa := ha.floatless
      have hfb := hb.floatless
      cases b <;> simp_all [beq, isFloatless]

theorem beq_map_iff {as bs : List (String × Value)} (ha : Plain (.map as)) (hb : Plain (.map bs)) :
    beq (.map as) (.map bs) = true ↔ ∀ k, SameAt (as.lookup k) (bs.lookup k) := by
  rw [beq_map_iff_flip (plain_map.1 ha).1 (plain_map.1 hb).1]
  refine forall_congr' fun k => sameAt_comm fun b hy a hx => ?_
  exact beq_comm (plain_of_lookup hb hy) (plain_of_lookup ha hx)

theorem beq_trans {a b c : Value} (ha : Plain a) (hb : Plain b) (hc : Plain c)
    (hab : beq a b = true) (hbc : beq b c = true) : beq a c = true := by
  induction a using induct generalizing b c with
  | seq as ih =>
    cases b with
    | seq bs =>
      cases c with
      | seq cs =>
        rw [beq_seq_iff] at hab hbc ⊢
        intro i
        refine (hab i).trans (hbc i) fun a hx b hy c hz => ?_
        exact ih a (List.mem_of_getElem? hx) (plain_of_getElem? ha hx) (plain_of_getElem? hb hy)
          (plain_of_getElem? hc hz)
      | _ => simp [beq] at hbc
    | _ => simp [beq] at hab
  | map as ih =>
    cases b with
    | map bs =>
      cases c with
      | map cs =>
        rw [beq_map_iff ha hb] at hab
        rw [beq_map_iff hb hc] at hbc
        rw [beq_map_iff ha hc]
        intro k
        refine (hab k).trans (hbc k) fun a hx b hy c hz => ?_
        exact ih (k, a) (Entries.mem_of_lookup hx) (plain_of_lookup ha hx) (plain_of_lookup hb hy)
          (plain_of_lookup hc hz)
      | _ => simp [beq] at hbc
    | _ => simp [beq] at hab
  | _ =>
    have heq := eq_of_beq_of_kind ha.floatless hb.floatless hab nofun nofun
    exact heq ▸ hbc

/-- The second value is the first with the entries of maps in other places, at any depth. -/
inductive Reordered : Value → Value → Prop
  | refl (a : Value) : Reordered a a
  | entries {as bs : List (String × Value)} (h : as.Perm bs) : Reordered (.map as) (.map bs)
  | item (before after : List Value) {a b : Value} (h : Reordered a b) :
    Reordered (.seq (before ++ a :: after)) (.seq (before ++ b :: after))
  | entry (before after : List (String × Value)) (k : String) {a b : Value} (h : Reordered a b) :
    Reordered (.map (before ++ (k, a) :: after)) (.map (before ++ (k, b) :: after))
  | trans {a b c : Value} (h : Reordered a b) (h' : Reordered b c) : Reordered a c

theorem Reordered.plain {a b : Value} (h : Reordered a b) (ha : Plain a) : Plain b := by
  induction h with
  | refl a => exact ha
  | entries h =>
    obtain ⟨hn, hp⟩ := plain_map.1 ha
    exact plain_map.2 ⟨(h.map _).nodup_iff.1 hn, fun e he => hp e (h.mem_iff.2 he)⟩
  | item before after h ih =>
    rw [plain_seq, List.forall_mem_append, List.forall_mem_cons] at ha ⊢
    exact ⟨ha.1, ih ha.2.1, ha.2.2⟩
  | entry before after k h ih =>
    rw [plain_map, List.forall_mem_append, List.forall_mem_cons] at ha ⊢
    refine ⟨?_, ha.2.1, ih ha.2.2.1, ha.2.2.2⟩
    have hn := ha.1
    rw [Entries.keys, List.map_append, List.map_cons] at hn ⊢
    exact hn
  | trans h h' ih ih' => exact ih' (ih ha)

theorem sameAt_self {x : Option Value} (h : ∀ a ∈ x, Plain a) : SameAt x x := by
  cases x with
  | none => exact .none
  | some a => exact .some (h a rfl).beq_self

theorem Reordered.beq {a b : Value} (h : Reordered a b) (ha : Plain a) : beq a b = true := by
  induction h with
  | refl a => exact ha.beq_self
  | @entries as bs h =>
    rw [beq_map_iff ha ((Reordered.entries h).plain ha)]
    intro k
    rw [← Entries.lookup_of_perm (plain_map.1 ha).1 h]
    exact sameAt_self fun a hx => plain_of_lookup ha hx
  | @item before after a b h ih =>
    rw [plain_seq, List.forall_mem_append, List.forall_mem_cons] at ha
    rw [beq_seq_iff]
    intro i
    rw [List.getElem?_append, List.getElem?_append]
    split
    · exact sameAt_self fun x hx => ha.1 x (List.mem_of_getElem? hx)
    · rw [List.getElem?_cons, List.getElem?_cons]
      split
      · exact .some (ih ha.2.1)
      · exact sameAt_self fun x hx => ha.2.2 x (List.mem_of_getElem? hx)
  | @entry before after k a b h ih =>
    have hb := (h.entry before after k).plain ha
    rw [beq_map_iff ha hb]
    rw [plain_map, List.forall_mem_append, List.forall_mem_cons] at ha
    intro l
    rw [List.lookup_append, List.lookup_append]
    cases hx : before.lookup l with
    | some x => exact .some (ha.2.1 (l, x) (Entries.mem_of_lookup hx)).beq_self
    | none =>
      rw [List.lookup_cons, List.lookup_cons]
      cases l == k with
      | true => exact .some (ih ha.2.2.1)
      | false => exact sameAt_self fun x hx => ha.2.2.2 (l, x) (Entries.mem_of_lookup hx)
  | trans h h' ih ih' =>
    have hb := h.plain ha
    exact beq_trans ha hb (h'.plain hb) (ih ha) (ih' hb)

/-- Equality is an equivalence relation on values without floats whose maps have distinct keys, and
a value with entries of its maps in other places, at any depth, is equal to it. -/
theorem beq_equivalence {a b c : Value} (ha : Plain a) (hb : Plain b) (hc : Plain c) :
    beq a a = true ∧ (beq a b = true → beq b a = true) ∧
      (beq a b = true → beq b c = true → beq a c = true) ∧
      ∀ a', Reordered a a' → beq a' a = true := by
  refine ⟨ha.beq_self, (beq_comm ha hb).1, beq_trans ha hb hc, fun a' h => ?_⟩
  exact (beq_comm ha (h.plain ha)).1 (h.beq ha)

/-- nested maps in three orders -/
theorem beq_equivalence_nested :
    let a : Value := .seq [.map [("x", .int 1), ("y", .map [("u", .nil), ("v", .text "t")])]]
    let b : Value := .seq [.map [("y", .map [("u", .nil), ("v", .text "t")]), ("x", .int 1)]]
    let c : Value := .seq [.map [("y", .map [("v", .text "t"), ("u", .nil)]), ("x", .int 1)]]
    Plain a ∧ Plain b ∧ Plain c ∧ beq a a = true ∧ beq b a = true ∧ beq a c = true ∧
      beq c a = true := by
  intro a b c
  have ha : Plain a := ⟨by decide, by decide⟩
  have hb : Plain b := ⟨by decide, by decide⟩
  have hc : Plain c := ⟨by decide, by decide⟩
  have hab : beq a b = true := by decide +kernel
  have hbc : beq b c = true := by decide +kernel
  have hr : Reordered a b := .item [] [] (.entries (.swap _ _ _))
  have hr' : Reordered b c := .item [] [] (.entry [] _ "y" (.entries (.swap _ _ _)))
  obtain ⟨hself, hsymm, htrans, hre⟩ := beq_equivalence ha hb hc
  exact ⟨ha, hb, hc, hself, hsymm hab, htrans hab hbc, hre c (hr.trans hr')⟩

end Value

end Stencil

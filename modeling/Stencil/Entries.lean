/-! Keyed entries in insertion order. Writing to a key that is there keeps its place, a new key goes
to the end, and dropping a key closes the gap. -/

namespace Stencil.Entries

variable {α : Type}

def keys (es : List (String × α)) : List String := es.map (·.1)

def put (k : String) (v : α) : List (String × α) → List (String × α)
  | [] => [(k, v)]
  | e :: es => if e.1 == k then (k, v) :: es else e :: put k v es

def drop (k : String) (es : List (String × α)) : List (String × α) := es.filter (·.1 != k)

/-- writes all entries of the second list over those of the first -/
def putAll (es new : List (String × α)) : List (String × α) :=
  new.foldl (fun es e => put e.1 e.2 es) es

/-- entries in the order in which their keys first appear, each with its last value -/
def ofList (es : List (String × α)) : List (String × α) := putAll [] es

theorem lookup_put (k k' : String) (v : α) (es : List (String × α)) :
    (put k v es).lookup k' = if k' = k then some v else es.lookup k' := by
  induction es with
  | nil => grind [put]
  | cons e es ih =>
    obtain ⟨k₁, v₁⟩ := e
    grind [put]

theorem lookup_drop (k k' : String) (es : List (String × α)) :
    (drop k es).lookup k' = if k' = k then none else es.lookup k' := by
  induction es with
  | nil => simp [drop]
  | cons e es ih =>
    obtain ⟨k₁, v₁⟩ := e
    grind [drop]

theorem put_put (k : String) (v w : α) (es : List (String × α)) :
    put k v (put k w es) = put k v es := by
  induction es with
  | nil => simp [put]
  | cons e es ih => grind [put]

theorem put_of_lookup {k : String} {v : α} {es : List (String × α)} (h : es.lookup k = some v) :
    put k v es = es := by
  induction es with
  | nil => simp at h
  | cons e es ih =>
    obtain ⟨k₁, v₁⟩ := e
    grind [put]

theorem put_of_notMem {k : String} {es : List (String × α)} (h : k ∉ keys es) (v : α) :
    put k v es = es ++ [(k, v)] := by
  induction es with
  | nil => rfl
  | cons e es ih =>
    rw [keys, List.map_cons, List.mem_cons, not_or] at h
    rw [put, if_neg (by simpa using Ne.symm h.1), ih h.2, List.cons_append]

/-- Writes to different keys can change places if one of the keys has its place already. -/
theorem put_comm {k k' : String} (hk : k ≠ k') {es : List (String × α)}
    (h : (es.lookup k).isSome) (v w : α) : put k v (put k' w es) = put k' w (put k v es) := by
  induction es with
  | nil => simp at h
  | cons e es ih =>
    obtain ⟨k₁, v₁⟩ := e
    grind [put]

theorem drop_put (k : String) (v : α) (es : List (String × α)) :
    drop k (put k v es) = drop k es := by
  induction es with
  | nil => simp [put, drop]
  | cons e es ih => grind [put, drop]

theorem drop_put_comm {k k' : String} (hk : k ≠ k') (v : α) (es : List (String × α)) :
    drop k (put k' v es) = put k' v (drop k es) := by
  induction es with
  | nil => grind [put, drop]
  | cons e es ih => grind [put, drop]

theorem drop_of_lookup {k : String} {es : List (String × α)} (h : es.lookup k = none) :
    drop k es = es := by
  induction es with
  | nil => rfl
  | cons e es ih =>
    obtain ⟨k₁, v₁⟩ := e
    grind [drop]

theorem filter_put (p : String → Bool) {k : String} (hk : p k = false) (v : α)
    (es : List (String × α)) :
    (put k v es).filter (fun e => p e.1) = es.filter (fun e => p e.1) := by
  induction es with
  | nil => simp [put, hk]
  | cons e es ih => grind [put]

theorem filter_drop (p : String → Bool) {k : String} (hk : p k = false)
    (es : List (String × α)) :
    (drop k es).filter (fun e => p e.1) = es.filter (fun e => p e.1) := by
  rw [drop, List.filter_filter]
  apply List.filter_congr
  rintro ⟨k', v⟩ -
  by_cases he : k' = k
  · simp [he, hk]
  · simp [he]

theorem keys_put (k : String) (v : α) (es : List (String × α)) :
    keys (put k v es) = if k ∈ keys es then keys es else keys es ++ [k] := by
  induction es with
  | nil => simp [put, keys]
  | cons e es ih =>
    obtain ⟨k₁, v₁⟩ := e
    grind [put, keys]

theorem keys_drop (k : String) (es : List (String × α)) :
    keys (drop k es) = (keys es).filter (· != k) := by
  simp [keys, drop, List.filter_map, Function.comp_def]

theorem nodup_put {k : String} {v : α} {es : List (String × α)} (h : (keys es).Nodup) :
    (keys (put k v es)).Nodup := by
  rw [keys_put]
  split
  · exact h
  · rename_i hk
    rw [List.nodup_append]
    refine ⟨h, by simp, ?_⟩
    intro a ha b hb
    simp only [List.mem_singleton] at hb
    rintro rfl
    exact hk (hb ▸ ha)

theorem nodup_drop {k : String} {es : List (String × α)} (h : (keys es).Nodup) :
    (keys (drop k es)).Nodup := by
  rw [keys_drop]
  exact h.filter _

theorem nodup_putAll {es new : List (String × α)} (h : (keys es).Nodup) :
    (keys (putAll es new)).Nodup := by
  induction new generalizing es with
  | nil => exact h
  | cons e new ih => exact ih (nodup_put h)

theorem nodup_ofList (es : List (String × α)) : (keys (ofList es)).Nodup :=
  nodup_putAll (by simp [keys])

theorem putAll_of_nodup {es new : List (String × α)} (h : (keys (es ++ new)).Nodup) :
    putAll es new = es ++ new := by
  induction new generalizing es with
  | nil => rw [List.append_nil]; rfl
  | cons e new ih =>
    have hnotMem : e.1 ∉ keys es := by
      rw [keys, List.map_append, List.nodup_append] at h
      exact fun hk => h.2.2 _ hk _ (.head _) rfl
    rw [putAll, List.foldl_cons, put_of_notMem hnotMem, ← putAll, ih (by simpa using h)]
    simp

theorem ofList_of_nodup {es : List (String × α)} (h : (keys es).Nodup) : ofList es = es :=
  putAll_of_nodup h

end Stencil.Entries

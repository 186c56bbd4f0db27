import Mathlib.Data.List.Perm.Basic

/- Dictionaries with unique keys, kept in the order of insertion. The order in
   which one is walked is up to the interpreter: any rearrangement of it. -/
set_option autoImplicit false

namespace AppFit.Dict

variable {Key Entry : Type} [DecidableEq Key]

def lookup (query : Key) : List (Key × Entry) → Option Entry
  | [] => none
  | (key, entry) :: rest => if key = query then some entry else lookup query rest

def assign (dict : List (Key × Entry)) (key : Key) (entry : Entry) : List (Key × Entry) :=
  match dict with
  | [] => [(key, entry)]
  | (first, old) :: rest => if first = key then (key, entry) :: rest else (first, old) :: assign rest key entry

-- dict(pairs): of equal keys the last one counts.
def ofPairs (pairs : List (Key × Entry)) : List (Key × Entry) :=
  pairs.foldl (fun dict pair => assign dict pair.1 pair.2) []

def Distinct (dict : List (Key × Entry)) : Prop := (dict.map Prod.fst).Nodup

structure WalkOrder (Key Entry : Type) where
  arrange : List (Key × Entry) → List (Key × Entry)
  perm : ∀ dict, (arrange dict).Perm dict

theorem lookup_assign (dict : List (Key × Entry)) (key query : Key) (entry : Entry) :
    lookup query (assign dict key entry) = if key = query then some entry else lookup query dict := by
  induction dict with
  | nil => rfl
  | cons pair rest ih =>
      obtain ⟨first, old⟩ := pair
      rw [assign]
      by_cases here : first = key
      · subst here
        rw [if_pos rfl, lookup, lookup]
        split <;> rfl
      · rw [if_neg here, lookup, lookup, ih]
        by_cases found : first = query
        · subst found
          rw [if_pos rfl, if_neg (Ne.symm here), if_pos rfl]
        · rw [if_neg found, if_neg found]

theorem mem_assign (dict : List (Key × Entry)) (key : Key) (entry : Entry) : (key, entry) ∈ assign dict key entry := by
  induction dict with
  | nil => exact List.mem_singleton_self _
  | cons pair rest ih =>
      rw [assign]
      split
      · exact List.mem_cons_self
      · exact List.mem_cons_of_mem _ ih

theorem mem_of_assign (dict : List (Key × Entry)) (key : Key) (entry : Entry) (pair : Key × Entry)
    (member : pair ∈ assign dict key entry) : pair = (key, entry) ∨ pair ∈ dict := by
  induction dict with
  | nil => exact .inl (List.mem_singleton.mp member)
  | cons first rest ih =>
      rw [assign] at member
      split at member
      · rcases List.mem_cons.mp member with here | later
        · exact .inl here
        · exact .inr (List.mem_cons_of_mem _ later)
      · rcases List.mem_cons.mp member with here | later
        · exact .inr (here ▸ List.mem_cons_self)
        · exact (ih later).imp_right (List.mem_cons_of_mem _)

theorem mem_of_pairs (pairs : List (Key × Entry)) (pair : Key × Entry) (member : pair ∈ ofPairs pairs) :
    pair ∈ pairs := by
  suffices known : ∀ dict, pair ∈ pairs.foldl (fun dict pair => assign dict pair.1 pair.2) dict →
      pair ∈ dict ∨ pair ∈ pairs by
    rcases known [] member with none | given
    · cases none
    · exact given
  clear member
  induction pairs with
  | nil => exact fun dict member => .inl member
  | cons first rest ih =>
      intro dict member
      rcases ih _ member with assigned | later
      · rcases mem_of_assign dict first.1 first.2 pair assigned with here | old
        · exact .inr (here ▸ List.mem_cons_self)
        · exact .inl old
      · exact .inr (List.mem_cons_of_mem _ later)

theorem mem_assign_keys (dict : List (Key × Entry)) (key query : Key) (entry : Entry) :
    query ∈ (assign dict key entry).map Prod.fst ↔ query = key ∨ query ∈ dict.map Prod.fst := by
  induction dict with
  | nil => simp [assign]
  | cons pair rest ih =>
      obtain ⟨first, old⟩ := pair
      rw [assign]
      by_cases here : first = key
      · simp [here]
      · rw [if_neg here, List.map_cons, List.mem_cons, ih, List.map_cons, List.mem_cons]
        exact or_left_comm

theorem distinct_assign (dict : List (Key × Entry)) (key : Key) (entry : Entry) (distinct : Distinct dict) :
    Distinct (assign dict key entry) := by
  induction dict with
  | nil => simp [assign, Distinct]
  | cons pair rest ih =>
      obtain ⟨first, old⟩ := pair
      obtain ⟨absent, others⟩ := List.nodup_cons.mp distinct
      rw [assign]
      by_cases here : first = key
      · subst here
        rw [if_pos rfl]
        exact List.nodup_cons.mpr ⟨absent, others⟩
      · rw [if_neg here]
        refine List.nodup_cons.mpr ⟨fun again => ?_, ih others⟩
        rcases (mem_assign_keys rest key first entry).mp again with same | old
        · exact here same
        · exact absent old

theorem distinct_of_pairs (pairs : List (Key × Entry)) : Distinct (ofPairs pairs) := by
  suffices kept : ∀ dict, Distinct dict →
      Distinct (pairs.foldl (fun dict pair => assign dict pair.1 pair.2) dict) from kept [] List.nodup_nil
  induction pairs with
  | nil => exact fun dict distinct => distinct
  | cons pair rest ih => exact fun dict distinct => ih _ (distinct_assign dict pair.1 pair.2 distinct)

theorem assign_fresh (dict : List (Key × Entry)) (key : Key) (entry : Entry) (fresh : key ∉ dict.map Prod.fst) :
    assign dict key entry = dict ++ [(key, entry)] := by
  induction dict with
  | nil => rfl
  | cons pair rest ih =>
      obtain ⟨first, old⟩ := pair
      rw [List.map_cons, List.mem_cons, not_or] at fresh
      rw [assign, if_neg (Ne.symm fresh.1), ih fresh.2, List.cons_append]

theorem of_pairs_distinct (pairs : List (Key × Entry)) (distinct : Distinct pairs) : ofPairs pairs = pairs := by
  suffices appended : ∀ dict, Distinct (dict ++ pairs) →
      pairs.foldl (fun dict pair => assign dict pair.1 pair.2) dict = dict ++ pairs from appended [] distinct
  clear distinct
  induction pairs with
  | nil => exact fun dict _ => (List.append_nil dict).symm
  | cons pair rest ih =>
      intro dict distinct
      have fresh : pair.1 ∉ dict.map Prod.fst := by
        rw [Distinct, List.map_append, List.nodup_append] at distinct
        exact fun member => distinct.2.2 pair.1 member pair.1 List.mem_cons_self rfl
      have joined : dict ++ [(pair.1, pair.2)] ++ rest = dict ++ pair :: rest := by simp
      rw [List.foldl_cons, assign_fresh dict pair.1 pair.2 fresh, ih _ (by rw [joined]; exact distinct), joined]

theorem lookup_eq_some_iff (dict : List (Key × Entry)) (distinct : Distinct dict) (key : Key) (entry : Entry) :
    lookup key dict = some entry ↔ (key, entry) ∈ dict := by
  induction dict with
  | nil => simp [lookup]
  | cons pair rest ih =>
      obtain ⟨first, old⟩ := pair
      obtain ⟨absent, others⟩ := List.nodup_cons.mp distinct
      rw [lookup, List.mem_cons]
      by_cases here : first = key
      · subst here
        have later : (first, entry) ∉ rest := fun member => absent (List.mem_map.mpr ⟨_, member, rfl⟩)
        simp [later, eq_comm]
      · rw [if_neg here, ih others]
        simp [Ne.symm here]

theorem lookup_perm (one other : List (Key × Entry)) (perm : one.Perm other) (distinct : Distinct other) (key : Key) :
    lookup key one = lookup key other := by
  have distinctOne : Distinct one := (perm.map Prod.fst).nodup_iff.mpr distinct
  refine Option.ext fun entry => ?_
  rw [lookup_eq_some_iff one distinctOne, lookup_eq_some_iff other distinct, perm.mem_iff]

-- Written in any order and read back, a dictionary is the same.
theorem lookup_arranged (order : WalkOrder Key Entry) (dict : List (Key × Entry)) (distinct : Distinct dict) (key : Key) :
    lookup key (ofPairs (order.arrange dict)) = lookup key dict := by
  have perm := order.perm dict
  have arranged : Distinct (order.arrange dict) := (perm.map Prod.fst).nodup_iff.mpr distinct
  rw [of_pairs_distinct _ arranged, lookup_perm _ _ perm distinct]

end AppFit.Dict

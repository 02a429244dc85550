/-
# Tables of entries

A table is a list of entries in the order in which they were added.  It is searched for the first entry
with a property, and an entry is taken out by its key.

The searches are those of C functions that set their result in the loop only: where the table is empty,
the result is whatever the variable held.  If that is not `NULL`, nothing can be said of what follows,
and the search has no value.

* `purge_eq`: taking out one entry after another leaves those without the property.
* `isSome_lookup`, `isSome_purge`: when nothing goes wild.

Nothing here names the driver.
-/
import Mathlib.Data.List.Nodup

namespace AndixOs

variable {α κ : Type} {p : α → Bool} {key : α → κ} {nul : Bool} {l l₁ l₂ : List α} {x y : α}

/-! ## 1. Searches -/

/-- The first entry with the property.  `nul` says whether the result of a search in an empty table
happens to be `NULL`. -/
def lookup (nul : Bool) (p : α → Bool) (l : List α) : Option (Option α) :=
  if l.isEmpty && !nul then none else some (l.find? p)

theorem lookup_of_ne_nil (h : l ≠ []) : lookup nul p l = some (l.find? p) := by
  cases l with
  | nil => exact absurd rfl h
  | cons x l => rfl

/-- A search for something that is there. -/
theorem lookup_of_find (h : l.find? p = some x) : lookup nul p l = some (some x) := by
  rw [lookup_of_ne_nil, h]
  rintro rfl
  exact absurd h nofun

theorem lookup_eq_some (h : lookup nul p l = some (some x)) : l.find? p = some x := by
  rw [lookup] at h
  split at h
  · exact absurd h nofun
  · exact Option.some.inj h

theorem lookup_eq_none (h : lookup nul p l = some none) : l.find? p = none := by
  rw [lookup] at h
  split at h
  · exact absurd h nofun
  · exact Option.some.inj h

/-- There is something to search, or a search in the empty table finds `NULL`. -/
def Searchable (nul : Bool) (l : List α) : Prop := l ≠ [] ∨ nul = true

theorem lookup_of_unset (h : Searchable nul l) : lookup nul p l = some (l.find? p) := by
  obtain h | rfl := h
  · exact lookup_of_ne_nil h
  · rw [lookup, Bool.not_true, Bool.and_false]
    rfl

theorem lookup_nil : lookup false p [] = none := rfl

theorem Searchable.mono {l' : List α} (h : Searchable nul l) (hsub : l ⊆ l') : Searchable nul l' :=
  h.imp_left fun hl hnil => hl (List.subset_nil.mp (hnil ▸ hsub))

/-- The searches that have a value. -/
theorem isSome_lookup : (lookup nul p l).isSome = true ↔ Searchable nul l := by
  cases l <;> cases nul <;> simp [lookup, Searchable]

/-- An entry with the property makes a search succeed. -/
theorem exists_find_of_mem (hx : x ∈ l) (hp : p x = true) : ∃ y, l.find? p = some y ∧ p y = true := by
  obtain ⟨y, hy⟩ := Option.isSome_iff_exists.mp (List.find?_isSome.mpr ⟨x, hx, hp⟩)
  exact ⟨y, hy, List.find?_some hy⟩

/-- Whether a search finds something does not depend on what its result held. -/
theorem exists_lookup : (∃ x, lookup nul p l = some (some x)) ↔ ∃ x ∈ l, p x = true := by
  constructor
  · rintro ⟨x, hx⟩
    have hfind := lookup_eq_some hx
    exact ⟨x, List.mem_of_find?_eq_some hfind, List.find?_some hfind⟩
  · rintro ⟨x, hx, hp⟩
    obtain ⟨y, hy, -⟩ := exists_find_of_mem hx hp
    exact ⟨y, lookup_of_find hy⟩

/-- A new entry behind those without the property. -/
theorem find_snoc (hnone : ∀ y ∈ l, p y = false) (hp : p x = true) : (l ++ [x]).find? p = some x := by
  have hl : l.find? p = none := List.find?_eq_none.mpr fun y hy => by rw [hnone y hy]; decide
  rw [List.find?_append, hl, Option.none_or, List.find?_cons, hp]

/-! ## 2. Taking out entries -/

section Remove

variable [DecidableEq κ]

/-- The first entry with the key is taken out. -/
def remove (key : α → κ) (k : κ) (l : List α) : List α := l.eraseP fun x => key x = k

theorem length_remove (key : α → κ) (hx : x ∈ l) : (remove key (key x) l).length + 1 = l.length := by
  have hpos : 0 < l.length := List.length_pos_of_mem hx
  rw [remove, List.length_eraseP_of_mem hx (decide_eq_true rfl)]
  omega

theorem remove_sublist (k : κ) : (remove key k l).Sublist l := List.eraseP_sublist

theorem remove_of_not_mem {k : κ} (h : k ∉ l.map key) : remove key k l = l := by
  refine List.eraseP_of_forall_not fun y hy hk => h ?_
  exact List.mem_map.mpr ⟨y, hy, of_decide_eq_true hk⟩

theorem remove_append_right {k : κ} (h : k ∉ l₁.map key) :
    remove key k (l₁ ++ l₂) = l₁ ++ remove key k l₂ := by
  refine List.eraseP_append_right l₂ fun y hy hk => h ?_
  exact List.mem_map.mpr ⟨y, hy, of_decide_eq_true hk⟩

theorem remove_cons_self : remove key (key x) (x :: l) = l :=
  List.eraseP_cons_of_pos (decide_eq_true rfl)

/-- With different keys for different entries, taking out is dropping. -/
theorem remove_eq_filter (hl : (l.map key).Nodup) (k : κ) :
    remove key k l = l.filter fun x => key x ≠ k := by
  induction l with
  | nil => rfl
  | cons y l ih =>
    obtain ⟨hy, hl⟩ := List.nodup_cons.mp hl
    by_cases hk : key y = k
    · subst hk
      have hrest : (l.filter fun x => key x ≠ key y) = l := by
        refine List.filter_eq_self.mpr fun x hx => decide_eq_true fun heq => hy ?_
        exact List.mem_map.mpr ⟨x, hx, heq⟩
      rw [remove_cons_self, List.filter_cons_of_neg (by simp), hrest]
    · rw [List.filter_cons_of_pos (by simpa using hk), ← ih hl, remove, remove,
        List.eraseP_cons_of_neg (by simpa using hk)]

/-- One entry after another is searched for and taken out, until there is none. -/
def purge (nul : Bool) (p : α → Bool) (key : α → κ) : Nat → List α → Option (List α)
  | 0, _ => none
  | fuel + 1, l =>
    match lookup nul p l with
    | none => none
    | some none => some l
    | some (some x) => purge nul p key fuel (remove key (key x) l)

/-- The entries with the property are not all there are, or a search in the empty table finds `NULL`. -/
def SearchesEnd (nul : Bool) (p : α → Bool) (l : List α) : Prop := nul = true ∨ ∃ x ∈ l, p x = false

theorem mem_remove_of_ne (hx : x ∈ l) {k : κ} (hk : key x ≠ k) : x ∈ remove key k l :=
  (List.mem_eraseP_of_neg (by simpa using hk)).mpr hx

/-- **What is left has not the property.** -/
theorem purge_eq (hl : (l.map key).Nodup) {fuel : Nat} (hfuel : l.length < fuel)
    (hend : SearchesEnd nul p l) : purge nul p key fuel l = some (l.filter fun x => !p x) := by
  induction fuel generalizing l with
  | zero => exact absurd hfuel (Nat.not_lt_zero _)
  | succ fuel ih =>
    have hne : Searchable nul l := hend.elim .inr fun ⟨x, hx, _⟩ => .inl (List.ne_nil_of_mem hx)
    rw [purge, lookup_of_unset hne]
    cases hfind : l.find? p with
    | none =>
      have hall : (l.filter fun x => !p x) = l :=
        List.filter_eq_self.mpr fun x hx => by simpa using List.find?_eq_none.mp hfind x hx
      exact congrArg some hall.symm
    | some x =>
      have hx := List.mem_of_find?_eq_some hfind
      have hp := List.find?_some hfind
      have hlen := length_remove key hx
      have hkeys : ((remove key (key x) l).map key).Nodup := hl.sublist ((remove_sublist _).map key)
      have hend' : SearchesEnd nul p (remove key (key x) l) := by
        refine hend.imp_right fun ⟨y, hy, hpy⟩ => ⟨y, mem_remove_of_ne hy fun hk => ?_, hpy⟩
        obtain rfl := List.inj_on_of_nodup_map hl hy hx hk
        rw [hp] at hpy
        exact absurd hpy nofun
      simp only [ih hkeys (by omega) hend']
      -- the entry that was taken out has the property
      rw [remove_eq_filter hl, List.filter_filter]
      refine congrArg some (List.filter_congr fun y hy => ?_)
      by_cases hk : key y = key x
      · obtain rfl : y = x := List.inj_on_of_nodup_map hl hy hx hk
        simp [hp]
      · simp [hk]

/-- Otherwise the last search goes wild. -/
theorem purge_eq_none (fuel : Nat) (hend : ¬SearchesEnd nul p l) : purge nul p key fuel l = none := by
  obtain ⟨hnul, hall⟩ := not_or.mp hend
  induction fuel generalizing l with
  | zero => rfl
  | succ fuel ih =>
    cases l with
    | nil => rw [purge, (Bool.not_eq_true nul).mp hnul, lookup_nil]
    | cons y l =>
      have hy : p y = true := by
        by_contra hy
        exact hall ⟨y, List.mem_cons_self, by simpa using hy⟩
      have hrest : ¬∃ x ∈ remove key (key y) (y :: l), p x = false := fun ⟨x, hx, hp⟩ =>
        hall ⟨x, (remove_sublist _).subset hx, hp⟩
      rw [purge, lookup_of_find (List.find?_cons_of_pos hy)]
      exact ih (not_or.mpr ⟨hnul, hrest⟩) hrest

/-- The purges that have a value. -/
theorem isSome_purge (hl : (l.map key).Nodup) :
    (purge nul p key (l.length + 1) l).isSome = true ↔ SearchesEnd nul p l := by
  by_cases hend : SearchesEnd nul p l
  · rw [purge_eq hl (Nat.lt_succ_self _) hend]
    exact iff_of_true rfl hend
  · rw [purge_eq_none _ hend]
    exact iff_of_false nofun hend

/-- A purge only takes out entries. -/
theorem purge_sublist {fuel : Nat} {l' : List α} (h : purge nul p key fuel l = some l') : l'.Sublist l := by
  induction fuel generalizing l with
  | zero => cases h
  | succ fuel ih =>
    rw [purge] at h
    split at h
    · cases h
    · rw [Option.some.inj h]
    · exact (ih h).trans (remove_sublist _)

/-- Entries are changed where they stand. -/
def modify (key : α → κ) (k : κ) (f : α → α) (l : List α) : List α :=
  l.map fun x => if key x = k then f x else x

theorem modify_of_not_mem {k : κ} {f : α → α} (h : k ∉ l.map key) : modify key k f l = l := by
  refine (List.map_congr_left fun x hx => if_neg fun hk => h ?_).trans (List.map_id l)
  exact List.mem_map.mpr ⟨x, hx, hk⟩

/-- A change that leaves the key alone. -/
theorem map_modify {k : κ} {f : α → α} (hf : ∀ x, key (f x) = key x) : (modify key k f l).map key = l.map key := by
  rw [modify, List.map_map]
  refine List.map_congr_left fun x _ => ?_
  rw [Function.comp_apply]
  split
  · exact hf x
  · rfl

theorem modify_snoc (key : α → κ) {f : α → α} (h : key x ∉ l.map key) :
    modify key (key x) f (l ++ [x]) = l ++ [f x] := by
  have hl := modify_of_not_mem (f := f) h
  rw [modify] at hl ⊢
  rw [List.map_append, hl, List.map_singleton, if_pos rfl]

end Remove

end AndixOs

import Mathlib.Data.List.Nodup
import Mathlib.Data.List.Perm.Basic

/-!
# The first thing found in a list

`findSome?` searches a list in order. The result is the same in every order if and only if all
things to be found in the list are alike.
-/

namespace Newsintel.FirstFound

variable {α β κ : Type*} {f g : α → Option β} {key : α → κ} {xs ys : List α}

/-- All that can be found in the list is alike. -/
def Alike (f : α → Option β) (xs : List α) : Prop :=
  ∀ a ∈ xs, ∀ b ∈ xs, ∀ x ∈ f a, ∀ y ∈ f b, x = y

instance [DecidableEq β] : Decidable (Alike f xs) := inferInstanceAs (Decidable (∀ a ∈ xs, _))

theorem Alike.findSome?_eq (h : Alike f xs) (hperm : xs.Perm ys) :
    ys.findSome? f = xs.findSome? f := by
  cases hx : xs.findSome? f with
  | none =>
    rw [List.findSome?_eq_none_iff] at hx ⊢
    exact fun a ha => hx a (hperm.mem_iff.mpr ha)
  | some x =>
    obtain ⟨a, ha, hax⟩ := List.exists_of_findSome?_eq_some hx
    cases hy : ys.findSome? f with
    | none =>
      rw [List.findSome?_eq_none_iff] at hy
      rw [hy a (hperm.mem_iff.mp ha)] at hax
      cases hax
    | some y =>
      obtain ⟨b, hb, hby⟩ := List.exists_of_findSome?_eq_some hy
      rw [h a ha b (hperm.mem_iff.mpr hb) x hax y hby]

/- What is moved to the front is found first. -/
theorem alike_iff :
    Alike f xs ↔ ∀ ys, xs.Perm ys → ys.findSome? f = xs.findSome? f := by
  constructor
  · exact fun h ys hperm => h.findSome?_eq hperm
  · intro h a ha b hb x hx y hy
    have hfront : ∀ c ∈ xs, ∀ z ∈ f c, xs.findSome? f = some z := by
      intro c hc z hz
      obtain ⟨before, after, rfl⟩ := List.append_of_mem hc
      rw [← h (c :: (before ++ after)) List.perm_middle, List.findSome?_cons, hz]
    have heq := (hfront a ha x hx).symm.trans (hfront b hb y hy)
    exact Option.some.inj heq

/- Only one element has the key. -/
theorem alike_of_nodup (h : (xs.map key).Nodup) {k : κ} (hkey : ∀ a, f a ≠ none → key a = k) :
    Alike f xs := by
  intro a ha b hb x hx y hy
  have hka : key a = k := hkey a (by rw [hx]; nofun)
  have hkb : key b = k := hkey b (by rw [hy]; nofun)
  rw [List.inj_on_of_nodup_map h ha hb (hka.trans hkb.symm)] at hx
  exact Option.some.inj (hx.symm.trans hy)

theorem filter_eq_of_nodup (h : (xs.map key).Nodup) (hperm : xs.Perm ys) {p : α → Bool} {k : κ}
    (hkey : ∀ a, p a → key a = k) : ys.filter p = xs.filter p := by
  have hfilter : (ys.filter p).Perm (xs.filter p) := hperm.symm.filter p
  cases hx : xs.filter p with
  | nil => rwa [hx, List.perm_nil] at hfilter
  | cons a rest =>
    cases rest with
    | nil => rwa [hx, List.perm_singleton] at hfilter
    | cons b rest =>
      have hnodup : ((xs.filter p).map key).Nodup := (List.filter_sublist.map key).nodup h
      have hfound : ∀ c ∈ xs.filter p, key c = k := fun c hc => hkey c (List.mem_filter.mp hc).2
      rw [hx] at hnodup hfound
      have hab : key a = key b := (hfound a (by simp)).trans (hfound b (by simp)).symm
      rw [List.map_cons, List.map_cons, hab] at hnodup
      exact absurd hnodup (by simp)

/-! ### Lists of which each element is searched -/

theorem filterMap_eq_of_map (hmap : xs.map key = ys.map key)
    (h : ∀ x ∈ xs, ∀ y, key x = key y → f x = f y) : xs.filterMap f = ys.filterMap f := by
  induction xs generalizing ys with
  | nil =>
    rw [List.map_nil, eq_comm, List.map_eq_nil_iff] at hmap
    rw [hmap]
  | cons x xs ih =>
    cases ys with
    | nil => cases hmap
    | cons y ys =>
      rw [List.map_cons, List.map_cons, List.cons.injEq] at hmap
      rw [List.forall_mem_cons] at h
      rw [List.filterMap_cons, List.filterMap_cons, h.1 y hmap.1, ih hmap.2 h.2]

theorem filterMap_perm_of_map (hmap : (xs.map key).Perm (ys.map key))
    (h : ∀ x ∈ xs, ∀ y, key x = key y → f x = f y) :
    (xs.filterMap f).Perm (ys.filterMap f) := by
  obtain ⟨zs, hzs, hperm⟩ : Relation.Comp (fun l l' => l = List.map key l') List.Perm
      (xs.map key) ys := by
    rw [List.eq_map_comp_perm]
    exact hmap
  rw [filterMap_eq_of_map hzs h]
  exact hperm.filterMap f

theorem eq_of_cons_perm {x y : α} (h : (x :: xs).Perm (y :: xs)) : x = y := by
  have happend : ([x] ++ xs).Perm ([y] ++ xs) := h
  rw [List.perm_append_right_iff] at happend
  exact List.singleton_perm_singleton.mp happend

theorem length_filterMap_le (h : ∀ x ∈ xs, g x ≠ none → f x ≠ none) :
    (xs.filterMap g).length ≤ (xs.filterMap f).length := by
  induction xs with
  | nil => exact Nat.le_refl 0
  | cons x xs ih =>
    rw [List.forall_mem_cons] at h
    have hrest := ih h.2
    cases hg : g x with
    | none =>
      rw [List.filterMap_cons_none hg]
      cases hf : f x with
      | none => rwa [List.filterMap_cons_none hf]
      | some b =>
        rw [List.filterMap_cons_some hf, List.length_cons]
        omega
    | some b =>
      obtain ⟨c, hf⟩ := Option.ne_none_iff_exists'.mp (h.1 (by rw [hg]; nofun))
      rw [List.filterMap_cons_some hg, List.filterMap_cons_some hf, List.length_cons,
        List.length_cons]
      omega

/- Where the one finds something whenever the other does, equal lists are found element by
element. -/
theorem filterMap_eq_iff (h : ∀ x ∈ xs, g x ≠ none → f x ≠ none) :
    xs.filterMap f = xs.filterMap g ↔ ∀ x ∈ xs, f x = g x := by
  constructor
  · intro heq
    induction xs with
    | nil => exact List.forall_mem_nil _
    | cons x xs ih =>
      rw [List.forall_mem_cons] at h ⊢
      cases hf : f x with
      | none =>
        have hg : g x = none := by
          by_contra hsome
          exact h.1 hsome hf
        rw [List.filterMap_cons_none hf, List.filterMap_cons_none hg] at heq
        exact ⟨hg.symm, ih h.2 heq⟩
      | some b =>
        cases hg : g x with
        | none =>
          rw [List.filterMap_cons_some hf, List.filterMap_cons_none hg] at heq
          have hle := length_filterMap_le h.2
          rw [← heq, List.length_cons] at hle
          omega
        | some c =>
          rw [List.filterMap_cons_some hf, List.filterMap_cons_some hg, List.cons.injEq] at heq
          exact ⟨congrArg some heq.1, ih h.2 heq.2⟩
  · exact List.filterMap_congr

end Newsintel.FirstFound

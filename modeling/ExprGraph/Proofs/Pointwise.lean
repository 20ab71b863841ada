import Mathlib.Data.List.Forall2
/-!
  Lists related place by place.

  Children of vertices and their terms, vertices and their results, old and new children: all of them are
  lists of equal length whose members at one place are related (`List.Forall₂`).  This module has what is
  needed of such lists: reading them by place, changing one place, and computing along them.
-/

namespace ExprGraph

namespace Pointwise

variable {α β γ δ ε : Type} {R S : α → β → Prop}

/-- A relation between lists may be weakened using that the related members come from the lists. -/
theorem imp_mem {as : List α} {bs : List β} (h : List.Forall₂ R as bs)
    (himp : ∀ a ∈ as, ∀ b ∈ bs, R a b → S a b) : List.Forall₂ S as bs := by
  induction h with
  | nil => exact .nil
  | cons hab _ ih =>
    refine .cons (himp _ List.mem_cons_self _ List.mem_cons_self hab) (ih ?_)
    exact fun a ha b hb => himp a (List.mem_cons_of_mem _ ha) b (List.mem_cons_of_mem _ hb)

/-- What exists for every member exists for the list. -/
theorem exists_of_forall {as : List α} (h : ∀ a ∈ as, ∃ b, R a b) : ∃ bs, List.Forall₂ R as bs := by
  induction as with
  | nil => exact ⟨[], .nil⟩
  | cons a as ih =>
    obtain ⟨b, hb⟩ := h a List.mem_cons_self
    obtain ⟨bs, hbs⟩ := ih fun c hc => h c (List.mem_cons_of_mem _ hc)
    exact ⟨b :: bs, .cons hb hbs⟩

/-- A member of the first list is related to one of the second. -/
theorem exists_right {as : List α} {bs : List β} (h : List.Forall₂ R as bs) {a : α} (ha : a ∈ as) :
    ∃ b ∈ bs, R a b := by
  induction h with
  | nil => exact absurd ha List.not_mem_nil
  | cons hab _ ih =>
    rcases List.mem_cons.mp ha with rfl | ha
    · exact ⟨_, List.mem_cons_self, hab⟩
    · obtain ⟨b, hb, hr⟩ := ih ha
      exact ⟨b, List.mem_cons_of_mem _ hb, hr⟩

/-- A member of the second list is related to one of the first. -/
theorem exists_left {as : List α} {bs : List β} (h : List.Forall₂ R as bs) {b : β} (hb : b ∈ bs) :
    ∃ a ∈ as, R a b := by
  induction h with
  | nil => exact absurd hb List.not_mem_nil
  | cons hab _ ih =>
    rcases List.mem_cons.mp hb with rfl | hb
    · exact ⟨_, List.mem_cons_self, hab⟩
    · obtain ⟨a, ha, hr⟩ := ih hb
      exact ⟨a, List.mem_cons_of_mem _ ha, hr⟩

theorem isEmpty_eq {as : List α} {bs : List β} (h : List.Forall₂ R as bs) : as.isEmpty = bs.isEmpty := by
  cases h <;> rfl

/-- Lists are related when they are equally long and related at every place. -/
theorem iff_getElem? {as : List α} {bs : List β} :
    List.Forall₂ R as bs ↔
      as.length = bs.length ∧ ∀ (i : Nat) a b, as[i]? = some a → bs[i]? = some b → R a b := by
  rw [List.forall₂_iff_get]
  constructor
  · rintro ⟨hlen, h⟩
    refine ⟨hlen, fun i a b ha hb => ?_⟩
    obtain ⟨hi, rfl⟩ := List.getElem?_eq_some_iff.mp ha
    obtain ⟨hj, rfl⟩ := List.getElem?_eq_some_iff.mp hb
    exact h i hi hj
  · rintro ⟨hlen, h⟩
    refine ⟨hlen, fun i hi hj => ?_⟩
    exact h i _ _ (List.getElem?_eq_getElem hi) (List.getElem?_eq_getElem hj)

/-- Lists that differ at one place are equal at every other. -/
theorem getElem?_append_cons_of_ne {as cs : List α} (a b : α) {j : Nat} (hj : j ≠ as.length) :
    (as ++ a :: cs)[j]? = (as ++ b :: cs)[j]? := by
  rcases Nat.lt_or_gt_of_ne hj with hlt | hgt
  · rw [List.getElem?_append_left hlt, List.getElem?_append_left hlt]
  · obtain ⟨k, hk⟩ := Nat.exists_eq_add_of_lt hgt
    rw [List.getElem?_append_right (by omega), List.getElem?_append_right (by omega),
      show j - as.length = k + 1 by omega]
    rfl

/-- Related links have related children. -/
theorem getD_nil {as : Option (List α)} {bs : Option (List β)}
    (h : Option.Rel (List.Forall₂ R) as bs) : List.Forall₂ R (as.getD []) (bs.getD []) := by
  cases h with
  | some h => exact h
  | none => exact .nil

/-- Links are related as soon as they are both there or both absent, and the children are related. -/
theorem rel_of_getD {as : Option (List α)} {bs : Option (List β)} (hsome : as.isSome = bs.isSome)
    (h : List.Forall₂ R (as.getD []) (bs.getD [])) : Option.Rel (List.Forall₂ R) as bs := by
  cases as with
  | none =>
    cases bs with
    | none => exact .none
    | some bs => simp at hsome
  | some as =>
    cases bs with
    | none => simp at hsome
    | some bs => exact .some h

/-- Links may be weakened like lists. -/
theorem links_imp_mem {as : Option (List α)} {bs : Option (List β)}
    (h : Option.Rel (List.Forall₂ R) as bs)
    (himp : ∀ a ∈ as.getD [], ∀ b ∈ bs.getD [], R a b → S a b) :
    Option.Rel (List.Forall₂ S) as bs := by
  cases h with
  | none => exact .none
  | some h => exact .some (imp_mem h himp)

/-- Links that are mapped are related when their members are. -/
theorem links_map {f : α → γ} {g : β → δ} {T : γ → δ → Prop} {as : Option (List α)}
    {bs : Option (List β)} (h : Option.Rel (List.Forall₂ R) as bs)
    (himp : ∀ a ∈ as.getD [], ∀ b ∈ bs.getD [], R a b → T (f a) (g b)) :
    Option.Rel (List.Forall₂ T) (as.map (List.map f)) (bs.map (List.map g)) := by
  cases h with
  | none => exact .none
  | some h =>
    exact .some (List.forall₂_map_left_iff.mpr (List.forall₂_map_right_iff.mpr (imp_mem h himp)))

/-- Lists related to one list are equal when every member of the first is determined. -/
theorem eq_of_unique {as : List α} {bs cs : List β} (hb : List.Forall₂ R as bs)
    (hc : List.Forall₂ R as cs) (h : ∀ b ∈ bs, ∀ a c, R a b → R a c → b = c) : bs = cs := by
  induction hb generalizing cs with
  | nil => cases hc; rfl
  | cons hab _ ih =>
    cases hc with
    | cons hac hcs =>
      rw [h _ List.mem_cons_self _ _ hab hac,
        ih hcs fun b hb => h b (List.mem_cons_of_mem _ hb)]

/-- Links related to the same links are equal when every child of the first is determined. -/
theorem links_eq_of_unique {as : Option (List α)} {bs cs : Option (List β)}
    (hb : Option.Rel (List.Forall₂ R) as bs) (hc : Option.Rel (List.Forall₂ R) as cs)
    (h : ∀ b ∈ bs.getD [], ∀ a c, R a b → R a c → b = c) : bs = cs := by
  cases hb with
  | none => cases hc; rfl
  | some hb =>
    cases hc with
    | some hc => exact congrArg some (eq_of_unique hb hc h)

/-- A computation that goes along with a relation goes along with the related lists. -/
theorem mapM_congr {f : α → Except ε γ} {g : β → Except ε γ} {as : List α} {bs : List β}
    (h : List.Forall₂ (fun a b => f a = g b) as bs) : as.mapM f = bs.mapM g := by
  induction h with
  | nil => rfl
  | cons hab _ ih => rw [List.mapM_cons, List.mapM_cons, hab, ih]

/-- A computation along a list ends well when it does at each member. -/
theorem mapM_eq_ok_iff {f : α → Except ε β} {as : List α} {bs : List β} :
    as.mapM f = .ok bs ↔ List.Forall₂ (fun a b => f a = .ok b) as bs := by
  induction as generalizing bs with
  | nil =>
    constructor
    · intro h
      exact (Except.ok.inj h) ▸ .nil
    · intro h
      cases h
      rfl
  | cons a as ih =>
    rw [List.mapM_cons]
    constructor
    · intro h
      cases ha : f a with
      | error e => rw [ha] at h; exact absurd h (by simp [bind, Except.bind])
      | ok b =>
        cases has : as.mapM f with
        | error e => rw [ha, has] at h; exact absurd h (by simp [bind, Except.bind])
        | ok cs =>
          rw [ha, has] at h
          obtain rfl := Except.ok.inj h
          exact .cons ha (ih.mp has)
    · intro h
      cases h with
      | cons hab hbs =>
        rw [hab, ih.mpr hbs]
        rfl

/-- A list of options has all its values when each member has its value. -/
theorem mapM_eq_some_iff {f : α → Option β} {as : List α} {bs : List β} :
    as.mapM f = some bs ↔ List.Forall₂ (fun a b => f a = some b) as bs := by
  induction as generalizing bs with
  | nil =>
    constructor
    · intro h
      exact (Option.some.inj h) ▸ .nil
    · intro h
      cases h
      rfl
  | cons a as ih =>
    rw [List.mapM_cons]
    constructor
    · intro h
      obtain ⟨b, hb, h⟩ := Option.bind_eq_some_iff.mp h
      obtain ⟨cs, hcs, h⟩ := Option.bind_eq_some_iff.mp h
      obtain rfl := Option.some.inj h
      exact .cons hb (ih.mp hcs)
    · intro h
      cases h with
      | cons hab hbs =>
        rw [hab, ih.mpr hbs]
        rfl

end Pointwise

end ExprGraph

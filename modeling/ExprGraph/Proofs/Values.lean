import ExprGraph.Proofs.Agreement
import ExprGraph.Proofs.Folding
/-!
  Handles as values.

  `Values` holds a term for every live handle, and nothing else: no vertices, no owners, no sharing.  What an
  operation does to trees is said here by what it does to these terms; linking and folding replace the term of
  one handle, and all other operations add handles with terms made from those that are there, or take handles
  away.
-/

namespace ExprGraph

/-- **The terms of the live handles.** -/
structure Values where
  /-- the number of the next handle -/
  next : Handle
  /-- the term of a handle, if it is live -/
  term? : Handle → Option Term

namespace Values

/-- The term of a handle. -/
def get (m : Values) (h : Handle) : Except Fault Term := orFault .staleHandle (m.term? h)

/-- A new handle with a term. -/
def bind (m : Values) (t : Term) : Handle × Values :=
  (m.next, ⟨m.next + 1, fun h => if h = m.next then some t else m.term? h⟩)

/-- New handles with terms, in order. -/
def bindAll (m : Values) : List Term → List Handle × Values
  | [] => ([], m)
  | t :: ts =>
    let (h, m) := m.bind t
    let (hs, m) := m.bindAll ts
    (h :: hs, m)

/-- Another term for a handle. -/
def set (m : Values) (h : Handle) (t : Term) : Values :=
  { m with term? := fun g => if g = h then some t else m.term? g }

/-- A handle given back. -/
def drop (m : Values) (h : Handle) : Values :=
  { m with term? := fun g => if g = h then none else m.term? g }

/-- Handles given back. -/
def dropAll (m : Values) (hs : List Handle) : Values := hs.foldl drop m

/-! ## What the operations do -/

/-- A payload that was never linked. -/
def make (m : Values) (p : Payload) : Handle × Values := m.bind (.bare p)

/-- A payload with the terms of handles as children. -/
def makeLinked (m : Values) (p : Payload) (children : Option (List Handle)) :
    Except Fault (Handle × Values) := do
  let ts ← (children.getD []).mapM m.get
  return m.bind (.make p (children.map fun _ => ts))

/-- Another handle with the same term. -/
def share (m : Values) (h : Handle) : Except Fault (Handle × Values) := (m.get h).map m.bind

/-- Handles with the terms of the children, unless there were never any. -/
def childHandles (m : Values) (h : Handle) : Except Fault (Option (List Handle) × Values) := do
  let t ← m.get h
  match t.links with
  | none => return (none, m)
  | some ts =>
    let (hs, m) := m.bindAll ts
    return (some hs, m)

/-- Handles with the terms of the occurrences in post-order. -/
def occurrences (m : Values) (h : Handle) : Except Fault (List Handle × Values) :=
  (m.get h).map fun t => m.bindAll t.postOrder

/-- A handle with the copied term. -/
def clone (m : Values) (fresh : Nat) (h : Handle) : Except Fault (Handle × Values) :=
  (m.get h).map fun t => m.bind (t.deepCopy fresh)

/-- **Other children for a handle**: those that the given handles have as their terms before. -/
def link (m : Values) (h : Handle) (cs : List TreeLike) : Except Fault Values := do
  let hs ← Store.expectTrees cs
  let t ← m.get h
  Store.checkCount t.payload hs.length
  let ts ← hs.mapM m.get
  return m.set h (.linked t.payload ts)

/-- An operator with children. -/
def makeOperator (m : Values) (f : Operator) (cs : List TreeLike) : Except Fault (Handle × Values) := do
  let (h, m) := m.make (.op f)
  return (h, ← m.link h cs)

/-- **The folded term for a handle**, as far as folding went. -/
def fold (m : Values) (apply : Operator.Interpretation) (h : Handle) : Except Fault Nat × Values :=
  match m.term? h with
  | none => (.error .staleHandle, m)
  | some t => ((t.fold apply).2, m.set h (t.fold apply).1)

end Values

namespace Store

/-- **The terms of the live handles of a store.** -/
def values (s : Store) : Values := ⟨s.handles.size, s.termAt?⟩

variable {s s' : Store} {loose : VertexId → Nat} {h g : Handle} {v w : VertexId} {x : Vertex}
  {t : Term}

/-! ## What is known of a balanced store -/

namespace Balanced

/-- A handle has a term as soon as it is bound. -/
theorem termAt? (hb : s.Balanced loose) (hh : s.target? h = some v) :
    ∃ t, s.Unfolds v t ∧ s.termAt? h = some t := by
  obtain ⟨x, hx⟩ := hb.handle_live h v hh
  obtain ⟨t, ht⟩ := hb.unfolds v x hx
  exact ⟨t, ht, termAt?_eq_some_iff.mpr ⟨v, hh, ht⟩⟩

theorem termAt?_of_none (hh : s.target? h = none) : s.termAt? h = none := by
  rw [Store.termAt?, hh]
  rfl

/-- Looking behind a handle finds a vertex that unfolds into the term of the handle. -/
theorem behind_agree (hb : s.Balanced loose) (h : Handle) :
    Agree (fun r t => s.target? h = some r.1 ∧ s.vertex? r.1 = some r.2 ∧ s.Unfolds r.1 t)
      (s.behind h) (s.values.get h) := by
  cases hh : s.target? h with
  | none =>
    have hterm : s.values.get h = .error .staleHandle := by
      rw [Values.get, show s.values.term? h = none from termAt?_of_none hh]
      rfl
    rw [behind_of_none hh, hterm]
    exact .error _
  | some v =>
    obtain ⟨x, hx⟩ := hb.handle_live h v hh
    obtain ⟨t, ht, hterm⟩ := hb.termAt? hh
    have hget : s.values.get h = .ok t := by
      rw [Values.get, show s.values.term? h = some t from hterm]
      rfl
    rw [behind_of_target? hh hx, hget]
    exact .ok ⟨rfl, hx, ht⟩

theorem root_agree (hb : s.Balanced loose) (h : Handle) :
    Agree (fun v t => s.target? h = some v ∧ s.Unfolds v t) (s.root h) (s.values.get h) := by
  have hagree := hb.behind_agree h
  rw [root]
  generalize s.behind h = r at hagree
  generalize s.values.get h = t at hagree
  cases hagree with
  | ok hr => exact .ok ⟨hr.1, hr.2.2⟩
  | error e => exact .error e

/-- Handles in a list agree with their terms. -/
theorem mapM_root_agree (hb : s.Balanced loose) (hs : List Handle) :
    Agree (List.Forall₂ s.Unfolds) (hs.mapM s.root) (hs.mapM s.values.get) :=
  .mapM fun h _ => (hb.root_agree h).imp fun _ _ hr => hr.2

end Balanced

/-! ## Keeping track of the terms -/

/-- The terms stay when handles are bound as before and vertices unfold as before. -/
theorem values_eq (hb : s.Balanced loose) (hh : s'.handles = s.handles)
    (ht : ∀ v t, s.Unfolds v t → s'.Unfolds v t) : s'.values = s.values := by
  have hterm : s'.termAt? = s.termAt? := by
    funext g
    cases hg : s.target? g with
    | none => rw [Balanced.termAt?_of_none hg, Balanced.termAt?_of_none ((target?_congr hh g).trans hg)]
    | some v =>
      obtain ⟨t, hvt, hgt⟩ := hb.termAt? hg
      rw [hgt]
      exact termAt?_eq_some_iff.mpr ⟨v, (target?_congr hh g).trans hg, ht v t hvt⟩
  rw [values, values, hh, hterm]

/-- Numbers that are taken for functions do not show in the terms. -/
theorem Balanced.values_reserve (hb : s.Balanced loose) (n : Nat) : (s.reserve n).values = s.values :=
  values_eq hb rfl fun _ _ ht => ht.reserve n

/-- Changes through one handle leave the terms of the others. -/
theorem ChangesOnly.termAt?_of_ne (hc : ChangesOnly s s' loose {.handle h}) (hb : s.Balanced loose)
    (hg : g ≠ h) : s'.termAt? g = s.termAt? g := by
  have hne : Place.handle g ∉ ({.handle h} : Set Place) := by simp [hg]
  have htarget := hc.handle g hne
  cases hgv : s.target? g with
  | none => rw [Balanced.termAt?_of_none hgv, Balanced.termAt?_of_none (htarget.trans hgv)]
  | some v =>
    obtain ⟨t, hvt, hgt⟩ := hb.termAt? hgv
    rw [hgt]
    refine termAt?_eq_some_iff.mpr ⟨v, htarget.trans hgv, hc.unfolds (.handle hne hgv) hvt ?_⟩
    exact fun u i hm => absurd hm (by simp)

/-- **An edit through a handle sets its term** and no other. -/
theorem Edited.values (he : Edited s s' loose (.handle h) w t) (hb : s.Balanced loose) :
    s'.values = s.values.set h t := by
  have hterm : s'.termAt? = fun g => if g = h then some t else s.termAt? g := by
    funext g
    by_cases hg : g = h
    · rw [if_pos hg, hg]
      exact termAt?_eq_some_iff.mpr ⟨w, he.at?, he.unfolds⟩
    · -- all that another handle leads to is held past this one
      rw [if_neg hg, he.changes.termAt?_of_ne hb hg]
  rw [Store.values, he.changes.size, hterm]
  rfl

/-- **A handle given back** takes its term away and no other. -/
theorem Balanced.values_drop (hb : s.Balanced loose) (h : Handle) :
    (s.drop h).Balanced loose ∧ (s.drop h).values = s.values.drop h := by
  obtain ⟨hbal, hchg, hnone⟩ := hb.drop (h := h)
  refine ⟨hbal, ?_⟩
  have hterm : (s.drop h).termAt? = fun g => if g = h then none else s.termAt? g := by
    funext g
    by_cases hg : g = h
    · rw [if_pos hg, hg, termAt?_of_none hnone]
    · rw [if_neg hg, hchg.termAt?_of_ne hb hg]
  rw [Store.values, hchg.size, hterm]
  rfl

theorem Balanced.values_dropAll (hs : List Handle) : ∀ {s : Store}, s.Balanced loose →
    (s.dropAll hs).Balanced loose ∧ (s.dropAll hs).values = s.values.dropAll hs := by
  induction hs with
  | nil => exact fun hb => ⟨hb, rfl⟩
  | cons h hs ih =>
    intro s hb
    obtain ⟨hbal, hval⟩ := hb.values_drop h
    obtain ⟨hbal', hval'⟩ := ih hbal
    refine ⟨hbal', hval'.trans ?_⟩
    rw [hval]
    rfl

/-- A result with a store agrees with a result with terms. -/
structure Follows {α : Type} (loose : VertexId → Nat) (r : α × Store) (q : α × Values) : Prop where
  fst : r.1 = q.1
  balanced : r.2.Balanced loose
  values : r.2.values = q.2

namespace Balanced

theorem unfolds_bind (s : Store) (v : VertexId) (hw : s.Unfolds w t) : (s.bind v).2.Unfolds w t :=
  hw.of_owners fun u x hx => ⟨x.owners + if v = u then 1 else 0, by
    rw [vertex?_bind, vertex?_addOwner, hx]
    rfl⟩

/-- **A new handle has the term of its vertex.** -/
theorem follows_bind (hb : s.Balanced loose) (ht : s.Unfolds v t) :
    Follows loose (s.bind v) (s.values.bind t) := by
  obtain ⟨x, hx⟩ := ht.exists_vertex
  refine ⟨rfl, hb.bind hx, ?_⟩
  have hterm : (s.bind v).2.termAt? = fun g => if g = s.handles.size then some t else s.termAt? g := by
    funext g
    have htarget := target?_bind s v g
    by_cases hg : g = s.handles.size
    · rw [if_pos hg] at htarget ⊢
      exact termAt?_eq_some_iff.mpr ⟨v, htarget, unfolds_bind s v ht⟩
    · rw [if_neg hg] at htarget ⊢
      cases hgv : s.target? g with
      | none => rw [termAt?_of_none hgv, termAt?_of_none (htarget.trans hgv)]
      | some w =>
        obtain ⟨c, hwc, hgc⟩ := hb.termAt? hgv
        rw [hgc]
        exact termAt?_eq_some_iff.mpr ⟨w, htarget.trans hgv, unfolds_bind s v hwc⟩
  rw [values, hterm, size_handles_bind]
  rfl

theorem follows_bindAll {vs : List VertexId} {ts : List Term} : ∀ {s : Store}, s.Balanced loose →
    List.Forall₂ s.Unfolds vs ts → Follows loose (s.bindAll vs) (s.values.bindAll ts) := by
  induction vs generalizing ts with
  | nil =>
    intro s hb h
    cases h
    exact ⟨rfl, hb, rfl⟩
  | cons v vs ih =>
    intro s hb h
    cases h with
    | @cons _ t _ ts hv hvs =>
      have hbind := hb.follows_bind hv
      have hrest := ih hbind.balanced (hvs.imp fun w c hw => unfolds_bind s v hw)
      rw [hbind.values] at hrest
      have hfst : (s.bind v).1 :: ((s.bind v).2.bindAll vs).1
          = (s.values.bind t).1 :: ((s.values.bind t).2.bindAll ts).1 := by
        rw [hbind.fst, hrest.fst]
      exact ⟨hfst, hrest.balanced, hrest.values⟩

/-- **A new vertex** with children that are live changes no term, and has the term made of theirs. -/
theorem insert_vertex {p : Payload} {links : Option (List VertexId)} {ts : Option (List Term)}
    (hb : s.Balanced loose) (hts : Option.Rel (List.Forall₂ s.Unfolds) links ts) :
    ((s.addOwners (links.getD [])).insert ⟨p, links, 0⟩).2.Balanced loose
      ∧ ((s.addOwners (links.getD [])).insert ⟨p, links, 0⟩).2.Unfolds
          ((s.addOwners (links.getD [])).insert ⟨p, links, 0⟩).1 (.make p ts)
      ∧ (∀ v t, s.Unfolds v t → ((s.addOwners (links.getD [])).insert ⟨p, links, 0⟩).2.Unfolds v t)
      ∧ ((s.addOwners (links.getD [])).insert ⟨p, links, 0⟩).2.values = s.values := by
  obtain ⟨hbal, hnew⟩ := hb.insert_over (p := p) hts 0
  have hterm : ∀ v t, s.Unfolds v t →
      ((s.addOwners (links.getD [])).insert ⟨p, links, 0⟩).2.Unfolds v t :=
    fun v t ht => ht.of_owners fun a z hz => ⟨_, vertex?_insert_of_live _ _ hz⟩
  simp only [ite_self, Nat.add_zero] at hbal
  refine ⟨hbal, ?_, hterm, values_eq hb (handles_addOwners s _) hterm⟩
  rw [fst_insert, size_addOwners]
  exact hnew

/-! ## The operations -/

theorem follows_make (hb : s.Balanced loose) (p : Payload) :
    Follows loose (s.make p) (s.values.make p) := by
  have hnone : Option.Rel (List.Forall₂ s.Unfolds) none none := .none
  obtain ⟨hb', ht, -, hval⟩ := hb.insert_vertex (p := p) hnone
  have hbind := hb'.follows_bind ht
  rw [hval] at hbind
  exact hbind

theorem follows_makeLinked (hb : s.Balanced loose) (p : Payload) (children : Option (List Handle)) :
    Agree (Follows loose) (s.makeLinked p children) (s.values.makeLinked p children) := by
  cases children with
  | none => exact .ok (hb.follows_make p)
  | some hs =>
    refine (hb.mapM_root_agree hs).bind fun vs ts hts => .ok ?_
    obtain ⟨hb', ht, -, hval⟩ := hb.insert_vertex (p := p) (.some hts)
    have hbind := hb'.follows_bind ht
    rw [hval] at hbind
    exact hbind

theorem follows_share (hb : s.Balanced loose) (h : Handle) :
    Agree (Follows loose) (s.share h) (s.values.share h) :=
  (hb.root_agree h).map fun _ _ hr => hb.follows_bind hr.2

theorem follows_childHandles (hb : s.Balanced loose) (h : Handle) :
    Agree (Follows loose) (s.childHandles h) (s.values.childHandles h) := by
  refine (hb.behind_agree h).bind fun r t hr => ?_
  obtain ⟨v, x⟩ := r
  obtain ⟨-, hx, ht⟩ := hr
  obtain ⟨-, hrel, -⟩ := ht.children hx
  simp only
  cases hl : x.links with
  | none =>
    rw [hl] at hrel
    cases hl' : t.links with
    | none => exact .ok ⟨rfl, hb, rfl⟩
    | some ts => rw [hl'] at hrel; cases hrel
  | some vs =>
    rw [hl] at hrel
    cases hl' : t.links with
    | none => rw [hl'] at hrel; cases hrel
    | some ts =>
      rw [hl'] at hrel
      cases hrel with
      | some hts =>
        have hall := hb.follows_bindAll hts
        exact .ok ⟨congrArg some hall.fst, hall.balanced, hall.values⟩

theorem follows_bindWalk (hb : s.Balanced loose) (h : Handle) :
    Agree (fun v q => Follows loose (s.bindWalk v) q) (s.root h) (s.values.occurrences h) := by
  refine (hb.root_agree h).map_right fun v t hr => ?_
  have hpost := hr.2.walk_postOrder
  rw [← hr.2.postOrder_eq] at hpost
  exact hb.follows_bindAll hpost

/-- **Linking sets the term of the handle** to the old payload over the terms the new children had before. -/
theorem follows_link (hb : s.Balanced loose) (h : Handle) (cs : List TreeLike) :
    Agree (fun c m => (∃ w t, Edited s c.store loose (.handle h) w t) ∧ c.store.values = m)
      (s.link h cs) (s.values.link h cs) := by
  refine (Agree.same (expectTrees cs)).bind fun hs _ e => ?_
  subst e
  refine (hb.behind_agree h).bind fun r t hr => ?_
  obtain ⟨hh, hx, ht⟩ := hr
  obtain ⟨hp, -, -⟩ := ht.children hx
  show Agree _ (checkCount r.2.payload hs.length >>= _) (checkCount t.payload hs.length >>= _)
  rw [hp]
  refine (Agree.same _).bind fun _ _ _ => ?_
  refine (hb.mapM_root_agree hs).bind fun vs ts hts => ?_
  obtain ⟨w, c, hsole, hedit⟩ := hb.relink t.payload hh hts
  simp only [hsole]
  exact .ok ⟨⟨w, _, hedit⟩, hedit.values hb⟩

theorem follows_makeOperator (hb : s.Balanced loose) (f : Operator) (cs : List TreeLike) :
    Agree (fun r q => Follows loose (r.1, r.2.store) q) (s.makeOperator f cs)
      (s.values.makeOperator f cs) := by
  have hmake := hb.follows_make (.op f)
  have hlink := hmake.balanced.follows_link (s.make (.op f)).1 cs
  rw [hmake.values] at hlink
  nth_rewrite 3 [hmake.fst] at hlink
  refine hlink.bind fun c m hr => ?_
  obtain ⟨⟨w, t, hedit⟩, hval⟩ := hr
  exact .ok ⟨hmake.fst, hedit.balanced, hval⟩

end Balanced

end Store

end ExprGraph

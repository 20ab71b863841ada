import ExprGraph.Proofs.Rules
/-!
  Rules about single vertices.

  A vertex gets its payload when it is made and its links when it is linked; copying on write, folding and
  cloning make vertices from others.  A rule about the payload of a vertex and the number of its links that
  survives these few changes (`VertexRule`) holds of all vertices of a store for ever, whatever is done to the
  store (`VertexRule.rule`).

    * state      the store;
    * step       one lemma for each change of a store;
    * invariant  all vertices keep the rule (`Store.Vertexwise`).
-/

namespace ExprGraph

/-- **A rule about vertices that survives** what is done to single vertices, except for deep copies. -/
structure ContentRule (Good : Vertex → Prop) : Prop where
  /-- only the payload and the number of links matter -/
  shape : ∀ {x y : Vertex}, Good x → y.payload = x.payload →
    y.links.map List.length = x.links.map List.length → Good y
  /-- a constant may come in its place -/
  constant : ∀ a : Value, Good ⟨.const a, none, 0⟩
  /-- checked links may come in place of its own -/
  linked : ∀ {x : Vertex} {vs : List VertexId}, Good x → Store.checkCount x.payload vs.length = .ok () →
    Good { x with links := some vs }

/-- **A rule about vertices that survives** all that is done to single vertices. -/
structure VertexRule (Good : Vertex → Prop) : Prop extends ContentRule Good where
  /-- the payload may be copied -/
  copied : ∀ {x : Vertex} (fresh : Nat), Good x → Good { x with payload := x.payload.deepCopy fresh }

namespace Store

variable {apply : Operator.Interpretation} {Good : Vertex → Prop} {s s' : Store} {p : Place}
  {v w : VertexId} {x : Vertex}

/-- **All vertices keep a rule.** -/
def Vertexwise (Good : Vertex → Prop) (s : Store) : Prop := ∀ v x, s.vertex? v = some x → Good x

namespace Vertexwise

/-! ## Elementary changes -/

theorem thin (hG : ContentRule Good) (hs : s.Vertexwise Good) (ht : Thinned s s') : s'.Vertexwise Good := by
  intro v y hy
  obtain ⟨x, hx, hp, hl⟩ := ht.vertex v y hy
  exact hG.shape (hs v x hx) hp (congrArg _ hl)

theorem insert (hs : s.Vertexwise Good) (hx : Good x) : (s.insert x).2.Vertexwise Good := by
  intro w y hy
  rw [vertex?_insert] at hy
  split at hy
  · obtain rfl := Option.some.inj hy
    exact hx
  · exact hs w y hy

theorem rebind (hG : ContentRule Good) (hs : s.Vertexwise Good) (p : Place) (w : VertexId) :
    (s.rebind p w).Vertexwise Good := by
  intro u y hy
  rw [vertex?_rebind] at hy
  obtain ⟨x, hx, rfl⟩ := Option.map_eq_some_iff.mp hy
  exact hG.shape (hs u x hx) Vertex.payload_rebound Vertex.length_links_rebound

theorem bind (hG : ContentRule Good) (hs : s.Vertexwise Good) (v : VertexId) :
    (s.bind v).2.Vertexwise Good :=
  hs.thin hG ⟨size_addOwner s v, (Thinned.addOwners s [v]).vertex⟩

/-! ## Copy on write -/

theorem makeSole (hG : ContentRule Good) (hs : s.Vertexwise Good) (p : Place) :
    (s.makeSole p).2.store.Vertexwise Good := by
  unfold Store.makeSole
  split
  · exact hs
  · next v _ =>
    split
    · exact hs
    · next x hx =>
      split
      · exact hs
      · have hold := (hs.thin hG (.addOwners s x.children)).thin hG (.dropOwner _ v)
        have hcopy : Good { x with owners := 1 } := hG.shape (hs v x hx) rfl rfl
        exact (hold.insert hcopy).rebind hG p _

/-- A vertex may get contents that keep the rule. -/
theorem overwrite (hG : ContentRule Good) {payload : Payload} {links : Option (List VertexId)}
    (hs : s.Vertexwise Good) (v : VertexId) (hnew : ∀ n, Good ⟨payload, links, n⟩) :
    (s.overwrite v payload links).Vertexwise Good := by
  refine thin hG ?_ (.release _ _)
  intro w y hy
  obtain ⟨x, hx, rfl⟩ := vertex?_modify_eq_some_iff.mp hy
  split
  · exact hnew _
  · exact hs w x hx

/-- A vertex may become a constant. -/
theorem replace (hG : ContentRule Good) (hs : s.Vertexwise Good) (p : Place) (a : Value) :
    (s.replace p (.const a)).store.Vertexwise Good := by
  have hsole := hs.makeSole hG p
  unfold Store.replace
  split
  · next v c hc =>
    rw [hc] at hsole
    exact hsole.overwrite hG v fun n => hG.shape (hG.constant a) rfl rfl
  · next c hc =>
    rw [hc] at hsole
    exact hsole

/-- **Linking checks the number of children**, and keeps the payload. -/
theorem link (hG : ContentRule Good) {g : Handle} {cs : List TreeLike} {c : Changed}
    (hc : s.link g cs = .ok c) (hs : s.Vertexwise Good) : c.store.Vertexwise Good := by
  unfold Store.link at hc
  obtain ⟨hs', -, hc⟩ := exists_of_bind_eq_ok hc
  obtain ⟨⟨u, x⟩, hx, hc⟩ := exists_of_bind_eq_ok hc
  obtain ⟨⟨⟩, hcheck, hc⟩ := exists_of_bind_eq_ok hc
  obtain ⟨vs, hvs, hc⟩ := exists_of_bind_eq_ok hc
  have hsole := (hs.thin hG (.addOwners s vs)).makeSole hG (.handle g)
  split at hc
  · cases hc
  · next w c' hw =>
    obtain rfl := Except.ok.inj hc
    rw [hw] at hsole
    rw [(Pointwise.mapM_eq_ok_iff.mp hvs).length_eq] at hcheck
    have hlinked := hG.linked (hs u x (target?_of_behind hx).2) hcheck
    exact hsole.overwrite hG w fun n => hG.shape hlinked rfl rfl

/-! ## Folding -/

theorem expand (hG : ContentRule Good) (hs : s.Vertexwise Good) (p : Place) (count : Nat) :
    (s.expand p count).store.Vertexwise Good := by
  have hsole := hs.makeSole hG p
  unfold Store.expand
  split <;> next hc =>
    rw [hc] at hsole
    exact hsole

theorem collapse (hG : ContentRule Good) (hs : s.Vertexwise Good) (p : Place) (f : Operator)
    (args : List Value) : (collapse apply s p f args).store.Vertexwise Good := by
  unfold Store.collapse
  split
  · exact hs
  · exact hs.replace hG p _

theorem foldStep (hG : ContentRule Good) (apply : Operator.Interpretation) (hs : s.Vertexwise Good)
    (q : Pending) : (foldStep apply s q).store.Vertexwise Good := by
  unfold Store.foldStep
  split
  · exact hs
  · split
    · split
      · split
        · exact hs.collapse hG _ _ _
        · exact hs
      · split
        · exact hs
        · exact hs.expand hG _ _
    · exact hs

theorem foldFrom (hG : ContentRule Good) (hs : s.Vertexwise Good) (bound : Nat) (work : List Pending)
    (notes : List Note) (folded : Nat) :
    (foldFrom apply bound work s notes folded).store.Vertexwise Good := by
  induction bound generalizing s work notes folded with
  | zero => cases work <;> exact hs
  | succ bound ih =>
    cases work with
    | nil => exact hs
    | cons q work =>
      have hstep := hs.foldStep hG apply q
      rw [Store.foldFrom]
      split <;> next hq =>
        rw [hq] at hstep
        first
          | exact ih hstep _ _ _
          | exact hstep

/-! ## Deep copies -/

theorem clone (hG : VertexRule Good) {g : Handle} {r : Handle × Store} (hr : s.clone g = .ok r)
    (hs : s.Vertexwise Good) : r.2.Vertexwise Good := by
  refine clone_induction hr hs ?_ fun v h => h.bind hG.toContentRule v
  intro s' v x fresh f hx h
  refine insert (h.thin hG.toContentRule (.addOwners s' _)) (hG.shape (hG.copied fresh (h v x hx)) rfl ?_)
  show (x.links.map _).map List.length = x.links.map List.length
  cases x.links <;> simp

/-- A vertex may be made together with links, when the rule bears it. -/
theorem makeLinked (hG : ContentRule Good) {q : Payload} {children : Option (List Handle)}
    {r : Handle × Store} (hq : ∀ links, Good ⟨q, links, 0⟩) (hr : s.makeLinked q children = .ok r)
    (hs : s.Vertexwise Good) : r.2.Vertexwise Good := by
  obtain ⟨vs, -, rfl⟩ := makeLinked_eq_ok hr
  exact (insert (hs.thin hG (.addOwners s vs)) (hq _)).bind hG _

end Vertexwise

/-! ## Pins and handles -/

theorem thinned_drop (s : Store) (g : Handle) : Thinned s (s.drop g) := by
  cases hg : s.target? g with
  | none =>
    rw [drop_of_none hg]
    exact .refl s
  | some v =>
    rw [drop_eq hg]
    have hunbound : Thinned s (s.unbound g) := ⟨rfl, fun _ y hy => ⟨y, hy, rfl, rfl⟩⟩
    exact hunbound.trans (.release _ _)

theorem thinned_unpin (s : Store) (v : VertexId) : Thinned s (s.unpin v) := by
  unfold unpin
  split
  · split
    · exact (Thinned.erase s v).trans (.release _ _)
    · exact .refl s
  · exact .refl s

theorem thinned_repin (s : Store) (pins : List VertexId) : Thinned s (s.repin pins) := by
  have hpinning : Thinned s (s.pinning pins) := ⟨rfl, fun _ y hy => ⟨y, hy, rfl, rfl⟩⟩
  exact repin_induction hpinning fun v h => h.trans (thinned_unpin _ v)

end Store

/-- **A rule about vertices is one about stores**, and bears the payloads that new vertices may have. -/
theorem VertexRule.rule {Good : Vertex → Prop} {made linked : Payload → Prop} (hG : VertexRule Good)
    (apply : Operator.Interpretation) (hmade : ∀ p, made p → Good ⟨p, none, 0⟩)
    (hlinked : ∀ p, linked p → ∀ links, Good ⟨p, links, 0⟩) :
    Store.Rule apply made linked (Store.Vertexwise Good) where
  make hp hs := (hs.insert (hmade _ hp)).bind hG.toContentRule _
  makeLinked hp hr hs := Store.Vertexwise.makeLinked hG.toContentRule (hlinked _ hp) hr hs
  bind v hs := hs.bind hG.toContentRule v
  clone := Store.Vertexwise.clone hG
  link := Store.Vertexwise.link hG.toContentRule
  fold _ hs := hs.foldFrom hG.toContentRule _ _ _ _
  drop g hs := hs.thin hG.toContentRule (Store.thinned_drop _ g)
  repin pins hs := hs.thin hG.toContentRule (Store.thinned_repin _ pins)
  reserve _ hs := hs

end ExprGraph

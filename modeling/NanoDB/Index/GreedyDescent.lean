import NanoDB.Index.Hnsw

/-!
# Greedy descent

The loop {lit}`while (changed)` on one layer has no counter and no set of visited nodes, and it
changes the current node while it still scans the neighbours of an old one.  Every turn that
changes the node makes the distance smaller, and the distances are those of finitely many
slots.  The last turn changes nothing, so the neighbours that it scanned are those of the
node it ends with.

Main results:

- Theorem {lit}`greedyLoop_local_minimum`: on every graph the loop ends, at a node that is at
  most as far as the start and as each of its neighbours.
- Theorem {lit}`descendFrom_local_minimum`: so does the descent over the layers, on the lowest
  of them.
-/

namespace NanoDB.Index.HNSW

variable {V δ : Type*} [Zero V] [LinearOrder δ] (m : Metric V δ) (h : HNSW V) (query : V)

/-- The cursor has the distance of its node. -/
def Measured (c : Cursor δ) : Prop :=
  c.dist = m.dist query (h.getNode c.id).vector

/-- No neighbour on a layer is closer than the node. -/
def LocalMinimum (layer : Nat) (c : Cursor δ) : Prop :=
  ∀ n ∈ h.neighbors c.id layer, c.dist ≤ m.dist query (h.getNode n).vector

/-- The cursor at a node. -/
def cursorAt (start : Nat) : Cursor δ where
  id := start
  dist := m.dist query (h.getNode start).vector

variable {m h query}

/-! ## One turn -/

/-- A scan ends at most as far as it started and as each node it looked at. -/
theorem foldl_moveCloser_le (ns : List Nat) (c : Cursor δ) :
    (ns.foldl (h.moveCloser m query) c).dist ≤ c.dist ∧
      ∀ n ∈ ns, (ns.foldl (h.moveCloser m query) c).dist ≤
        m.dist query (h.getNode n).vector := by
  induction ns generalizing c with
  | nil => simp
  | cons n ns ih =>
      rw [List.foldl_cons]
      rcases ih (h.moveCloser m query c n) with ⟨hle, hall⟩
      have hstep : (h.moveCloser m query c n).dist ≤ c.dist ∧
          (h.moveCloser m query c n).dist ≤ m.dist query (h.getNode n).vector := by
        rw [moveCloser]
        split
        · next hcloser => exact ⟨hcloser.le, le_rfl⟩
        · next hcloser => exact ⟨le_rfl, not_lt.mp hcloser⟩
      constructor
      · exact hle.trans hstep.1
      · intro n' hn'
        rcases List.mem_cons.mp hn' with rfl | hn'
        · exact hle.trans hstep.2
        · exact hall n' hn'

theorem greedyPass_le (layer : Nat) (c : Cursor δ) :
    (h.greedyPass m query layer c).dist ≤ c.dist :=
  (foldl_moveCloser_le (h.neighbors c.id layer) { c with changed := false }).1

theorem Measured.greedyPass {c : Cursor δ} (hc : h.Measured m query c) (layer : Nat) :
    h.Measured m query (h.greedyPass m query layer c) := by
  rcases foldl_moveCloser_cases m h query (h.neighbors c.id layer)
    { c with changed := false } with heq | ⟨-, -, -, hdist⟩
  · rw [HNSW.greedyPass, heq]
    exact hc
  · exact hdist

/-- A turn that changes nothing has scanned the neighbours of the node it ends with. -/
theorem greedyPass_local_minimum {layer : Nat} {c : Cursor δ}
    (hsame : (h.greedyPass m query layer c).changed = false) :
    h.LocalMinimum m query layer (h.greedyPass m query layer c) := by
  have hscan : ∀ n ∈ h.neighbors c.id layer,
      (h.greedyPass m query layer c).dist ≤ m.dist query (h.getNode n).vector :=
    (foldl_moveCloser_le (h.neighbors c.id layer) { c with changed := false }).2
  rcases foldl_moveCloser_cases m h query (h.neighbors c.id layer)
    { c with changed := false } with heq | ⟨hchanged, -⟩
  · rw [LocalMinimum, greedyPass, heq]
    rw [greedyPass, heq] at hscan
    exact hscan
  · rw [greedyPass, hchanged] at hsame
    contradiction

/-! ## The loop -/

theorem greedyLoop_spec {layer fuel : Nat} {c c' : Cursor δ} (hc : h.Measured m query c)
    (hloop : h.greedyLoop m query layer fuel c = some c') :
    h.Measured m query c' ∧ c'.dist ≤ c.dist ∧ h.LocalMinimum m query layer c' := by
  induction fuel generalizing c with
  | zero => simp [greedyLoop] at hloop
  | succ fuel ih =>
      rw [greedyLoop] at hloop
      split at hloop
      · rcases ih (hc.greedyPass layer) hloop with ⟨hmeasured, hle, hmin⟩
        exact ⟨hmeasured, hle.trans (greedyPass_le layer c), hmin⟩
      · next hsame =>
          rw [← Option.some.inj hloop]
          exact ⟨hc.greedyPass layer, greedyPass_le layer c,
            greedyPass_local_minimum (Bool.eq_false_iff.mpr hsame)⟩

/-- More fuel changes nothing. -/
theorem greedyLoop_mono {layer fuel fuel' : Nat} {c c' : Cursor δ} (hle : fuel ≤ fuel')
    (hloop : h.greedyLoop m query layer fuel c = some c') :
    h.greedyLoop m query layer fuel' c = some c' := by
  induction fuel generalizing c fuel' with
  | zero => simp [greedyLoop] at hloop
  | succ fuel ih =>
      cases fuel' with
      | zero => omega
      | succ fuel' =>
          rw [greedyLoop] at hloop ⊢
          split at hloop
          · next hchanged =>
              rw [if_pos hchanged]
              exact ih (Nat.le_of_succ_le_succ hle) hloop
          · next hsame =>
              rw [if_neg hsame]
              exact hloop

theorem greedyLayer_spec (layer : Nat) {c : Cursor δ} (hc : h.Measured m query c) :
    h.Measured m query (h.greedyLayer m query layer c) ∧
      (h.greedyLayer m query layer c).dist ≤ c.dist ∧
      h.LocalMinimum m query layer (h.greedyLayer m query layer c) :=
  greedyLoop_spec hc (Option.some_get _).symm

/-- On every finite graph, for every query and start node and distances of a total order, the
loop ends: from some fuel on it returns one cursor, which has the distance of its node, and that
node is at most as far from the query as the start and as each of its neighbours. -/
theorem greedyLoop_local_minimum (m : Metric V δ) (h : HNSW V) (query : V) (layer start : Nat) :
    ∃ c : Cursor δ,
      (∃ bound, ∀ fuel, bound ≤ fuel →
        h.greedyLoop m query layer fuel
          { id := start, dist := m.dist query (h.getNode start).vector } = some c) ∧
      c.dist = m.dist query (h.getNode c.id).vector ∧
      c.dist ≤ m.dist query (h.getNode start).vector ∧
      ∀ n ∈ h.neighbors c.id layer, c.dist ≤ m.dist query (h.getNode n).vector := by
  have hends := h.greedyLoop_fuel m query layer (h.cursorAt m query start)
  rcases Option.isSome_iff_exists.mp hends with ⟨c, hc⟩
  have hstart : h.Measured m query (h.cursorAt m query start) := rfl
  rcases greedyLoop_spec hstart hc with ⟨hmeasured, hle, hmin⟩
  exact ⟨c, ⟨_, fun fuel hfuel => greedyLoop_mono hfuel hc⟩, hmeasured, hle, hmin⟩

/-! ## The layers -/

/-- The descent over the layers ends at most as far as it started, and at a local minimum of the
lowest layer that it went through. -/
theorem descend_spec (bottom top : Nat) {c : Cursor δ} (hc : h.Measured m query c) :
    h.Measured m query (h.descend m query bottom top c) ∧
      (h.descend m query bottom top c).dist ≤ c.dist ∧
      (bottom < top → h.LocalMinimum m query (bottom + 1) (h.descend m query bottom top c)) := by
  induction top generalizing c with
  | zero => exact ⟨hc, le_rfl, fun hlt => absurd hlt (Nat.not_lt_zero _)⟩
  | succ l ih =>
      rw [descend]
      rcases greedyLayer_spec (l + 1) hc with ⟨hmeasured, hle, hmin⟩
      split
      · next habove =>
          rcases ih hmeasured with ⟨hlast, hle', hmin'⟩
          refine ⟨hlast, hle'.trans hle, ?_⟩
          intro _
          rcases Nat.lt_or_ge bottom l with hlower | hlowest
          · exact hmin' hlower
          · -- the layer is the lowest one, so the recursion stops at once
            have hbottom : bottom = l := by omega
            have hstop : h.descend m query bottom l (h.greedyLayer m query (l + 1) c) =
                h.greedyLayer m query (l + 1) c := by
              cases l with
              | zero => rfl
              | succ l => rw [descend, if_neg (by omega)]
            rw [hstop, hbottom]
            exact hmin
      · next hbelow => exact ⟨hc, le_rfl, fun hlt => absurd hlt hbelow⟩

/-- The node at which a search or an insert starts on the layers that it goes through in full. -/
theorem descendFrom_local_minimum (m : Metric V δ) (h : HNSW V) (query : V)
    (bottom entryPoint : Nat) :
    m.dist query (h.getNode (h.descendFrom m query bottom entryPoint)).vector ≤
        m.dist query (h.getNode entryPoint).vector ∧
      ((bottom : Int) < h.currentMaxLayer →
        ∀ n ∈ h.neighbors (h.descendFrom m query bottom entryPoint) (bottom + 1),
          m.dist query (h.getNode (h.descendFrom m query bottom entryPoint)).vector ≤
            m.dist query (h.getNode n).vector) := by
  have hstart : h.Measured m query (h.cursorAt m query entryPoint) := rfl
  rcases descend_spec bottom h.currentMaxLayer.toNat hstart with
    ⟨hmeasured, hle, hmin⟩
  rw [descendFrom]
  change _ = _ at hmeasured
  constructor
  · exact hmeasured.symm.le.trans hle
  · intro hlt n hn
    have hlayers : bottom < h.currentMaxLayer.toNat := by omega
    exact hmeasured.symm.le.trans (hmin hlayers n hn)

end NanoDB.Index.HNSW

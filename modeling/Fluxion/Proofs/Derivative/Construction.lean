import Fluxion.Proofs.Derivative.Flags
import Fluxion.Proofs.Forest.Building
import Fluxion.Proofs.Reports

/-!
# Construction of the derivative

The derivative of a part of the live tree is built beside it and never fails. At every
moment the derivatives that are built and not yet used stand as trees of their own; the
recipe of a node uses up those of its operands. Every cell that is added belongs to one of
these trees, so none is left over in the end. When a step is reported, both its derivative and
the node that it was made for are still to be read.
-/

namespace Fluxion

open Forest

/-- With `l` live, the trees `ts` stand beside it, and there are `n` cells outside of these. -/
structure Forest.Stocked (f : Forest) (n : Nat) (m : Mark) (l : Tree) (ts : List Tree) : Prop where
  holds : f.Holds m (some l) ts
  size : f.size = n + (nodesOf ts).length

namespace Forest.Stocked

variable {f g : Forest} {n : Nat} {m : Mark} {l t u s : Tree} {ts us : List Tree} {k : Context}

theorem fits_live (h : f.Stocked n m l ts) : l.Fits f.cells := h.holds.fits_live

theorem perm (h : f.Stocked n m l ts) (p : ts.Perm us) : f.Stocked n m l us := by
  have nodes : (nodesOf ts).length = (nodesOf us).length :=
    (p.flatMap_right Tree.nodes).length_eq
  exact ⟨h.holds.perm p, nodes ▸ h.size⟩

/-- One more tree, of some of those that stood and the cells that are added. -/
theorem add (us : List Tree) {j : Nat} (h : f.Stocked n m l (us ++ ts))
    (held : g.Holds m (some l) (u :: ts)) (size : g.size = f.size + j)
    (nodes : u.nodes.length = (nodesOf us).length + j) :
    g.Stocked n m l (u :: ts) := by
  refine ⟨held, ?_⟩
  have split : nodesOf (us ++ ts) = nodesOf us ++ nodesOf ts := List.flatMap_append
  rw [size, h.size, split, nodesOf_cons, List.length_append, List.length_append, nodes]
  omega

theorem number (h : f.Stocked n m l ts) (x : Float) :
    ∃ g, Edit.number x f = .ok f.size g ∧ g.Stocked n m l (.number f.size x :: ts) := by
  obtain ⟨g, hg, held⟩ := h.holds.number x
  have size := (Edit.allocate_adds (.number x) f f.size g hg).1
  exact ⟨g, hg, add [] h held size rfl⟩

theorem applyUnary (h : f.Stocked n m l (t :: ts)) (op : Unary) :
    ∃ g, Edit.applyUnary op t.top f = .ok f.size g ∧
      g.Stocked n m l (.unary f.size op t :: ts) := by
  obtain ⟨g, hg, held⟩ := h.holds.applyUnary op
  have size := (Edit.applyUnary_adds op t.top f f.size g hg).1
  exact ⟨g, hg, add [t] h held size (by simp)⟩

theorem applyBinary (h : f.Stocked n m l (s :: t :: ts)) (op : Binary) :
    ∃ g, Edit.applyBinary op s.top t.top f = .ok f.size g ∧
      g.Stocked n m l (.binary f.size op s t :: ts) := by
  obtain ⟨g, hg, held⟩ := h.holds.applyBinary op
  have size := (Edit.applyBinary_adds op s.top t.top f f.size g hg).1
  exact ⟨g, hg, add [s, t] h held size (by simp [Nat.add_assoc])⟩

theorem copy (h : f.Stocked n m l ts) (fits : s.Fits f.cells) :
    ∃ (u : Tree) (g : Forest), Edit.copy s.top f = .ok u.top g ∧ u.term = s.term ∧
      g.Stocked n m l (u :: ts) := by
  obtain ⟨u, g, hg, term, held⟩ := h.holds.copy fits
  have made := (Holds.copy_eq fits).symm.trans hg
  have size := (Edit.foldM_adds Edit.copying_builds s.term f u.top g made).1
  exact ⟨u, g, hg, term, add [] h held size (by simp [u.length_nodes, term])⟩

/-- A recipe uses up the derivatives it names and leaves the tree it describes. -/
theorem follow {operands slopes : Side → Tree} {slope : Side → Edit Nat} (r : Recipe)
    (parts : ∀ side, ∃ k, l = Context.plug k (operands side))
    (known : ∀ side ∈ r.slopes, ∀ f, slope side f = .ok (slopes side).top f)
    (h : f.Stocked n m l (r.slopes.map slopes ++ ts)) :
    ∃ u g, Edit.follow (fun side => (operands side).top) slope r f = .ok u.top g ∧
      u.term = r.term (fun side => (operands side).term) (fun side => (slopes side).term) ∧
      g.Stocked n m l (u :: ts) := by
  induction r generalizing f ts with
  | number x =>
    obtain ⟨g, hg, held⟩ := h.number x
    exact ⟨.number f.size x, g, hg, rfl, held⟩
  | operand side =>
    obtain ⟨k, rfl⟩ := parts side
    obtain ⟨u, g, hg, term, held⟩ := h.copy (Context.fits_plug.mp h.fits_live).1
    exact ⟨u, g, hg, term, held⟩
  | slope side => exact ⟨slopes side, f, known side (by simp [Recipe.slopes]) f, rfl, h⟩
  | unary op r ih =>
    obtain ⟨u, f₁, h₁, term, held⟩ := ih known h
    obtain ⟨g, hg, held⟩ := held.applyUnary op
    refine ⟨.unary f₁.size op u, g, ?_, by rw [Tree.term, Recipe.term, term], held⟩
    rw [Edit.follow, bind_ok h₁]
    exact hg
  | binary op r s ihr ihs =>
    have knownLeft := fun side hs => known side (List.mem_append_left s.slopes hs)
    have knownRight := fun side hs => known side (List.mem_append_right r.slopes hs)
    rw [Recipe.slopes, List.map_append, List.append_assoc] at h
    obtain ⟨u, f₁, h₁, termLeft, held⟩ := ihr knownLeft h
    obtain ⟨v, f₂, h₂, termRight, held⟩ := ihs knownRight (held.perm List.perm_middle.symm)
    obtain ⟨g, hg, held⟩ := (held.perm (.swap u v ts)).applyBinary op
    refine ⟨.binary f₂.size op u v, g, ?_,
      by rw [Tree.term, Recipe.term, termLeft, termRight], held⟩
    rw [Edit.follow, bind_ok h₁, bind_ok h₂]
    exact hg
  | rightFirst op r s ihr ihs =>
    have knownLeft := fun side hs => known side (List.mem_append_left s.slopes hs)
    have knownRight := fun side hs => known side (List.mem_append_right r.slopes hs)
    have turned : f.Stocked n m l (s.slopes.map slopes ++ (r.slopes.map slopes ++ ts)) := by
      refine h.perm ?_
      rw [Recipe.slopes, List.map_append, ← List.append_assoc]
      exact List.perm_append_comm.append_right ts
    obtain ⟨v, f₁, h₁, termRight, held⟩ := ihs knownRight turned
    obtain ⟨u, f₂, h₂, termLeft, held⟩ := ihr knownLeft (held.perm List.perm_middle.symm)
    obtain ⟨g, hg, held⟩ := held.applyBinary op
    refine ⟨.binary f₂.size op u v, g, ?_,
      by rw [Tree.term, Recipe.term, termLeft, termRight], held⟩
    rw [Edit.follow, bind_ok h₁, bind_ok h₂]
    exact hg

end Forest.Stocked

theorem Edit.slopeOf_ok {slopes : Array (Option Nat)} {i d : Nat}
    (h : slopes[i]? = some (some d)) (f : Forest) : Edit.slopeOf slopes i f = .ok d f := by
  simp only [Edit.slopeOf, h]
  rfl

section

variable {σ : Type} {sink : Sink σ} {f g : Forest} {n : Nat} {m : Mark} {l t : Tree}
  {ts : List Tree} {k : Context} {key : Key} {depends demanded : Array Bool}
  {slopes : Array (Option Nat)} {w w' : Watched σ} {first notes : σ} {b : Bool}

theorem Watch.deriveDemanded_skip {i : Nat} (h : flag demanded i = false) :
    deriveDemanded sink key depends demanded slopes i w = .ok slopes w := by
  simp only [deriveDemanded, h]
  rfl

theorem Watch.deriveDemanded_build {i d : Nat} (h : flag demanded i = true)
    (hd : deriveNode sink key depends slopes i w = .ok d w') :
    deriveDemanded sink key depends demanded slopes i w =
      .ok (slopes.setIfInBounds i (some d)) w' := by
  rw [deriveDemanded, if_pos h, bind_ok hd]
  rfl

/-- The report of a step, both of whose nodes are tops of trees. -/
def Report.TrueStep (key : Key) (f : Forest) (r : Report) : Prop :=
  ∃ s u : Tree, r = .stepDerived u.top s.top ∧ s.Fits f.cells ∧ u.Fits f.cells ∧
    u.term = s.term.derivative key

namespace Tree

/-- The derivative if it is used. -/
def pending (b : Bool) (u : Tree) : List Tree := if b then [u] else []

/-- What the visit of a part leaves: its derivative `u`, entered for its top, if that is
used. -/
structure Derived (t : Tree) (key : Key) (b : Bool) (u : Tree)
    (before after : Array (Option Nat)) : Prop where
  size : after.size = before.size
  off : ∀ j, j ∉ t.nodes → after[j]? = before[j]?
  entry : b = true → after[t.top]? = some (some u.top)
  term : b = true → u.term = t.term.derivative key

theorem stepDerived_heard {s u : Tree} (whole : l = k.plug s)
    (term : u.term = s.term.derivative key) (h : f.Stocked n m l (u :: ts)) :
    sink.Heard (Report.TrueStep key) notes (sink f (.stepDerived u.top s.top) notes) := by
  subst whole
  exact .report ⟨s, u, rfl, (Context.fits_plug.mp h.fits_live).1, h.holds.fits, term⟩

/-- The operands are visited; now the node itself is. -/
theorem derived_node {before : Array (Option Nat)} (hb : flag demanded t.top = b)
    (inside : t.top < slopes.size) (size : slopes.size = before.size)
    (off : ∀ j, j ∉ t.nodes → slopes[j]? = before[j]?)
    (earlier : sink.Heard (Report.TrueStep key) first notes)
    (skipped : b = false → f.Stocked n m l ts)
    (built : b = true → ∃ u g notes',
      Watch.deriveNode sink key depends slopes t.top ⟨f, notes⟩ = .ok u.top ⟨g, notes'⟩ ∧
      u.term = t.term.derivative key ∧ g.Stocked n m l (u :: ts) ∧
      sink.Heard (Report.TrueStep key) notes notes') :
    ∃ u after g notes',
      Watch.deriveDemanded sink key depends demanded slopes t.top ⟨f, notes⟩ =
        .ok after ⟨g, notes'⟩ ∧
      t.Derived key b u before after ∧ g.Stocked n m l (pending b u ++ ts) ∧
      sink.Heard (Report.TrueStep key) first notes' := by
  cases b with
  | false =>
    refine ⟨t, slopes, f, notes, Watch.deriveDemanded_skip hb, ⟨size, off, ?_, ?_⟩, skipped rfl,
      earlier⟩
    · simp
    · simp
  | true =>
    obtain ⟨u, g, notes', hd, term, held, heard⟩ := built rfl
    refine ⟨u, _, g, notes', Watch.deriveDemanded_build hb hd, ⟨?_, ?_, ?_, ?_⟩, held,
      earlier.trans heard⟩
    · rw [Array.size_setIfInBounds, size]
    · intro j hj
      rw [Array.getElem?_setIfInBounds_ne, off j hj]
      rintro rfl
      exact hj t.top_mem_nodes
    · intro _
      rw [Array.getElem?_setIfInBounds_self_of_lt inside]
    · intro _
      exact term

/-- The derivative of a leaf is a number, and no step is reported. -/
theorem deriveNode_leaf {x : Float}
    (made : Watch.deriveNode sink key depends slopes t.top ⟨f, notes⟩ =
      Watch.act (.number x) ⟨f, notes⟩)
    (term : t.term.derivative key = .number x) (h : f.Stocked n m l ts) :
    ∃ u g notes', Watch.deriveNode sink key depends slopes t.top ⟨f, notes⟩ =
        .ok u.top ⟨g, notes'⟩ ∧
      u.term = t.term.derivative key ∧ g.Stocked n m l (u :: ts) ∧
      sink.Heard (Report.TrueStep key) notes notes' := by
  obtain ⟨g, hg, held⟩ := h.number x
  exact ⟨.number f.size x, g, notes, made.trans (Watch.act_ok hg), term.symm, held, .nothing⟩

theorem deriveNode_unary {i : Nat} {op : Unary} {u : Tree}
    (whole : l = k.plug (.unary i op t)) (entry : slopes[t.top]? = some (some u.top))
    (term : u.term = t.term.derivative key) (h : f.Stocked n m l (u :: ts)) :
    ∃ v g notes', Watch.deriveNode sink key depends slopes i ⟨f, notes⟩ =
        .ok v.top ⟨g, notes'⟩ ∧
      v.term = (unary i op t).term.derivative key ∧ g.Stocked n m l (v :: ts) ∧
      sink.Heard (Report.TrueStep key) notes notes' := by
  subst whole
  have hc := (Context.fits_plug.mp h.fits_live).1.1
  have parts : ∀ _ : Side, ∃ j, k.plug (.unary i op t) = Context.plug j t :=
    fun _ => ⟨.unary i op :: k, rfl⟩
  have held : f.Stocked n m (k.plug (.unary i op t))
      (op.recipe.slopes.map (fun _ => u) ++ ts) := by
    rw [op.slopes_recipe]
    exact h
  have known : ∀ side ∈ op.recipe.slopes, ∀ f : Forest,
      (fun _ => pure u.top : Side → Edit Nat) side f = .ok u.top f := fun _ _ _ => rfl
  obtain ⟨v, g, hg, built, held⟩ := Stocked.follow op.recipe parts known held
  have term : v.term = (unary i op t).term.derivative key := by
    rw [built, term]
    rfl
  refine ⟨v, g, sink g (.stepDerived v.top i) notes, ?_, term, held,
    stepDerived_heard rfl term held⟩
  rw [Watch.deriveNode, bind_ok (Watch.look_eq _), hc]
  refine (bind_ok (Watch.act_ok (Edit.slopeOf_ok entry f))).trans ?_
  exact bind_ok (Watch.act_ok hg)

/-- Which trees of derivatives a recipe takes. -/
theorem slopes_perm_pending (op : Binary) (onLeft onRight : Bool) (u v : Tree) :
    ((op.recipe onLeft onRight).slopes.map (onSides u v)).Perm
      (pending (op.uses onLeft onRight .right) v ++ pending (op.uses onLeft onRight .left) u) := by
  refine ((op.slopes_recipe onLeft onRight).map (onSides u v)).trans ?_
  cases op.uses onLeft onRight .left <;> cases op.uses onLeft onRight .right <;>
    exact List.Perm.refl _

theorem deriveNode_binary {i : Nat} {op : Binary} {s u v : Tree}
    (whole : l = k.plug (.binary i op s t))
    (marks : (binary i op s t).Marks key depends)
    (entryLeft : op.uses (s.term.dependsOn key) (t.term.dependsOn key) .left = true →
      slopes[s.top]? = some (some u.top) ∧ u.term = s.term.derivative key)
    (entryRight : op.uses (s.term.dependsOn key) (t.term.dependsOn key) .right = true →
      slopes[t.top]? = some (some v.top) ∧ v.term = t.term.derivative key)
    (h : f.Stocked n m l
      (pending (op.uses (s.term.dependsOn key) (t.term.dependsOn key) .right) v ++
        (pending (op.uses (s.term.dependsOn key) (t.term.dependsOn key) .left) u ++ ts))) :
    ∃ d g notes', Watch.deriveNode sink key depends slopes i ⟨f, notes⟩ =
        .ok d.top ⟨g, notes'⟩ ∧
      d.term = (binary i op s t).term.derivative key ∧ g.Stocked n m l (d :: ts) ∧
      sink.Heard (Report.TrueStep key) notes notes' := by
  subst whole
  have hc := (Context.fits_plug.mp h.fits_live).1.1
  have parts : ∀ side, ∃ j, k.plug (.binary i op s t) = Context.plug j (onSides s t side)
    | .left => ⟨.left i op t :: k, rfl⟩
    | .right => ⟨.right i op s :: k, rfl⟩
  have entry : ∀ side ∈ (op.recipe (s.term.dependsOn key) (t.term.dependsOn key)).slopes,
      slopes[(onSides s t side).top]? = some (some (onSides u v side).top) ∧
      (onSides u v side).term =
        onSides (s.term.derivative key) (t.term.derivative key) side := by
    intro side hs
    cases side with
    | left => exact entryLeft (Binary.mem_slopes_iff.mp hs)
    | right => exact entryRight (Binary.mem_slopes_iff.mp hs)
  have known : ∀ side ∈ (op.recipe (s.term.dependsOn key) (t.term.dependsOn key)).slopes,
      ∀ f, (fun side => Edit.slopeOf slopes (onSides s t side).top) side f =
        .ok (onSides u v side).top f :=
    fun side hs => Edit.slopeOf_ok (entry side hs).1
  have held : f.Stocked n m (k.plug (.binary i op s t))
      ((op.recipe (s.term.dependsOn key) (t.term.dependsOn key)).slopes.map (onSides u v) ++
        ts) := by
    refine h.perm ?_
    rw [← List.append_assoc]
    exact (slopes_perm_pending op _ _ u v).symm.append_right ts
  obtain ⟨d, g, hg, built, held⟩ := Stocked.follow _ parts known held
  have term : d.term = (binary i op s t).term.derivative key := by
    rw [built, Recipe.term_congr _ fun side hs => (entry side hs).2]
    simp only [map_onSides Tree.term]
    rfl
  refine ⟨d, g, sink g (.stepDerived d.top i) notes, ?_, term, held,
    stepDerived_heard rfl term held⟩
  rw [Watch.deriveNode, bind_ok (Watch.look_eq _), hc]
  simp only [map_onSides Tree.top] at hg
  simp only [marks.2.1.top, marks.2.2.top]
  exact bind_ok (Watch.act_ok hg)

/-- The derivatives that are used are built, operands first. -/
theorem derived_foldl (sink : Sink σ) (slopes : Array (Option Nat)) (notes : σ)
    (whole : l = k.plug t) (nodup : t.nodes.Nodup)
    (inside : ∀ i ∈ t.nodes, i < slopes.size) (marks : t.Marks key depends)
    (demands : t.Demands key demanded b) (h : f.Stocked n m l ts) :
    ∃ u after g notes',
      t.nodes.foldlM (Watch.deriveDemanded sink key depends demanded) slopes ⟨f, notes⟩ =
        .ok after ⟨g, notes'⟩ ∧
      t.Derived key b u slopes after ∧ g.Stocked n m l (pending b u ++ ts) ∧
      sink.Heard (Report.TrueStep key) notes notes' := by
  induction t generalizing k b slopes f ts notes with
  | number i x =>
    simp only [nodes_number, List.foldlM_cons, List.foldlM_nil, bind_pure]
    refine derived_node (t := .number i x) demands (inside i (by simp)) rfl (fun _ _ => rfl)
      .nothing (fun _ => h) fun _ => deriveNode_leaf (x := 0) ?_ rfl h
    subst whole
    rw [Watch.deriveNode, bind_ok (Watch.look_eq _), (Context.fits_plug.mp h.fits_live).1.cell]
    rfl
  | var i key' =>
    simp only [nodes_var, List.foldlM_cons, List.foldlM_nil, bind_pure]
    refine derived_node (t := .var i key') demands (inside i (by simp)) rfl (fun _ _ => rfl)
      .nothing (fun _ => h) fun _ => deriveNode_leaf (x := if key' = key then 1 else 0) ?_ rfl h
    subst whole
    rw [Watch.deriveNode, bind_ok (Watch.look_eq _), (Context.fits_plug.mp h.fits_live).1.cell]
    rfl
  | unary i op t ih =>
    obtain ⟨u, after, f₁, notes₁, h₁, operand, held, heard⟩ :=
      ih (k := .unary i op :: k) slopes notes whole (nodup_unary nodup).1
      (fun j hj => inside j (by simp [hj])) marks.2 demands.2 h
    rw [nodes_unary, List.foldlM_append, bind_ok h₁]
    simp only [List.foldlM_cons, List.foldlM_nil, bind_pure]
    apply derived_node (t := .unary i op t) demands.1
    · exact operand.size ▸ inside i (by simp)
    · exact operand.size
    · intro j hj
      exact operand.off j fun ht => hj (by simp [ht])
    · exact heard
    · intro hb
      subst hb
      exact held
    · intro hb
      subst hb
      exact deriveNode_unary whole (operand.entry rfl) (operand.term rfl) held
  | binary i op s t ihs iht =>
    obtain ⟨nodupLeft, nodupRight, apart, -, -⟩ := nodup_binary nodup
    obtain ⟨u, after₁, f₁, notes₁, h₁, left, held, heardLeft⟩ :=
      ihs (k := .left i op t :: k) slopes notes whole nodupLeft
        (fun j hj => inside j (by simp [hj])) marks.2.1 demands.2.1 h
    obtain ⟨v, after₂, f₂, notes₂, h₂, right, held, heardRight⟩ :=
      iht (k := .right i op s :: k) after₁ notes₁ whole nodupRight
        (fun j hj => left.size ▸ inside j (by simp [hj])) marks.2.2 demands.2.2 held
    rw [nodes_binary, List.foldlM_append, List.foldlM_append, bind_ok (bind_ok h₁ |>.trans h₂)]
    simp only [List.foldlM_cons, List.foldlM_nil, bind_pure]
    apply derived_node (t := .binary i op s t) demands.1
    · exact right.size ▸ left.size ▸ inside i (by simp)
    · exact right.size.trans left.size
    · intro j hj
      rw [right.off j fun ht => hj (by simp [ht]), left.off j fun hs => hj (by simp [hs])]
    · exact heardLeft.trans heardRight
    · intro hb
      subst hb
      exact held
    · intro hb
      subst hb
      apply deriveNode_binary whole marks _ _ held
      · intro used
        rw [right.off s.top (apart s.top s.top_mem_nodes)]
        exact ⟨left.entry used, left.term used⟩
      · intro used
        exact ⟨right.entry used, right.term used⟩

end Tree

/-- The derivative of a part of the live tree is built beside it, and takes up all cells that
are added. The steps that are reported are true. -/
theorem Watch.derive_part (sink : Sink σ) (key : Key) (notes : σ)
    (h : f.Holds m (some (k.plug t)) ts) :
    ∃ u g notes', derive sink t.top key ⟨f, notes⟩ = .ok u.top ⟨g, notes'⟩ ∧
      u.term = t.term.derivative key ∧ g.Holds m (some (k.plug t)) (u :: ts) ∧
      g.size = f.size + u.term.size ∧ sink.Heard (Report.TrueStep key) notes notes' := by
  have fits := (Context.fits_plug.mp h.fits_live).1
  have nodup := (List.nodup_append.mp h.stands.nodup_context).1
  have marks := Tree.marks_dependence fits nodup key
  have demands := Tree.demands_demand fits nodup marks
  have inside : ∀ i ∈ t.nodes, i < (Array.replicate f.size (none : Option Nat)).size := by
    intro i hi
    rw [Array.size_replicate]
    exact fits.lt i hi
  have room : (nodesOf ts).length ≤ f.size :=
    Tree.length_le_of_nodup_of_lt h.stands.tail.apart h.stands.tail.lt
  have stocked : f.Stocked (f.size - (nodesOf ts).length) m (k.plug t) ts := ⟨h, by omega⟩
  obtain ⟨u, after, g, notes', hg, built, held, heard⟩ :=
    Tree.derived_foldl sink (Array.replicate f.size none) notes rfl nodup inside marks demands
      stocked
  refine ⟨u, g, notes', ?_, built.term rfl, held.holds, ?_, heard⟩
  · rw [derive, bind_ok (look_eq _), postorder_eq fits, bind_ok (look_eq _),
      bind_ok (look_eq _), bind_ok (look_eq _), bind_ok hg]
    exact act_ok (Edit.slopeOf_ok (built.entry rfl) g)
  · have size := held.size
    simp only [Tree.pending, if_true, List.singleton_append, nodesOf_cons, List.length_append,
      u.length_nodes] at size
    omega

/-- The derivative that is built takes the place of the node. -/
theorem Watch.differentiate_of_derive {i d : Nat} (present : i < f.size)
    (built : derive sink i key ⟨f, notes⟩ = .ok d w)
    (replaced : Edit.replace i d w.forest = .ok () g) :
    differentiate sink i key ⟨f, notes⟩ = .ok d ⟨g, sink g (.derived d i) w.notes⟩ := by
  have found : f.absent? i = none := if_pos present
  rw [differentiate, bind_ok (act_ok (Edit.require_ok found)), bind_ok built,
    bind_ok (act_ok replaced)]
  rfl

/-- Differentiating a part puts its derivative in its place. -/
theorem Watch.differentiate_part (sink : Sink σ) (key : Key) (notes : σ)
    (h : f.Holds m (some (k.plug t)) ts) :
    ∃ u g notes', differentiate sink t.top key ⟨f, notes⟩ = .ok u.top ⟨g, notes'⟩ ∧
      u.term = t.term.derivative key ∧ g.Holds m (some (k.plug u)) ts := by
  have fits := (Context.fits_plug.mp h.fits_live).1
  obtain ⟨u, f₁, notes₁, h₁, term, held, -⟩ := derive_part sink key notes h
  obtain ⟨hg, held⟩ := held.replace
  exact ⟨u, _, _, differentiate_of_derive fits.top_lt h₁ hg, term, held⟩

end

end Fluxion

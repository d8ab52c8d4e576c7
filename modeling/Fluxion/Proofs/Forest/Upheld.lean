import Fluxion.Proofs.Forest.Numbers
import Fluxion.Proofs.Invariants

/-!
# Invariants that all edits uphold

All operations are made of a few edits. What these keep, with numbers of some kind, is kept by
all operations that bring in no other numbers. Some invariants are kept even by the single
writes of an edit. No edit fails with a wrong number of operands.
-/

namespace Fluxion

variable {P : Float → Prop} {fault : Fault → Prop} {inv : Forest → Prop}

/-- The edit keeps the invariant, and fails with these faults only. -/
abbrev Edit.Upholds {α : Type} (inv : Forest → Prop) (fault : Fault → Prop) (x : Edit α) : Prop :=
  Ensures inv (fun _ => True) fault x

/-- The edits that bring in numbers with the property uphold the invariant, and so do all that
bring in none. -/
structure Upheld (P : Float → Prop) (fault : Fault → Prop) (inv : Forest → Prop) : Prop where
  numbers : ∀ f, inv f → f.Numbers P
  faults : ∀ e, (∀ op, e ≠ .arity op) → fault e
  number : ∀ x, P x → (Edit.number x).Upholds inv fault
  var : ∀ key, (Edit.var key).Upholds inv fault
  applyUnary : ∀ op a, (Edit.applyUnary op a).Upholds inv fault
  applyBinary : ∀ op a b, (Edit.applyBinary op a b).Upholds inv fault
  setRoot : ∀ i, (Edit.setRoot i).Upholds inv fault
  replace : ∀ old new, (Edit.replace old new).Upholds inv fault
  register : ∀ symbol, (Edit.register symbol).Upholds inv fault
  assign : ∀ symbol x, (Edit.assign symbol x).Upholds inv fault
  clear : Edit.clear.Upholds inv fault

/-! ### Single writes -/

/-- Every single write keeps the invariant. Parents are written in place, and only a cell becomes
the root. -/
structure KeptByWrites (P : Float → Prop) (inv : Forest → Prop) : Prop where
  numbers : ∀ f, inv f → f.Numbers P
  push : ∀ f c, inv f → (∀ x, c = .number x → P x) →
    inv { f with cells := f.cells.push c, parents := f.parents.push none }
  refill : ∀ f p old new, inv f → inv { f with cells := f.cells.modify p (Cell.refill old new) }
  parents : ∀ f i p, inv f → inv { f with parents := f.parents.setIfInBounds i p }
  root : ∀ f r, r < f.size → inv f → inv { f with root := some r }
  retired : ∀ f is, inv f → inv { f with retired := is }
  register : ∀ f symbol, inv f → inv { f with registry := f.registry.register symbol }
  assign : ∀ f symbol x r, f.registry.assign? symbol x = some r → inv f →
    inv { f with registry := r }
  clear : ∀ f, inv f → inv { f with registry := f.registry.clear }

namespace KeptByWrites

variable (kept : KeptByWrites P inv)

include kept

theorem allocate {c : Cell} (hc : ∀ x, c = .number x → P x) :
    (Edit.allocate c).Upholds inv fault :=
  fun f hf => ⟨kept.push f c hf hc, trivial⟩

theorem setParent (i : Nat) (p : Option Nat) : (Edit.setParent i p).Upholds inv fault :=
  fun f hf => ⟨kept.parents f i p hf, trivial⟩

theorem retire (i : Nat) : (Edit.retire i).Upholds inv fault :=
  fun f hf => ⟨kept.retired f _ hf, trivial⟩

/-- No write takes a cell away. -/
theorem within (i : Nat) : KeptByWrites P fun f => inv f ∧ i < f.size where
  numbers f h := kept.numbers f h.1
  push f c h hc := by
    refine ⟨kept.push f c h.1 hc, ?_⟩
    have size : i < f.cells.size := h.2
    simp only [Forest.size, Array.size_push]
    omega
  refill f p old new h := by
    refine ⟨kept.refill f p old new h.1, ?_⟩
    have size : i < f.cells.size := h.2
    simpa [Forest.size] using size
  parents f j p h := ⟨kept.parents f j p h.1, h.2⟩
  root f r lt h := ⟨kept.root f r lt h.1, h.2⟩
  retired f is h := ⟨kept.retired f is h.1, h.2⟩
  register f symbol h := ⟨kept.register f symbol h.1, h.2⟩
  assign f symbol x r entered h := ⟨kept.assign f symbol x r entered h.1, h.2⟩
  clear f h := ⟨kept.clear f h.1, h.2⟩

variable (faults : ∀ e, (∀ op, e ≠ .arity op) → fault e)

include faults

omit kept in
theorem fault_of_absent? (i : Nat) (f : Forest) (e : Fault) (he : f.absent? i = some e) :
    fault e := by
  unfold Forest.absent? at he
  split at he
  · cases he
  · cases he
    exact faults _ nofun

omit kept in
theorem requireAbsent (i : Nat) : (Edit.require (·.absent? i)).Upholds inv fault :=
  .require (fault_of_absent? faults i)

omit kept in
theorem requiringPresent {k : Unit → Edit Unit} (i : Nat)
    (rest : (k ()).Upholds (fun f => inv f ∧ i < f.size) fault) :
    (Edit.require (·.absent? i) >>= k).Upholds inv fault := by
  refine .requiring (fault_of_absent? faults i) (fun f present => ?_) rest
  unfold Forest.absent? at present
  split at present
  · assumption
  · cases present

omit kept in
theorem requireUnfree (i : Nat) : (Edit.require (·.unfree? i)).Upholds inv fault := by
  apply Ensures.require
  intro f e he
  unfold Forest.unfree? at he
  split at he
  · cases he
    exact faults _ nofun
  · split at he
    · cases he
      exact faults _ nofun
    · cases he

theorem applyUnary (op : Unary) (a : Nat) : (Edit.applyUnary op a).Upholds inv fault :=
  .andThen (requireUnfree faults a) fun _ => .andThen (kept.allocate nofun) fun _ =>
    .andThen (kept.setParent a _) fun _ => .pure trivial

theorem applyBinary (op : Binary) (a b : Nat) : (Edit.applyBinary op a b).Upholds inv fault := by
  refine .andThen (requireUnfree faults a) fun _ => .andThen (requireUnfree faults b) fun _ => ?_
  have join : (do
      let i ← Edit.allocate (.binary op a b)
      Edit.setParent a (some i)
      Edit.setParent b (some i)
      return i : Edit Nat).Upholds inv fault :=
    .andThen (kept.allocate nofun) fun _ => .andThen (kept.setParent a _) fun _ =>
      .andThen (kept.setParent b _) fun _ => .pure trivial
  by_cases same : a = b
  · rw [if_pos same]
    exact .andThen (.throw (faults _ nofun)) fun _ => join
  · rw [if_neg same]
    exact join

theorem setRoot (i : Nat) : (Edit.setRoot i).Upholds inv fault := by
  refine requiringPresent faults i (.andThen (.require ?_) fun _ => ?_)
  · intro f e he
    split at he
    · cases he
      exact faults _ nofun
    · cases he
  · exact fun f hf => ⟨(kept.within i).root f i hf.2 hf, trivial⟩

theorem refillCell (p old new : Nat) : (Edit.refill p old new).Upholds inv fault := by
  refine .andThen (.require ?_) fun _ f hf => ⟨kept.refill f p old new hf, trivial⟩
  intro f e he
  have missing : e = .missingNode := by grind
  rw [missing]
  exact faults _ nofun

theorem replace (old new : Nat) : (Edit.replace old new).Upholds inv fault := by
  refine .andThen (requireAbsent faults old) fun _ => requiringPresent faults new ?_
  have kept := kept.within new
  have last : (do
      Edit.setParent old none
      Edit.retire old : Edit Unit).Upholds (fun f => inv f ∧ new < f.size) fault :=
    .andThen (kept.setParent old none) fun _ => kept.retire old
  by_cases same : old = new
  · rw [if_pos same]
    exact .pure trivial
  · rw [if_neg same]
    refine .andThen (.require ?_) fun _ => .andThen (.look fun _ _ => trivial) fun p? => ?_
    · intro f e he
      split at he
      · cases he
      · cases he
        exact faults _ nofun
    cases p? with
    | some p =>
      exact .andThen (kept.refillCell faults p old new) fun _ =>
        .andThen (kept.setParent new _) fun _ => last
    | none =>
      refine .andThen (fun f hf => ?_) fun _ => .andThen (kept.setParent new _) fun _ => last
      by_cases top : f.root = some old
      · simp only [top, if_true]
        exact ⟨kept.root f new hf.2 hf, trivial⟩
      · simp only [top, if_false]
        exact ⟨hf, trivial⟩

theorem upheld : Upheld P fault inv where
  numbers := kept.numbers
  faults := faults
  number x hx := kept.allocate fun y hy => by
    cases hy
    exact hx
  var key := kept.allocate nofun
  applyUnary := kept.applyUnary faults
  applyBinary := kept.applyBinary faults
  setRoot := kept.setRoot faults
  replace := kept.replace faults
  register symbol := fun f hf => ⟨kept.register f symbol hf, trivial⟩
  assign symbol x := by
    intro f hf
    cases entered : f.registry.assign? symbol x with
    | some r =>
      simpa only [Edit.assign, entered] using ⟨kept.assign f symbol x r entered hf, trivial⟩
    | none => simpa only [Edit.assign, entered] using ⟨hf, faults _ nofun⟩
  clear := fun f hf => ⟨kept.clear f hf, trivial⟩

end KeptByWrites

theorem Forest.keptByWrites_numbers : KeptByWrites P (Forest.Numbers P) where
  numbers _ h := h
  push _ _ h hc := h.push hc
  refill _ p old new h := h.modify p old new
  parents _ _ _ h := h
  root _ _ _ h := h
  retired _ _ h := h
  register _ _ h := h
  assign _ _ _ _ _ h := h
  clear _ h := h

/-! ### Copies -/

namespace Upheld

variable (up : Upheld P fault inv)

include up

theorem missing : fault .missingNode := up.faults _ nofun

theorem requireAbsent (i : Nat) : (Edit.require (·.absent? i)).Upholds inv fault :=
  KeptByWrites.requireAbsent up.faults i

theorem rootIndex : Edit.rootIndex.Upholds inv fault := by
  intro f hf
  cases root : f.root with
  | some i => simpa only [Edit.rootIndex, root] using ⟨hf, trivial⟩
  | none => simpa only [Edit.rootIndex, root] using ⟨hf, up.missing⟩

end Upheld

/-- The operations of an algebra bring in the numbers that they are given. -/
structure Algebra.Copies {ν : Type} (P : Float → Prop) (fault : Fault → Prop)
    (inv : Forest → Prop) (alg : Algebra Edit ν Nat) : Prop where
  number : ∀ x, P x → (alg.number x).Upholds inv fault
  var : ∀ n, (alg.var n).Upholds inv fault
  unary : ∀ op a, (alg.unary op a).Upholds inv fault
  binary : ∀ op a b, (alg.binary op a b).Upholds inv fault

namespace Upheld

variable (up : Upheld P fault inv)

include up

theorem copying : Edit.copying.Copies P fault inv :=
  ⟨up.number, up.var, up.applyUnary, up.applyBinary⟩

theorem planting : Edit.planting.Copies P fault inv :=
  ⟨up.number, fun n => .andThen (up.register n) up.var, up.applyUnary, up.applyBinary⟩

theorem grafting : Edit.grafting.Copies P fault inv := by
  refine ⟨up.number, ?_, up.applyUnary, up.applyBinary⟩
  rintro ⟨symbol?, key⟩
  cases symbol? with
  | none => exact up.var key
  | some symbol => exact .andThen (.discard (up.register symbol)) fun _ => up.var key

theorem step {ν : Type} {alg : Algebra Edit ν Nat} (copies : alg.Copies P fault inv)
    (stack : List Nat) (s : Step ν) (number : ∀ x, s = .number x → P x) :
    (alg.step stack s).Upholds inv fault := by
  cases s with
  | number x => exact .andThen (copies.number x (number x rfl)) fun _ => .pure trivial
  | var n => exact .andThen (copies.var n) fun _ => .pure trivial
  | unary op =>
    cases stack with
    | nil => exact .throw up.missing
    | cons a stack => exact .andThen (copies.unary op a) fun _ => .pure trivial
  | binary op =>
    cases stack with
    | nil => exact .throw up.missing
    | cons b stack =>
      cases stack with
      | nil => exact .throw up.missing
      | cons a stack => exact .andThen (copies.binary op a b) fun _ => .pure trivial

theorem run {ν : Type} {alg : Algebra Edit ν Nat} (copies : alg.Copies P fault inv)
    (ss : List (Step ν)) (numbers : ∀ x, .number x ∈ ss → P x) :
    (alg.run ss).Upholds inv fault := by
  have steps : Edit.Upholds inv fault (ss.foldlM alg.step []) := by
    refine Ensures.foldlM (fun stack _ s hs => ?_) trivial
    apply up.step copies
    rintro x rfl
    exact numbers x hs
  refine .andThen steps fun stack => ?_
  cases stack with
  | nil => exact .throw up.missing
  | cons a stack => exact .pure trivial

theorem copy (i : Nat) : (Edit.copy i).Upholds inv fault := by
  have program : Ensures inv (fun ss => ∀ x, .number x ∈ ss → P x) fault
      (Edit.look (·.program i)) :=
    .look fun f hf x hx => (up.numbers f hf).program hx
  exact .andThen (up.requireAbsent i) fun _ => program.bind fun ss => up.run up.copying ss

theorem plant (t : Term Char) (numbers : ∀ x ∈ t.numbers, P x) :
    (Edit.plant t).Upholds inv fault :=
  up.run up.planting t.program fun x hx => numbers x (Term.mem_numbers_of_mem_program hx)

theorem graft {other : Forest} (numbers : other.Numbers P) (i : Nat) :
    (Edit.graft other i).Upholds inv fault := by
  have run : (Edit.grafting.run ((other.program i).map (Step.map fun key =>
      ((other.registry.find? key).map (·.symbol), key)))).Upholds inv fault := by
    apply up.run up.grafting
    intro x hx
    obtain ⟨s, hs, mapped⟩ := List.mem_map.mp hx
    cases s with
    | number y =>
      cases mapped
      exact numbers.program hs
    | var key => cases mapped
    | unary op => cases mapped
    | binary op => cases mapped
  unfold Edit.graft
  cases absent : other.absent? i with
  | none => exact run
  | some e =>
    have missing : e = .missingNode := by
      unfold Forest.absent? at absent
      split at absent <;> cases absent
      rfl
    rw [missing]
    exact .andThen (.throw up.missing) fun _ => run

theorem ofTerm {t : Term Char} {f : Forest} (made : Forest.ofTerm t = .ok f)
    (numbers : ∀ x ∈ t.numbers, P x) (start : inv .empty) : inv f := by
  have planted : (do Edit.setRoot (← Edit.plant t) : Edit Unit).Upholds inv fault :=
    .andThen (up.plant t numbers) up.setRoot
  have after := planted .empty start
  unfold Forest.ofTerm at made
  split at made
  · next g hg =>
    cases made
    rw [hg] at after
    exact after.1
  · cases made

end Upheld

end Fluxion

import Fluxion.Proofs.Forest.SafeEdits

/-!
# Forests made by single calls

A forest may be made call by call, and the calls may have any arguments and may fail. The
live expression is then a tree as long as no spent node is live, that is no node whose own
operand took its place. Such a node has no parent and may be made the root again, or an
operand; its slots still hold the operand, which has another parent by then, or none.
-/

namespace Fluxion

inductive Call where
  | number (value : Float)
  | var (key : Key)
  | unary (op : Operator) (a : Nat)
  | binary (op : Operator) (a b : Nat)
  | setRoot (i : Nat)
  | replace (old new : Nat)
  | copy (i : Nat)
  | graft (other : Forest) (i : Nat)
  | compact

namespace Call

/-- The forest after the call, whether it succeeds or fails. -/
def after (f : Forest) : Call → Forest
  | number x => (Edit.number x).after f
  | var key => (Edit.var key).after f
  | unary op a => (Edit.unary op a).after f
  | binary op a b => (Edit.binary op a b).after f
  | setRoot i => (Edit.setRoot i).after f
  | replace old new => (Edit.replace old new).after f
  | copy i => (Edit.copy i).after f
  | graft other i => (Edit.graft other i).after f
  | compact => Edit.compact.after f

/-- The spent nodes after the call. Compaction leaves live nodes only. -/
def spends (f : Forest) (spent : List Nat) : Call → List Nat
  | replace old new => if old ≠ new ∧ f.parent new = some old then old :: spent else spent
  | compact => []
  | _ => spent

/-- What the calls make of the empty forest, with the nodes that are spent. -/
def run (calls : List Call) : Forest × List Nat :=
  calls.foldl (fun (f, spent) c => (c.after f, c.spends f spent)) (.empty, [])

theorem run_append (calls : List Call) (c : Call) : run (calls ++ [c]) =
    (c.after (run calls).1, c.spends (run calls).1 (run calls).2) := by
  rw [run, List.foldl_append]
  rfl

end Call

namespace Forest

/-- Made by calls, with the nodes that are spent. While a spent node is live, there is no
compaction. -/
inductive Handmade : Forest → List Nat → Prop where
  | empty : Handmade .empty []
  | call {f : Forest} {spent : List Nat} (c : Call) (before : Handmade f spent)
    (allowed : c = .compact → ∀ i ∈ spent, ¬ f.Live i) : Handmade (c.after f) (c.spends f spent)

variable {f : Forest} {spent : List Nat} {r : Nat}

theorem empty_bonded : empty.Bonded [] := by
  refine ⟨rfl, ?_, ?_, ?_, ?_, ?_⟩
  all_goals simp [empty, slots, parent, Keeps]

theorem Bonded.call (h : f.Bonded spent) (c : Call)
    (allowed : c = .compact → ∀ i ∈ spent, ¬ f.Live i) : (c.after f).Bonded (c.spends f spent) := by
  cases c with
  | number x => exact Edit.number_safe x f spent h
  | var key => exact Edit.var_safe key f spent h
  | unary op a => exact Edit.unary_safe op a f spent h
  | binary op a b => exact Edit.binary_safe op a b f spent h
  | setRoot i => exact Edit.setRoot_safe i f spent h
  | replace old new => exact Edit.replace_bonded h old new
  | copy i => exact Edit.copy_safe i f spent h
  | graft other i => exact Edit.graft_safe other i f spent h
  | compact => exact h.compact (allowed rfl)

theorem Handmade.bonded (made : f.Handmade spent) : f.Bonded spent := by
  induction made with
  | empty => exact empty_bonded
  | call c _ allowed ih => exact ih.call c allowed

theorem handmade_run (calls : List Call) (kept : ∀ c ∈ calls, c ≠ .compact) :
    (Call.run calls).1.Handmade (Call.run calls).2 := by
  induction calls using List.reverseRecOn with
  | nil => exact .empty
  | append_singleton calls c ih =>
    rw [List.forall_mem_append] at kept
    rw [Call.run_append]
    exact .call c (ih kept.1) fun compact => absurd compact (kept.2 c List.mem_cons_self)

/-- Exactly the spent nodes can keep the live expression from being a tree. -/
theorem Handmade.treeShaped_iff (made : f.Handmade spent) :
    f.TreeShaped ↔ ∀ i ∈ spent, ¬ f.Live i :=
  made.bonded.treeShaped_iff_forall

end Forest

namespace Call

/-- A copy of `sin(0 + x)` stays aside; in the original, the sum takes the place of the sine. -/
def unwrap : List Call :=
  [.number 0, .var 7, .binary (.binary .add) 0 1, .unary (.unary .sin) 2, .setRoot 3, .copy 3,
    .replace 3 2]

/-- The sum takes the place of the sine, and then the sine becomes the root again. -/
def rewrap : List Call :=
  [.number 0, .var 7, .binary (.binary .add) 0 1, .unary (.unary .sin) 2, .replace 3 2,
    .setRoot 3]

end Call

namespace Forest

theorem handmade_unwrap : (Call.run Call.unwrap).1.Handmade [3] := by
  have made := handmade_run Call.unwrap (by simp [Call.unwrap])
  have spent : (Call.run Call.unwrap).2 = [3] := rfl
  rwa [spent] at made

theorem root_unwrap : (Call.run Call.unwrap).1.root = some 2 := rfl

/-- What comes after the root is not live. -/
theorem not_live_unwrap : ∀ i ∈ [3], ¬ (Call.run Call.unwrap).1.Live i := by
  intro i hi live
  have lt : ∀ i < (Call.run Call.unwrap).1.size, ∀ j ∈ (Call.run Call.unwrap).1.slots i, j < i := by
    decide
  have le := live.le lt root_unwrap
  rw [List.mem_singleton] at hi
  omega

/-- The sine is spent, and not live. -/
theorem treeShaped_unwrap : (Call.run Call.unwrap).1.Handmade [3] ∧
    (Call.run Call.unwrap).1.root = some 2 ∧ (Call.run Call.unwrap).1.TreeShaped :=
  ⟨handmade_unwrap, root_unwrap, handmade_unwrap.treeShaped_iff.mpr not_live_unwrap⟩

/-- The sum below the sine is live and has no parent. -/
theorem not_treeShaped_run : ¬ ∀ calls : List Call, (Call.run calls).1.TreeShaped := by
  intro all
  have root : (Call.run Call.rewrap).1.root = some 3 := by decide
  have slot : 2 ∈ (Call.run Call.rewrap).1.slots 3 := by decide
  have orphan : (Call.run Call.rewrap).1.parent 2 = none := by decide
  obtain ⟨p, above, -⟩ := (all Call.rewrap).attached 2 ⟨3, root, .single slot⟩ (by simp [root])
  rw [orphan] at above
  cases above

end Forest

end Fluxion

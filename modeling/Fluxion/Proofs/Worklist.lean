/-!
# Loops over a stack

A loop takes items from a stack until the stack is empty or an item makes it break off. In the
place of each item it puts others, the first one on top.
-/

namespace Fluxion

/-- What a loop does with the item that it takes. -/
inductive Move (β : Type) where
  | put (items : List β)
  | stop

/-- With this stack, whose head is its top, the loop takes the listed items one after the other.
Then it has emptied the stack or broken off. Where a move is undefined nothing is said. -/
inductive Finishes {β : Type} (move : β → Option (Move β)) : List β → List β → Bool → Prop where
  | empty : Finishes move [] [] true
  | put {item : β} {items rest taken : List β} {emptied : Bool}
      (next : move item = some (.put items)) (run : Finishes move (items ++ rest) taken emptied) :
      Finishes move (item :: rest) (item :: taken) emptied
  | stop {item : β} {rest : List β} (next : move item = some .stop) :
      Finishes move (item :: rest) [item] false

namespace Finishes

variable {β : Type} {move : β → Option (Move β)} {items rest taken taken' : List β}
  {emptied emptied' : Bool}

/-- A loop ends in one way only. -/
theorem unique (h : Finishes move items taken emptied) (h' : Finishes move items taken' emptied') :
    taken = taken' ∧ emptied = emptied' := by
  induction h generalizing taken' with
  | empty =>
    cases h'
    exact ⟨rfl, rfl⟩
  | put next _ ih =>
    cases h' with
    | put next' run =>
      cases next.symm.trans next'
      obtain ⟨rfl, same⟩ := ih run
      exact ⟨rfl, same⟩
    | stop next' => cases next.symm.trans next'
  | stop next =>
    cases h' with
    | put next' _ => cases next.symm.trans next'
    | stop _ => exact ⟨rfl, rfl⟩

theorem iff_of (h : Finishes move items taken emptied) :
    Finishes move items taken' emptied' ↔ taken' = taken ∧ emptied' = emptied := by
  constructor
  · exact fun h' => h'.unique h
  · rintro ⟨rfl, rfl⟩
    exact h

/-- What lies deeper in the stack has its turn when the items above it are done with. -/
theorem append (h : Finishes move items taken true) (h' : Finishes move rest taken' emptied) :
    Finishes move (items ++ rest) (taken ++ taken') emptied := by
  generalize done : true = b at h
  induction h with
  | empty => exact h'
  | put next _ ih =>
    rw [List.append_assoc] at ih
    exact .put next (ih done)
  | stop next => cases done

/-- A loop that breaks off does not come to what lies deeper in the stack. -/
theorem append_of_stopped (h : Finishes move items taken false) (rest : List β) :
    Finishes move (items ++ rest) taken false := by
  generalize broken : false = b at h
  induction h with
  | empty => cases broken
  | put next _ ih =>
    rw [List.append_assoc] at ih
    exact .put next (ih broken)
  | stop next => exact .stop next

end Finishes

end Fluxion

import Fluxion.Text.Lexeme
import Mathlib.Data.List.SplitBy
import Mathlib.Data.List.TakeWhile

/-!
# The lexemes of a text, one by one

The first lexeme of a text is found from its first characters alone: a character that stands
alone, or the longest run of characters that join. The other lexemes are those of what comes
after it.
-/

namespace Fluxion

namespace Lexeme

variable {joint : Char → Joint} {c : Char} {cs ds : List Char} {n k : Nat}

/-- The number of bytes that the characters take. -/
def width : List Char → Nat
  | [] => 0
  | c :: cs => c.utf8Size + width cs

@[simp] theorem width_nil : width [] = 0 := rfl

@[simp] theorem width_cons (c : Char) (cs : List Char) :
    width (c :: cs) = c.utf8Size + width cs := rfl

@[simp] theorem width_append (cs ds : List Char) : width (cs ++ ds) = width cs + width ds := by
  induction cs with
  | nil => simp
  | cons c cs ih => rw [List.cons_append, width_cons, width_cons, ih, Nat.add_assoc]

theorem utf8ByteSize_eq (text : String) : text.utf8ByteSize = width text.toList := by
  have h : (String.ofList text.toList).utf8ByteSize = width text.toList := by
    rw [← String.size_toByteArray, String.toByteArray_ofList, List.utf8Encode,
      List.size_toByteArray, List.length_flatMap]
    simp only [String.length_utf8EncodeChar]
    induction text.toList with
    | nil => rfl
    | cons c cs ih => rw [List.map_cons, List.sum_cons, ih, width_cons]
  rwa [String.ofList_toList] at h

theorem length_le_width (cs : List Char) : cs.length ≤ width cs := by
  induction cs with
  | nil => exact Nat.le_refl 0
  | cons c cs ih =>
    have := c.utf8Size_pos
    rw [List.length_cons, width_cons]
    omega

/-- The characters with their offsets, of which the first is `n`. -/
def positionsFrom : Nat → List Char → List (Nat × Char)
  | _, [] => []
  | n, c :: cs => (n, c) :: positionsFrom (n + c.utf8Size) cs

theorem positions_foldl (cs : List Char) (n : Nat) (acc : List (Nat × Char)) :
    (cs.foldl (fun (n, acc) c => (n + c.utf8Size, (n, c) :: acc)) (n, acc)).2.reverse =
      acc.reverse ++ positionsFrom n cs := by
  induction cs generalizing n acc with
  | nil => simp [positionsFrom]
  | cons c cs ih => simp [positionsFrom, ih]

theorem positions_eq (cs : List Char) : positions cs = positionsFrom 0 cs :=
  positions_foldl cs 0 []

theorem positionsFrom_append (n : Nat) (cs ds : List Char) :
    positionsFrom n (cs ++ ds) = positionsFrom n cs ++ positionsFrom (n + width cs) ds := by
  induction cs generalizing n with
  | nil => simp [positionsFrom]
  | cons c cs ih => simp [positionsFrom, ih, Nat.add_assoc]

theorem map_snd_positionsFrom (n : Nat) (cs : List Char) :
    (positionsFrom n cs).map (·.2) = cs := by
  induction cs generalizing n with
  | nil => rfl
  | cons c cs ih => simp [positionsFrom, ih]

theorem snd_mem_of_mem_positionsFrom {p : Nat × Char} (h : p ∈ positionsFrom n cs) :
    p.2 ∈ cs := by
  rw [← map_snd_positionsFrom n cs]
  exact List.mem_map_of_mem h

theorem head?_positionsFrom (n : Nat) (cs : List Char) :
    (positionsFrom n cs).head? = cs.head?.map fun c => (n, c) := by
  cases cs <;> rfl

/-- The lexemes of what stands at the offset `n` and after it. -/
def lexemesFrom (joint : Char → Joint) (n : Nat) (cs : List Char) : List Lexeme :=
  ((positionsFrom n cs).splitBy fun a b => joined (joint a.2) (joint b.2)).filterMap
    (ofRun? joint)

theorem lexemes_eq (joint : Char → Joint) (text : String) :
    lexemes joint text = lexemesFrom joint 0 text.toList := by
  rw [lexemes, lexemesFrom, positions_eq]

/-- Where two characters do not join, the text may be cut. -/
theorem lexemesFrom_append (joint : Char → Joint) (n : Nat) (cs ds : List Char)
    (cut : ∀ a ∈ cs, ∀ b ∈ ds.head?, joined (joint a) (joint b) = false) :
    lexemesFrom joint n (cs ++ ds) =
      lexemesFrom joint n cs ++ lexemesFrom joint (n + width cs) ds := by
  rw [lexemesFrom, positionsFrom_append, List.splitBy_append, List.filterMap_append]
  · rfl
  · intro p hp q hq
    rw [head?_positionsFrom] at hq
    obtain ⟨b, hb, rfl⟩ := Option.map_eq_some_iff.mp hq
    exact cut p.2 (snd_mem_of_mem_positionsFrom (List.mem_of_mem_getLast? hp)) b hb

theorem lexemesFrom_separate (n : Nat) (h : joint c = .separate) (cs : List Char) :
    lexemesFrom joint n (c :: cs) = lexemesFrom joint (n + c.utf8Size) cs := by
  have cut := lexemesFrom_append joint n [c] cs fun a ha b _ => by
    rw [List.mem_singleton.mp ha, h]
    rfl
  have single : lexemesFrom joint n [c] = [] := by
    simp [lexemesFrom, positionsFrom, List.splitBy, List.splitBy.loop, ofRun?, h]
  simpa [single] using cut

theorem lexemesFrom_alone (n : Nat) (h : joint c = .alone) (cs : List Char) :
    lexemesFrom joint n (c :: cs) =
      ⟨n, String.ofList [c]⟩ :: lexemesFrom joint (n + c.utf8Size) cs := by
  have cut := lexemesFrom_append joint n [c] cs fun a ha b _ => by
    rw [List.mem_singleton.mp ha, h]
    rfl
  have single : lexemesFrom joint n [c] = [⟨n, String.ofList [c]⟩] := by
    simp [lexemesFrom, positionsFrom, List.splitBy, List.splitBy.loop, ofRun?, h]
  simpa [single] using cut

theorem lexemesFrom_run (n : Nat) (ne : cs ≠ []) (run : ∀ c ∈ cs, joint c = .join k)
    (stop : ∀ c ∈ ds.head?, joint c ≠ .join k) :
    lexemesFrom joint n (cs ++ ds) =
      ⟨n, String.ofList cs⟩ :: lexemesFrom joint (n + width cs) ds := by
  have cut := lexemesFrom_append joint n cs ds fun a ha b hb => by
    have off := stop b hb
    rw [run a ha]
    cases hj : joint b with
    | separate => rfl
    | alone => rfl
    | join l =>
      rw [hj] at off
      simpa [joined] using fun he : k = l => off (he ▸ rfl)
  have single : lexemesFrom joint n cs = [⟨n, String.ofList cs⟩] := by
    have chain : (positionsFrom n cs).IsChain
        fun a b => joined (joint a.2) (joint b.2) = true := by
      refine List.Pairwise.isChain (List.pairwise_of_forall_mem_list fun p hp q hq => ?_)
      rw [run _ (snd_mem_of_mem_positionsFrom hp), run _ (snd_mem_of_mem_positionsFrom hq)]
      simp [joined]
    have some : ofRun? joint (positionsFrom n cs) = some ⟨n, String.ofList cs⟩ := by
      cases cs with
      | nil => exact absurd rfl ne
      | cons c cs =>
        simp [positionsFrom, ofRun?, run c List.mem_cons_self, map_snd_positionsFrom]
    rw [lexemesFrom, List.splitBy_of_isChain ?_ chain]
    · simp [some]
    · cases cs with
      | nil => exact absurd rfl ne
      | cons c cs => simp [positionsFrom]
  rw [cut, single, List.singleton_append]

/-- The first character that breaks a run. -/
theorem exists_run (p : Char → Bool) (h : p c = true) (cs : List Char) :
    ∃ u r, c :: cs = u ++ r ∧ u ≠ [] ∧ (∀ c ∈ u, p c = true) ∧ ∀ c ∈ r.head?, p c = false := by
  refine ⟨c :: cs.takeWhile p, cs.dropWhile p, ?_, List.cons_ne_nil _ _, ?_, ?_⟩
  · rw [List.cons_append, List.takeWhile_append_dropWhile]
  · intro d hd
    rcases List.mem_cons.mp hd with rfl | hd
    · exact h
    · exact List.mem_takeWhile_imp hd
  · intro d hd
    have := List.head?_dropWhile_not p cs
    rwa [Option.mem_def.mp hd] at this

end Lexeme

end Fluxion

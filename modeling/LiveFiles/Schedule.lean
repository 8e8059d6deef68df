/-
Tasks in any order. `Machine.serve` carries out one section of a task that can go on: of the one that has the floor, or
of any that stands in the queue. `Machine.settle` serves tasks in the order of the queue, which is one way to do it
(`tick_eq_serve`).

The moves of a run are given one by one; `along` gives those of a list.
-/
import LiveFiles.Tasks

namespace LiveFiles

section Moves

variable {M : Type} [Inhabited M] {ms : List M}

/-- the moves of a list, and then the one that does nothing, again and again -/
def along (ms : List M) (n : Nat) : M := ms.getD n default

theorem along_of_length_le {n : Nat} (h : ms.length ≤ n) : along ms n = default := by
  rw [along, List.getD_eq_getElem?_getD, List.getElem?_eq_none h, Option.getD_none]

theorem along_take (ms : List M) {k n : Nat} (h : n < k) : along (ms.take k) n = along ms n := by
  rw [along, along, List.getD_eq_getElem?_getD, List.getD_eq_getElem?_getD, List.getElem?_take_of_lt h]

theorem along_ne (ms : List M) {m : M} (h : ∀ x ∈ ms, x ≠ m) (h₀ : default ≠ m) (n : Nat) : along ms n ≠ m := by
  rw [along, List.getD_eq_getElem?_getD]
  cases hn : ms[n]? with
  | none => exact h₀
  | some x => exact h x (List.mem_of_getElem? hn)

end Moves

namespace Machine

variable {W φ : Type} [Machine W φ]

/-- the task has the floor, or can get it -/
def canGo (w : W) (id : TaskId) : Bool :=
  match (tasks w).floor with
  | some x => x = id
  | none => id ∈ (tasks w).ready

/-- give the floor to a task unless somebody has it -/
def floorTo (w : W) (id : TaskId) : W :=
  match (tasks w).floor with
  | some _ => w
  | none => giveFloor w id

/-- one section of a task that can go on -/
def serve (w : W) (id : TaskId) : W := if canGo w id then runSection (floorTo w id) id else w

/-- one section in the order of the queue serves a task, if there is one that can go on -/
theorem tick_eq_serve (w : W) : ∃ id, tick w = serve w id := by
  unfold tick
  cases hf : (tasks w).floor with
  | some id =>
    refine ⟨id, ?_⟩
    simp [serve, canGo, floorTo, hf]
  | none =>
    cases hr : (tasks w).ready with
    | nil =>
      refine ⟨0, ?_⟩
      simp [serve, canGo, hf, hr]
    | cons id rest =>
      refine ⟨id, ?_⟩
      simp [serve, canGo, floorTo, hf, hr]

end Machine

end LiveFiles

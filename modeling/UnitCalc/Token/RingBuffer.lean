namespace UnitCalc

-- A queue in a ring of slots. Its elements stand in the slots from the start on, and go on from the
-- last slot to the first.
structure RingBuffer (α : Type) (capacity : Nat) where
  slots : Vector α capacity
  start : Nat
  -- How many elements wait. The other slots hold what was in them before.
  count : Nat
  deriving DecidableEq, Repr

namespace RingBuffer

-- The ring has a slot at all.
class HasSlot (capacity : Nat) : Prop where
  pos : 0 < capacity

variable {α : Type} {capacity : Nat} [HasSlot capacity]

-- An empty queue, with a value for the unused slots.
def filledWith (a : α) : RingBuffer α capacity :=
  ⟨Vector.replicate capacity a, 0, 0⟩

def clear (b : RingBuffer α capacity) : RingBuffer α capacity :=
  { b with start := 0, count := 0 }

-- The slot of the element with `i` elements before it.
def slot (b : RingBuffer α capacity) (i : Nat) : Fin capacity :=
  ⟨(b.start + i) % capacity, Nat.mod_lt _ HasSlot.pos⟩

def get (b : RingBuffer α capacity) (i : Nat) (_h : i < b.count) : α :=
  b.slots[b.slot i]

-- Puts an element at the end. When no slot is free, it takes that of the first element.
def push (b : RingBuffer α capacity) (a : α) : RingBuffer α capacity :=
  { b with slots := b.slots.set (b.slot b.count) a, count := b.count + 1 }

-- Takes the first element away.
def dropFirst (b : RingBuffer α capacity) : RingBuffer α capacity :=
  { b with start := (b.start + 1) % capacity, count := b.count - 1 }

-- The elements in order.
def toList (b : RingBuffer α capacity) : List α :=
  List.ofFn fun i : Fin b.count => b.get i i.isLt

@[simp] theorem length_toList (b : RingBuffer α capacity) : b.toList.length = b.count := by
  simp [toList]

theorem getElem?_toList (b : RingBuffer α capacity) {i : Nat} (h : i < b.count) :
    b.toList[i]? = some (b.get i h) := by
  simp [toList, h]

-- Slots are different for fewer elements than there are slots.
theorem slot_ne_slot {b : RingBuffer α capacity} {i j : Nat} (hij : i < j)
    (hj : j < i + capacity) : b.slot i ≠ b.slot j := by
  intro h
  have hmod : (b.start + j) % capacity = (b.start + i) % capacity := congrArg Fin.val h.symm
  have hdvd := Nat.dvd_of_mod_eq_zero (Nat.sub_mod_eq_zero_of_mod_eq hmod)
  have hle := Nat.le_of_dvd (by omega) hdvd
  omega

theorem toList_push {b : RingBuffer α capacity} (h : b.count < capacity) (a : α) :
    (b.push a).toList = b.toList ++ [a] := by
  apply List.ext_getElem?
  intro i
  by_cases hi : i < b.count
  · have hkept : b.slot b.count ≠ b.slot i := (slot_ne_slot hi (by omega)).symm
    have hget : (b.push a).get i (by simp only [push]; omega) = b.get i hi := by
      have hne : (b.slot b.count).val ≠ (b.slot i).val := fun h => hkept (Fin.ext h)
      simp only [get, push, Fin.getElem_fin]
      exact Vector.getElem_set_ne _ _ hne
    rw [getElem?_toList _ (by simp only [push]; omega), hget, List.getElem?_append_left (by simpa),
      getElem?_toList _ hi]
  · by_cases hlast : i = b.count
    · subst hlast
      have hget : (b.push a).get b.count (by simp only [push]; omega) = a := by
        simp only [get, push, Fin.getElem_fin]
        exact Vector.getElem_set_self _
      rw [getElem?_toList _ (by simp only [push]; omega), hget]
      simp
    · rw [List.getElem?_eq_none (by simp only [length_toList, push]; omega),
        List.getElem?_eq_none (by simp only [List.length_append, length_toList,
          List.length_singleton]; omega)]

theorem toList_dropFirst (b : RingBuffer α capacity) : b.dropFirst.toList = b.toList.tail := by
  apply List.ext_getElem?
  intro i
  rw [List.getElem?_tail]
  by_cases hi : i + 1 < b.count
  · have hslot : b.dropFirst.slot i = b.slot (i + 1) := by
      apply Fin.ext
      simp only [slot, dropFirst, Nat.mod_add_mod]
      congr 1
      omega
    rw [getElem?_toList _ (by simp only [dropFirst]; omega), getElem?_toList _ hi]
    simp only [get, hslot]
    rfl
  · rw [List.getElem?_eq_none (by simp only [length_toList, dropFirst]; omega),
      List.getElem?_eq_none (by simp only [length_toList]; omega)]

end RingBuffer

end UnitCalc

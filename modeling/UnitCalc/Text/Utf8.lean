namespace UnitCalc.Text

-- The number of bytes of a text in UTF-8.
def byteSize : List Char → Nat
  | [] => 0
  | c :: cs => c.utf8Size + byteSize cs

@[simp] theorem byteSize_nil : byteSize [] = 0 := rfl

@[simp] theorem byteSize_cons (c : Char) (cs : List Char) :
    byteSize (c :: cs) = c.utf8Size + byteSize cs := rfl

@[simp] theorem byteSize_append (as bs : List Char) :
    byteSize (as ++ bs) = byteSize as + byteSize bs := by
  induction as with
  | nil => simp
  | cons a as ih => simp [ih, Nat.add_assoc]

theorem byteSize_pos {cs : List Char} (h : cs ≠ []) : 0 < byteSize cs := by
  cases cs with
  | nil => exact absurd rfl h
  | cons c cs =>
      have hc := c.utf8Size_pos
      simp only [byteSize_cons]
      omega

theorem utf8ByteSize_ofList (cs : List Char) : (String.ofList cs).utf8ByteSize = byteSize cs := by
  induction cs with
  | nil => rfl
  | cons c cs ih =>
      have h : String.ofList (c :: cs) = String.singleton c ++ String.ofList cs := by
        apply String.toList_inj.mp
        simp
      rw [h, String.utf8ByteSize_append, ih, byteSize_cons, String.utf8ByteSize_singleton]

theorem byteSize_toList (s : String) : byteSize s.toList = s.utf8ByteSize := by
  rw [← utf8ByteSize_ofList, String.ofList_toList]

-- The bytes of a text in UTF-8.
def bytes (cs : List Char) : List UInt8 :=
  cs.flatMap String.utf8EncodeChar

theorem length_bytes (cs : List Char) : (bytes cs).length = byteSize cs := by
  induction cs with
  | nil => rfl
  | cons c cs ih =>
      rw [bytes, List.flatMap_cons, List.length_append, String.length_utf8EncodeChar, byteSize_cons]
      exact congrArg (c.utf8Size + ·) ih

theorem bytes_append (as bs : List Char) : bytes (as ++ bs) = bytes as ++ bytes bs :=
  List.flatMap_append

-- The two parts of a text around a byte offset, or none when the offset is past the end or inside a
-- character. So an offset is a character boundary when some first part of the text has that size.
def splitAt? : Nat → List Char → Option (List Char × List Char)
  | 0, cs => some ([], cs)
  | _ + 1, [] => none
  | n + 1, c :: cs =>
      if c.utf8Size ≤ n + 1 then
        (splitAt? (n + 1 - c.utf8Size) cs).map fun (before, after) => (c :: before, after)
      else
        none

-- Splitting at the size of a first part gives that part back.
theorem splitAt?_byteSize_append (as bs : List Char) :
    splitAt? (byteSize as) (as ++ bs) = some (as, bs) := by
  induction as with
  | nil => simp [splitAt?]
  | cons c cs ih =>
      have hc := c.utf8Size_pos
      obtain ⟨n, hn⟩ : ∃ n, byteSize (c :: cs) = n + 1 := ⟨byteSize (c :: cs) - 1, by
        simp only [byteSize_cons]; omega⟩
      have hle : c.utf8Size ≤ n + 1 := by rw [← hn]; simp
      have hsub : n + 1 - c.utf8Size = byteSize cs := by rw [← hn]; simp
      rw [hn, List.cons_append, splitAt?, if_pos hle, hsub, ih]
      rfl

-- The two parts make up the text, and the offset is the size of the first.
theorem append_of_splitAt? {n : Nat} {cs before after : List Char}
    (h : splitAt? n cs = some (before, after)) : before ++ after = cs ∧ byteSize before = n := by
  induction cs generalizing n before after with
  | nil =>
      cases n with
      | zero => simp only [splitAt?, Option.some.injEq, Prod.mk.injEq] at h; simp [← h.1, ← h.2]
      | succ n => simp [splitAt?] at h
  | cons c cs ih =>
      cases n with
      | zero => simp only [splitAt?, Option.some.injEq, Prod.mk.injEq] at h; simp [← h.1, ← h.2]
      | succ n =>
          rw [splitAt?] at h
          split at h
          · rename_i hle
            obtain ⟨⟨b, a⟩, hs, he⟩ := Option.map_eq_some_iff.mp h
            obtain ⟨rfl, rfl⟩ := Prod.mk.inj he
            obtain ⟨hb, hn⟩ := ih hs
            exact ⟨by simp [hb], by simp only [byteSize_cons]; omega⟩
          · simp at h

-- First parts of one size are the same, and so is what follows them.
theorem append_inj_of_byteSize {as bs cs ds : List Char} (h : as ++ bs = cs ++ ds)
    (hsize : byteSize as = byteSize cs) : as = cs ∧ bs = ds := by
  have hsplit := splitAt?_byteSize_append as bs
  rw [h, hsize, splitAt?_byteSize_append] at hsplit
  obtain ⟨rfl, rfl⟩ := Prod.mk.inj (Option.some.inj hsplit)
  exact ⟨rfl, rfl⟩

-- The part of a text from byte offset `start` up to byte offset `stop`, empty unless both are
-- character boundaries in this order.
def slice (start stop : Nat) (cs : List Char) : List Char :=
  match splitAt? start cs with
  | none => []
  | some (_, rest) =>
      if start ≤ stop then ((splitAt? (stop - start) rest).map Prod.fst).getD [] else []

-- The part between a first and a last part of a text.
theorem slice_append (as bs cs : List Char) :
    slice (byteSize as) (byteSize as + byteSize bs) (as ++ (bs ++ cs)) = bs := by
  rw [slice, splitAt?_byteSize_append]
  simp only [Nat.le_add_right, if_true, Nat.add_sub_cancel_left, splitAt?_byteSize_append]
  rfl

end UnitCalc.Text

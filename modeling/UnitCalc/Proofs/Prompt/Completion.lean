import Mathlib.Data.List.DropRight
import UnitCalc.Prompt.Completion
import UnitCalc.Proofs.Units.Listing

namespace UnitCalc.Prompt

open Text

section

variable {cs rest word : List Char}

theorem lastWord_eq_rtakeWhile (cs : List Char) : lastWord cs = cs.rtakeWhile isSymbolChar := rfl

theorem isSymbolChar_of_mem_lastWord {c : Char} (h : c ∈ lastWord cs) : isSymbolChar c = true :=
  List.mem_rtakeWhile_imp h

-- A text is what is left of its last word, and that word.
theorem exists_eq_append_lastWord (cs : List Char) : ∃ rest, cs = rest ++ lastWord cs :=
  ⟨cs.rdropWhile isSymbolChar, (List.rdropWhile_append_rtakeWhile).symm⟩

theorem lastWord_append (hword : ∀ c ∈ word, isSymbolChar c = true) :
    lastWord (rest ++ word) = lastWord rest ++ word := by
  have hreverse : ∀ c ∈ word.reverse, isSymbolChar c = true := fun c hc =>
    hword c (List.mem_reverse.mp hc)
  rw [lastWord, List.reverse_append, List.takeWhile_append_of_pos hreverse, List.reverse_append,
    List.reverse_reverse]
  rfl

theorem lastWord_eq_nil_iff :
    lastWord cs = [] ↔ ∀ c ∈ cs.getLast?, isSymbolChar c = false := by
  rw [lastWord_eq_rtakeWhile, List.rtakeWhile_eq_nil_iff]
  cases cs.eq_nil_or_concat with
  | inl hnil => simp [hnil]
  | inr hlast =>
      obtain ⟨init, c, rfl⟩ := hlast
      simp

-- The last word of a text is the part after a place just when all of that part could be a symbol,
-- and the character before it could not.
theorem lastWord_append_eq_iff :
    lastWord (rest ++ word) = word ↔
      (∀ c ∈ word, isSymbolChar c = true) ∧ ∀ c ∈ rest.getLast?, isSymbolChar c = false := by
  rw [← lastWord_eq_nil_iff]
  constructor
  · intro h
    have hword : ∀ c ∈ word, isSymbolChar c = true := fun c hc =>
      isSymbolChar_of_mem_lastWord (h ▸ hc)
    rw [lastWord_append hword, List.append_left_eq_self] at h
    exact ⟨hword, h⟩
  · rintro ⟨hword, hnil⟩
    rw [lastWord_append hword, hnil, List.nil_append]

-- No longer end of a text could be a symbol.
theorem length_le_length_lastWord (hsuffix : word <:+ cs)
    (hword : ∀ c ∈ word, isSymbolChar c = true) : word.length ≤ (lastWord cs).length := by
  obtain ⟨rest, rfl⟩ := hsuffix
  rw [lastWord_append hword, List.length_append]
  exact Nat.le_add_left _ _

end

-- The text before a caret that stands between two characters.
theorem beforeCaret_append (before after : List Char) :
    beforeCaret (String.ofList (before ++ after)) (byteSize before) = before := by
  have hle : byteSize before ≤ (String.ofList (before ++ after)).utf8ByteSize := by
    rw [utf8ByteSize_ofList, byteSize_append]
    exact Nat.le_add_right _ _
  rw [beforeCaret, Nat.min_eq_left hle, String.toList_ofList, splitAt?_byteSize_append]

-- A line that starts with a point and has no blank in it.
def IsCommand (cs : List Char) : Prop :=
  cs.head? = some '.' ∧ ∀ c ∈ cs, isBlank c = false

instance (cs : List Char) : Decidable (IsCommand cs) :=
  decidable_of_iff (cs.head? = some '.' ∧ cs.all fun c => !isBlank c) (by simp [IsCommand])

variable {r : Registry Float} {before after : List Char}

theorem complete_of_isCommand (h : IsCommand before) :
    complete r (String.ofList (before ++ after)) (byteSize before) =
      (0, commands.filter fun w => before.isPrefixOf w.toList) := by
  have hblank : before.any isBlank = false := List.any_eq_false.mpr fun c hc => by simp [h.2 c hc]
  simp only [complete, beforeCaret_append, h.1, hblank, startsWith, String.toList_ofList]
  rfl

theorem complete_of_not_isCommand (h : ¬ IsCommand before) :
    complete r (String.ofList (before ++ after)) (byteSize before) =
      (byteSize before - byteSize (lastWord before),
        if (lastWord before).isEmpty then []
        else candidates r (String.ofList (lastWord before))) := by
  have hcommand : ¬ (before.head? = some '.' && !before.any isBlank) = true := by
    simpa [IsCommand] using h
  simp only [complete, beforeCaret_append]
  rw [if_neg (by simpa using hcommand)]

-- The word that is completed goes from where it starts to the caret.
theorem start_complete_eq_iff {rest word : List Char} (h : before = rest ++ word)
    (hcommand : ¬ IsCommand before) :
    (complete r (String.ofList (before ++ after)) (byteSize before)).1 = byteSize rest ↔
      lastWord before = word := by
  obtain ⟨left, hleft⟩ := exists_eq_append_lastWord before
  have hsize : byteSize before - byteSize (lastWord before) = byteSize left := by
    have hsizes := congrArg byteSize hleft
    rw [byteSize_append] at hsizes
    omega
  rw [complete_of_not_isCommand hcommand, hsize]
  constructor
  · exact fun hsize => (append_inj_of_byteSize (hleft.symm.trans h) hsize).2
  · intro hword
    rw [hword] at hleft
    rw [List.append_cancel_right (hleft.symm.trans h)]

theorem keyword_mem_all (k : Keyword) : k ∈ Keyword.all := by
  cases k <;> decide

theorem mem_candidates_iff {word : List Char} {w : String} :
    w ∈ candidates r (String.ofList word) ↔
      ((∃ k : Keyword, w = k.word) ∨ w ∈ r.symbols ∨ w ∈ r.aliases) ∧
        word <+: w.toList ∧ ' ' ∉ w.toList := by
  have hkeyword : w ∈ Keyword.all.map Keyword.word ↔ ∃ k : Keyword, w = k.word := by
    simp [keyword_mem_all, eq_comm]
  simp only [candidates, mem_sortNames, List.mem_filter, List.mem_append, hkeyword,
    Std.ExtTreeMap.mem_keys, or_assoc]
  simp [startsWith]

-- A completion is exact: a command is completed with the commands that start with it, and any other
-- line with all names that go on with its last word, in byte order.
theorem complete_exact (r : Registry Float) (before after : List Char) :
    let c := complete r (String.ofList (before ++ after)) (byteSize before)
    (IsCommand before → c = (0, commands.filter fun w => before.isPrefixOf w.toList)) ∧
    (¬ IsCommand before → ∃ rest word, before = rest ++ word ∧ c.1 = byteSize rest ∧
      (∀ d ∈ word, isSymbolChar d = true) ∧
      (∀ ds, ds <:+ before → (∀ d ∈ ds, isSymbolChar d = true) →
        ds.length ≤ word.length) ∧
      c.2.Pairwise Precedes ∧
      ∀ w, w ∈ c.2 ↔ word ≠ [] ∧
        ((∃ k : Keyword, w = k.word) ∨ w ∈ r.symbols ∨ w ∈ r.aliases) ∧
        word <+: w.toList ∧ ' ' ∉ w.toList) := by
  intro c
  refine ⟨complete_of_isCommand, fun hcommand => ?_⟩
  obtain ⟨rest, hsplit⟩ := exists_eq_append_lastWord before
  have hwords : c.2 = if (lastWord before).isEmpty then [] else
      candidates r (String.ofList (lastWord before)) :=
    congrArg Prod.snd (complete_of_not_isCommand hcommand)
  refine ⟨rest, lastWord before, hsplit, (start_complete_eq_iff hsplit hcommand).mpr rfl,
    fun d => isSymbolChar_of_mem_lastWord, fun _ => length_le_length_lastWord, ?_, ?_⟩
  · rw [hwords]
    split
    · exact .nil
    · exact pairwise_sortNames_lt.imp precedes_of_compare
  · intro w
    rw [hwords]
    split
    · rename_i hempty
      simp [List.isEmpty_iff.mp hempty]
    · rename_i hword
      rw [List.isEmpty_iff] at hword
      rw [mem_candidates_iff, and_iff_right hword]

end UnitCalc.Prompt

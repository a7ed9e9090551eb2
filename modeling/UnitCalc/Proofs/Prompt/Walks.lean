import UnitCalc.Proofs.Prompt.Completion
import UnitCalc.Proofs.Units.Walks

namespace UnitCalc.Prompt

open Text

section

variable {r : Registry Float}

-- The names that a word can be the start of, where walks find the symbols and the aliases.
def candidatesBy (w : r.Walks) (word : String) : List String :=
  let names := Keyword.all.map Keyword.word ++ w.symbols ++ w.aliases.map Prod.fst
  sortUnique (names.filter fun n => startsWith n word && !n.toList.contains ' ')

-- Where the word at the caret starts, and what it can become, from the names that walks find.
def completeBy (w : r.Walks) (line : String) (caret : Nat) : Nat × List String :=
  let before := beforeCaret line caret
  if before.head? = some '.' && !before.any isBlank then
    (0, commands.filter fun c => startsWith c (String.ofList before))
  else
    let word := lastWord before
    let start := byteSize before - byteSize word
    (start, if word.isEmpty then [] else candidatesBy w (String.ofList word))

theorem candidatesBy_eq (w : r.Walks) (word : String) :
    candidatesBy w word = candidates r word := by
  have haliases (name : String) : name ∈ w.aliases.map Prod.fst ↔ name ∈ r.aliases.keys := by
    rw [(w.aliases_perm.map Prod.fst).mem_iff, Std.ExtTreeMap.map_fst_toList_eq_keys]
  rw [candidatesBy, sortUnique_eq, candidates]
  refine sortNames_congr fun name => ?_
  simp only [List.mem_filter, List.mem_append, w.symbols_eq, haliases]

theorem completeBy_eq (w : r.Walks) (line : String) (caret : Nat) :
    completeBy w line caret = complete r line caret := by
  simp only [completeBy, complete, candidatesBy_eq]

end

-- The same operations lead to the same tables, whatever the orders in which units are met on the
-- way, and names stand for the same units in them. However these tables are then walked, the same
-- symbols are listed and counted, the same aliases are met, and a line is completed with the same
-- words.
theorem same_in_any_order {start r r' : Registry Float} {ops : List Registry.Operation}
    (h : start.Run ops r) (h' : start.Run ops r') (w : r.Walks) (w' : r'.Walks) :
    r = r' ∧ r = start.edited ops ∧ (∀ name, r.find? name = r'.find? name) ∧
    (w.symbols = w'.symbols ∧ w.symbols = r.symbols) ∧
    (w.size = w'.size ∧ w.size = r.size) ∧
    w.aliases.Perm w'.aliases ∧
    ∀ line caret, completeBy w line caret = completeBy w' line caret ∧
      completeBy w line caret = complete r line caret := by
  have hr := Registry.run_iff.mp h
  obtain rfl : r = r' := hr.trans (Registry.run_iff.mp h').symm
  refine ⟨rfl, hr, fun _ => rfl, ⟨?_, w.symbols_eq⟩, ⟨?_, w.size_eq⟩,
    w.aliases_perm.trans w'.aliases_perm.symm, fun line caret => ⟨?_, completeBy_eq w line caret⟩⟩
  · rw [w.symbols_eq, w'.symbols_eq]
  · rw [w.size_eq, w'.size_eq]
  · rw [completeBy_eq, completeBy_eq]

-- A catalog of SI with two units that have a multiple in the micro sign.
def metreAndPace : List (Catalog Float) :=
  [⟨.si, [⟨"micro", "µ", 1e-6, -6⟩],
    [(Registry.metres "m" 1.0 ["metre"]).withMultiples,
      (Registry.metres "p" 0.75 ["pace"]).withMultiples]⟩]

-- The load of that catalog, by a walk, and a unit of the session on top of it.
def sessionBy (w : Walk (metreAndPace.foldl Layer.addCatalog .empty).units) : Registry Float :=
  let loaded : Registry Float := { Registry.empty with defaults := .ofCatalogsBy metreAndPace w }
  ((Registry.Operation.define (Registry.metres "x" 3.0 ["µx"]) false).edit.outcome loaded).2

theorem same_in_any_order_micro :
    let ops := [.loadDefaults metreAndPace, .define (Registry.metres "x" 3.0 ["µx"]) false]
    let r := sessionBy (.forwards _)
    let r' := sessionBy (.backwards _)
    (Walk.backwards (metreAndPace.foldl Layer.addCatalog .empty).units).names =
      ["µp", "µm", "p", "m"] ∧
    Registry.empty.Run ops r ∧ Registry.empty.Run ops r' ∧ r = r' ∧
    (Registry.Walks.forwards r).symbols = (Registry.Walks.backwards r').symbols ∧
    (Registry.Walks.forwards r).symbols = ["m", "p", "x", "µm", "µp"] ∧
    completeBy (.forwards r) "1 µ" 4 = completeBy (.backwards r') "1 µ" 4 ∧
    completeBy (.forwards r) "1 µ" 4 = (2, ["µm", "µp", "µx"]) := by
  intro ops r r'
  have hrun : Registry.empty.Run ops r := .load _ (.edit rfl (.done _))
  have hrun' : Registry.empty.Run ops r' := .load _ (.edit rfl (.done _))
  obtain ⟨hsame, -, -, ⟨hsymbols, hlisted⟩, -, -, hwords⟩ :=
    same_in_any_order hrun hrun' (.forwards r) (.backwards r')
  obtain ⟨hcompleted, hcomplete⟩ := hwords "1 µ" 4
  refine ⟨?_, hrun, hrun', hsame, hsymbols, hlisted.trans ?_, hcompleted, hcomplete.trans ?_⟩
  · rw [Walk.names_backwards]
    rfl
  · rfl
  · decide +kernel

end UnitCalc.Prompt

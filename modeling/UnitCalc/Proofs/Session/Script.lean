import UnitCalc.CommandLine.Run
import UnitCalc.Proofs.Line.Independence
import UnitCalc.Proofs.Units.Edit

namespace UnitCalc

namespace Stage

variable {s s' : Stage} {t : Token} {line : Option Quantity}

theorem fault?_of_next (h : s.next t = .ok (s', line)) : t.kind.fault? = none := by
  rcases next_cases h with ⟨hskips, -, -⟩ | ⟨-, hfault, -⟩
  · rcases kind_of_skips hskips with hk | ⟨hk, -⟩ <;> rw [hk] <;> rfl
  · exact Option.map_eq_none_iff.mp hfault

theorem fault?_of_run {ts : List Token} {qs : List Quantity} (h : s.run ts = .ok qs) :
    ∀ t ∈ ts, t.kind.fault? = none := by
  induction ts generalizing s qs with
  | nil => exact fun t ht => absurd ht List.not_mem_nil
  | cons u ts ih =>
      obtain ⟨s', line, qs', hnext, hrun, -⟩ := exists_of_run_cons_eq_ok h
      intro t ht
      rcases List.mem_cons.mp ht with rfl | ht
      · exact fault?_of_next hnext
      · exact ih hrun t ht

end Stage

variable {o : LexOptions} {r : Registry Float} {source : String} {es : List Evaluated}

-- A text that can be read has no faulty token, not even a skipped one.
theorem fault?_of_parseLines {qs : List Quantity} (h : parseLines o source = .ok qs) :
    ∀ t ∈ lex o source, t.kind.fault? = none := by
  intro t ht
  rcases mem_joinLines_or ht with hmem | hk | hk
  · exact Stage.fault?_of_run h t hmem
  · rw [hk]
    rfl
  · rw [hk]
    rfl

theorem Diagnostics.hasErrors_of_fault? {ts : List Token}
    (h : ∀ t ∈ ts, t.kind.fault? = none) : (empty.reportFaults ts).hasErrors = false := by
  have hnone : ts.filterMap Diagnostic.ofFault? = [] := by
    apply List.filterMap_eq_nil_iff.mpr
    intro t ht
    rw [Diagnostic.ofFault?, h t ht]
    rfl
  rw [hasErrors, errors, reportFaults, hnone]
  rfl

theorem evaluateLines_eq_ok_iff : evaluateLines o r source = .ok es ↔
    ∃ qs, parseLines o source = .ok qs ∧ qs.mapM (Quantity.evaluate r) = .ok es := by
  rw [evaluateLines]
  cases hparse : parseLines o source with
  | error e => simp [Except.mapError, bind, Except.bind]
  | ok qs =>
      cases hvalues : qs.mapM (Quantity.evaluate r) <;>
        simp [hvalues, Except.mapError, bind, Except.bind]

theorem Quantity.mapM_evaluate_cons {q : Quantity} {qs : List Quantity} :
    (q :: qs).mapM (Quantity.evaluate r) = .ok es ↔
      ∃ e rest, q.evaluate r = .ok e ∧ qs.mapM (Quantity.evaluate r) = .ok rest ∧
        es = e :: rest := by
  rw [List.mapM_cons]
  constructor
  · intro h
    obtain ⟨e, he, hmap⟩ := exists_of_bind_eq_ok h
    obtain ⟨rest, hrest, hsame⟩ := exists_of_bind_eq_ok hmap
    cases hsame
    exact ⟨e, rest, he, hrest, rfl⟩
  · rintro ⟨e, rest, he, hrest, rfl⟩
    rw [he, hrest]
    rfl

namespace CommandLine

theorem evaluateAll_of_mapM {qs : List Quantity} (h : qs.mapM (Quantity.evaluate r) = .ok es) :
    evaluateAll r qs = .done (es.map Evaluated.display) := by
  induction qs generalizing es with
  | nil =>
      cases h
      rfl
  | cons q qs ih =>
      obtain ⟨e, rest, he, hrest, rfl⟩ := Quantity.mapM_evaluate_cons.mp h
      simp [evaluateAll, he, ih hrest, Reply.done]

theorem runScript_of_parseLines {qs : List Quantity} (h : parseLines o source = .ok qs) :
    runScript o r source = evaluateAll r qs := by
  have hplain := Diagnostics.hasErrors_of_fault? (fault?_of_parseLines h)
  rw [runScript, hplain, h]
  rfl

theorem runScript_of_evaluateLines (h : evaluateLines o r source = .ok es) :
    runScript o r source = .done (es.map Evaluated.display) := by
  obtain ⟨qs, hparse, hvalues⟩ := evaluateLines_eq_ok_iff.mp h
  rw [runScript_of_parseLines hparse]
  exact evaluateAll_of_mapM hvalues

end CommandLine

-- A text without blanks around it is no command when it does not start with a point.
theorem Entry.ofText_of_trim {text : String} (hne : text ≠ "") (htrim : Text.trim text = text)
    (hpoint : text.toList.head? ≠ some '.') : ofText text = .quantities text := by
  rw [ofText, htrim]
  split
  · rename_i hnil
    exact absurd (String.toList_eq_nil_iff.mp hnil) hne
  · rename_i hcons
    simp [hcons] at hpoint
  · simp

namespace Session

variable {s : Session} {input rest : Input} {text : String}

-- The text that the next line of the input finishes, and the input after it.
def readLine? (s : Session) (input : Input) : Option (String × Input) := do
  let (line, rest) ← input.line?
  let text ← Prompt.applyBackspaces (s.pending ++ line.text)
  if Prompt.needsMore s.options text then none else some (text, rest)

theorem run_of_nil (files : String → Option Source) (s : Session) (h : input.text = []) :
    s.run files input = ⟨if input.broken then [] else [farewell], false⟩ := by
  have hline : input.line? = none := by rw [Input.line?, if_pos h]
  rw [run]
  split
  · rfl
  · rename_i hsome
    rw [hline] at hsome
    cases hsome

theorem run_of_quantities (files : String → Option Source) {text' : String}
    (hread : s.readLine? input = some (text, rest))
    (hentry : Entry.ofText text = .quantities text') :
    s.run files input =
      let after := run files { s with pending := "" } rest
      { after with output := s.results text' ++ after.output } := by
  obtain ⟨⟨line, rest'⟩, hline, hread⟩ := Option.bind_eq_some_iff.mp hread
  obtain ⟨text'', htext, hread⟩ := Option.bind_eq_some_iff.mp hread
  have hmore : Prompt.needsMore s.options text'' = false := by
    cases h : Prompt.needsMore s.options text'' with
    | false => rfl
    | true => simp [h] at hread
  simp only [hmore] at hread
  cases hread
  have hgather : s.gather line = some (some (.quantities text'), { s with pending := "" }) := by
    simp [gather, htext, hmore, hentry]
  rw [run]
  split
  · rename_i hnone
    simp [hline] at hnone
  · rename_i line' rest'' hsome
    rw [hline] at hsome
    cases hsome
    simp only [hgather]
    rfl

-- For a text whose lines have values a session prints what a script prints, in white, unless the
-- text starts with a point.
theorem run_agrees_with_script (files : String → Option Source) {es : List Evaluated}
    (hread : s.readLine? input = some (text, rest)) (hne : text ≠ "")
    (htrim : Text.trim text = text) (hpoint : text.toList.head? ≠ some '.')
    (h : evaluateLines s.options s.registry text = .ok es) :
    CommandLine.runScript s.options s.registry text = .done (es.map Evaluated.display) ∧
    s.run files input =
      let after := run files { s with pending := "" } rest
      { after with
        output := (es.map Evaluated.display).map Style.brightWhite.paint ++ after.output } := by
  have hresults : s.results text = (es.map Evaluated.display).map Style.brightWhite.paint := by
    simp [results, h]
  refine ⟨CommandLine.runScript_of_evaluateLines h, ?_⟩
  rw [run_of_quantities files hread (Entry.ofText_of_trim hne htrim hpoint), hresults]

theorem run_agrees_with_script_five :
    (start {} .empty).readLine? (.ofString "5\n") = some ("5", ⟨[], 0, false⟩) ∧
    "5" ≠ "" ∧ Text.trim "5" = "5" ∧ "5".toList.head? ≠ some '.' ∧
    evaluateLines {} .empty "5" = .ok [⟨5, none, .multiplicative .one 1⟩] ∧
    CommandLine.runScript {} .empty "5" = .done ["5"] ∧
    (start {} .empty).run (fun _ => none) (.ofString "5\n") =
      ⟨[Style.brightWhite.paint "5", farewell], false⟩ := by
  have hread : (start {} .empty).readLine? (.ofString "5\n") = some ("5", ⟨[], 0, false⟩) := by
    decide +kernel
  have hne : "5" ≠ "" := by decide
  have htrim : Text.trim "5" = "5" := by decide +kernel
  have hpoint : "5".toList.head? ≠ some '.' := by decide
  have hvalue : evaluateLines (start {} .empty).options (start {} .empty).registry "5" =
      .ok [⟨5, none, .multiplicative .one 1⟩] := by decide +kernel
  have hdisplay : Evaluated.display ⟨5, none, .multiplicative .one 1⟩ = "5" := by decide +kernel
  obtain ⟨hscript, hrun⟩ :=
    run_agrees_with_script (fun _ => none) hread hne htrim hpoint hvalue
  rw [List.map_singleton, hdisplay] at hscript hrun
  refine ⟨hread, hne, htrim, hpoint, hvalue, hscript, ?_⟩
  rw [hrun, run_of_nil _ _ rfl]
  rfl

-- A number may start with a point, and so may a line, but a session takes it for a command.
theorem not_forall_run_agrees_with_script :
    ¬ ∀ (files : String → Option Source) (s : Session) (input rest : Input) (text : String)
      (es : List Evaluated), s.readLine? input = some (text, rest) → text ≠ "" →
      Text.trim text = text → evaluateLines s.options s.registry text = .ok es →
      s.run files input =
        let after := run files { s with pending := "" } rest
        { after with
          output := (es.map Evaluated.display).map Style.brightWhite.paint ++ after.output } := by
  intro h
  have hread : (start {} .empty).readLine? (.ofString ".5\n") = some (".5", ⟨[], 0, false⟩) := by
    decide +kernel
  have hvalue : evaluateLines {} .empty ".5" = .ok [⟨0.5, none, .multiplicative .one 1⟩] := by
    decide +kernel
  have hrun : (start {} .empty).run (fun _ => none) (.ofString ".5\n") = ⟨[farewell], false⟩ := by
    decide +kernel
  have hagrees := h (fun _ => none) (start {} .empty) _ _ _ _ hread (by decide) (by decide +kernel)
    hvalue
  rw [hrun, run_of_nil _ _ rfl] at hagrees
  have hlength := congrArg (fun t => t.output.length) hagrees
  simp at hlength

end Session

end UnitCalc
